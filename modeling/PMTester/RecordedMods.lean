import PMTester.Lib.Run
import PMTester.Codec
import PMTester.RecordOps

/-!
# Which mods a recorder can append

`Recorded` lists the shapes of the mods that the `Cm*` calls build. The only
assumption on the file system is that it does not truncate directories on open.
The frame of a recorded mod is sized correctly exactly when it is not a removal.
-/
namespace PMTester

open Bytes Memory Run Word

/-- `O_TRUNC` on a directory fails, so a truncating open leaves a path that is no directory. -/
def RefusesDirTrunc {σ : Type} (fns : FsFns σ) : Prop :=
  ∀ p flags s, Flags.has flags oTrunc = true →
    (0 ≤ (fns.fnOpen p flags s).1 →
      (fns.fnStat p (fns.fnOpen p flags s).2).1.2.isDir = false) ∧
    ∀ mode, 0 ≤ (fns.fnOpen2 p flags mode s).1 →
      (fns.fnStat p (fns.fnOpen2 p flags mode s).2).1.2.isDir = false

/-- A change to a file: written data, or a truncation. -/
def ModType.isData (t : ModType) : Prop := t = .kDataMod ∨ t = .kDataMetadataMod

/-- The mods that the `Cm*` calls build. -/
inductive Recorded : DiskMod → Prop where
  /-- `CmCheckpoint` and `CmSync`. -/
  | marker (t : ModType) (ht : t = .kCheckpointMod ∨ t = .kSyncMod) : Recorded { modType := t }
  /-- `CmMkdir`, a creating `CmOpen`, and a write whose recorded path names a directory. -/
  | created (p : Path) (stats : Stat) (dir : Bool) (location : UInt64) :
      Recorded { path := p, postModStats := stats, directoryMod := dir,
                 fileModLocation := location }
  /-- `CmFsync`, `CmFdatasync`, `CmUnlink` and `CmRemove`. -/
  | named (t : ModType) (ht : t = .kFsyncMod ∨ t = .kRemoveMod) (p : Path) :
      Recorded { path := p, modType := t }
  /-- `CmFallocate` and `CmSyncFileRange`. -/
  | ranged (t : ModType) (o : ModOpts)
      (hto : t = .kSyncFileRangeMod ∧ o = .kNoneOpt ∨ t.isData ∧ o.isFallocate = true)
      (p : Path) (stats : Stat) (location len : UInt64) :
      Recorded { path := p, modType := t, modOpts := o, postModStats := stats,
                 fileModLocation := location, fileModLen := len }
  /-- `CmWrite`, `CmPwrite`, `CmMsync` and a truncating `CmOpen`. -/
  | data (t : ModType) (ht : t.isData) (o : ModOpts) (ho : o.isFallocate = false) (p : Path)
      (stats : Stat) (location len : UInt64) (bytes : List UInt8)
      (hlen : bytes.length = len.toNat) (hbound : bytes.length < 2 ^ 63) :
      Recorded { path := p, modType := t, modOpts := o, postModStats := stats,
                 fileModData := bytes, fileModLocation := location, fileModLen := len }

/-- A call adds at most one mod, at the end, and it has one of the shapes. -/
def Appends {σ : Type} (w w' : World σ) : Prop :=
  w'.mods = w.mods ∨ ∃ m, w'.mods = w.mods ++ [m] ∧ Recorded m

namespace RecordCmFsOps

variable {σ : Type} {h : Host σ}

theorem appends_same {w w' : World σ} (hw : w'.mods = w.mods) : Appends w w' := Or.inl hw

theorem appends_push {w w' : World σ} {m : DiskMod} (hw : w'.mods = w.mods) (hm : Recorded m) :
    Appends w (w'.push m) := Or.inr ⟨m, by simp [World.push, hw], hm⟩

theorem openWith_appends (fnOpen : Path → σ → Int × σ) (p : Path) (flags : Flags) (w : World σ)
    (hdir : ∀ s, Flags.has flags oTrunc = true → 0 ≤ (fnOpen (cStr p) s).1 →
      (h.fnStat (cStr p) (fnOpen (cStr p) s).2).1.2.isDir = false) :
    Appends w (openWith h fnOpen p flags w).2 := by
  simp only [openWith]
  split
  · exact appends_same rfl
  rename_i hres
  simp only [cmOpenCommon]
  split
  · rename_i hrec
    split
    · exact appends_same rfl
    apply appends_push rfl
    cases hex : (h.fnPathExists (cStr p) w.fs).1 with
    | false => exact Recorded.created _ _ _ 0
    | true =>
      have htrunc : Flags.has flags oTrunc = true := by simpa [hex] using hrec
      have hnot := hdir (h.fnPathExists (cStr p) w.fs).2 htrunc (Int.not_lt.mp hres)
      simp only [hnot, Bool.not_true, Bool.false_eq_true, ↓reduceIte]
      exact Recorded.data _ (Or.inr rfl) _ rfl _ _ 0 0 [] rfl (by decide)
  · exact appends_same rfl

theorem recordWrite_appends (p : Path) (pre : Stat) (location : UInt64) (buf : List UInt8)
    (res : Int) (hlo : 0 ≤ res) (hhi : res < 2 ^ 31) (w w' : World σ) (hw : w'.mods = w.mods) :
    Appends w (recordWrite h p pre location buf res w').2 := by
  simp only [recordWrite]
  split
  · exact appends_same hw
  split
  · exact appends_same hw
  rename_i hle
  obtain ⟨n, rfl⟩ := Int.eq_ofNat_of_zero_le hlo
  have hn : (intToUlong n).toNat = n := intToUlong_natCast n (by omega)
  apply appends_push hw
  have ht : ModType.isData (if pre.stSize ≠ (h.fnStat p w'.fs).1.2.stSize then
      ModType.kDataMetadataMod else ModType.kDataMod) := by
    split
    · exact Or.inr rfl
    · exact Or.inl rfl
  refine Recorded.data _ ht _ rfl _ _ _ _ _ ?_ ?_
  · rw [hn, List.length_take]
    simp only [Int.toNat_natCast] at hle ⊢
    omega
  · rw [List.length_take]
    omega

theorem cmWrite_appends (fd : Int) (buf : List UInt8) (w : World σ) :
    Appends w (cmWrite h fd buf w).2 := by
  simp only [cmWrite]
  split
  · exact appends_same rfl
  split
  · exact appends_same rfl
  split
  · exact appends_same rfl
  split
  · exact appends_same rfl
  rename_i hres
  split
  · exact appends_push rfl (Recorded.created [] {} true _)
  · exact recordWrite_appends _ _ _ _ _ (by omega) (toInt_lt _) _ _ rfl

theorem cmPwrite_appends (fd : Int) (buf : List UInt8) (offset : Int) (w : World σ) :
    Appends w (cmPwrite h fd buf offset w).2 := by
  simp only [cmPwrite]
  split
  · exact appends_same rfl
  split
  · exact appends_same rfl
  split
  · exact appends_same rfl
  rename_i hres
  split
  · exact appends_push rfl (Recorded.created [] {} true 0)
  · exact recordWrite_appends _ _ _ _ _ (by omega) (toInt_lt _) _ _ rfl

theorem cmMsync_appends (addr length : Nat) (flags : Flags) (w : World σ) :
    Appends w (cmMsync h addr length flags w).2 := by
  simp only [cmMsync]
  split
  · exact appends_same rfl
  split
  · exact appends_same rfl
  split
  · exact appends_same rfl
  rename_i hlen
  split
  · exact appends_same rfl
  rename_i bytes hload
  have hbytes := load_length _ _ _ _ hload
  apply appends_push rfl
  refine Recorded.data _ (Or.inl rfl) _ (by split <;> rfl) _ _ _ _ _ ?_ (by omega)
  rw [UInt64.toNat_ofNat', Nat.mod_eq_of_lt (by omega), hbytes]

theorem fallocateOpts_isFallocate (mode : Flags) : (fallocateOpts mode).isFallocate = true := by
  unfold fallocateOpts
  split_ifs <;> rfl

theorem cmFallocate_appends (fd : Int) (mode : Flags) (offset len : Int) (w : World σ) :
    Appends w (cmFallocate h fd mode offset len w).2 := by
  simp only [cmFallocate]
  split
  · exact appends_same rfl
  split
  · exact appends_same rfl
  split
  · exact appends_same rfl
  split
  · exact appends_same rfl
  apply appends_push rfl
  refine Recorded.ranged _ _ (Or.inr ⟨?_, fallocateOpts_isFallocate mode⟩) _ {} _ _
  split
  · exact Or.inr rfl
  · exact Or.inl rfl

theorem removeWith_appends (fnRemove : Path → σ → Int × σ) (p : Path) (w : World σ) :
    Appends w (removeWith fnRemove p w).2 := by
  simp only [removeWith]
  split
  · exact appends_same rfl
  · exact appends_push rfl (Recorded.named _ (Or.inr rfl) p)

theorem fsyncWith_appends (fnFsync : Int → σ → Int × σ) (fd : Int) (w : World σ) :
    Appends w (fsyncWith fnFsync fd w).2 := by
  simp only [fsyncWith]
  split
  · exact appends_same rfl
  split
  · exact appends_same rfl
  · exact appends_push rfl (Recorded.named _ (Or.inl rfl) _)

theorem cmSyncFileRange_appends (fd : Int) (offset nbytes : Nat) (flags : Flags) (w : World σ) :
    Appends w (cmSyncFileRange h fd offset nbytes flags w).2 := by
  simp only [cmSyncFileRange]
  split
  · exact appends_same rfl
  split
  · exact appends_same rfl
  split
  · exact appends_same rfl
  · exact appends_push rfl (Recorded.ranged _ _ (Or.inl ⟨rfl, rfl⟩) _ _ _ _)

/-- Every call appends at most one mod, of a recorded shape. -/
theorem call_appends (hdir : RefusesDirTrunc h.toFsFns) (op : CmOp) (w : World σ) :
    Appends w (call h op w).2 := by
  cases op with
  | mkdir p mode =>
    simp only [call, cmMkdir]
    split
    · exact appends_same rfl
    · exact appends_push rfl (Recorded.created p {} true 0)
  | «open» p flags => exact openWith_appends _ p flags w fun s ht hres => (hdir _ _ s ht).1 hres
  | open2 p flags mode =>
    exact openWith_appends _ p flags w fun s ht hres => (hdir _ _ s ht).2 mode hres
  | write fd buf => exact cmWrite_appends fd buf w
  | pwrite fd buf offset => exact cmPwrite_appends fd buf offset w
  | mmap addr length prot flags fd offset =>
    simp only [call, cmMmap]
    split
    · exact appends_same rfl
    split
    · exact appends_same rfl
    split <;> exact appends_same rfl
  | msync addr length flags => exact cmMsync_appends addr length flags w
  | munmap addr length =>
    simp only [call, cmMunmap]
    split <;> exact appends_same rfl
  | fallocate fd mode offset len => exact cmFallocate_appends fd mode offset len w
  | close fd =>
    simp only [call, cmClose]
    split <;> exact appends_same rfl
  | unlink p => exact removeWith_appends _ p w
  | remove p => exact removeWith_appends _ p w
  | fsync fd => exact fsyncWith_appends _ fd w
  | fdatasync fd => exact fsyncWith_appends _ fd w
  | sync => exact appends_push rfl (Recorded.marker _ (Or.inr rfl))
  | syncFileRange fd offset nbytes flags => exact cmSyncFileRange_appends fd offset nbytes flags w
  | checkpoint =>
    simp only [call, cmCheckpoint]
    split
    · exact appends_same rfl
    · exact appends_push rfl (Recorded.marker _ (Or.inl rfl))
  | mknod | lseek | rename => exact appends_same rfl

/-- Every mod of a run that started with recorded mods is recorded. -/
theorem run_recorded (hdir : RefusesDirTrunc h.toFsFns) (ops : List CmOp) (w : World σ)
    (hw : ∀ m ∈ w.mods, Recorded m) : ∀ m ∈ (run h ops w).mods, Recorded m := by
  refine invariant (fun w => ∀ m ∈ w.mods, Recorded m) ?_ ops w hw
    (allowed_of_forall _ (fun _ => True) ops (fun _ _ => trivial) w)
  intro w op hw _
  rcases call_appends hdir op w with hsame | ⟨m, happ, hm⟩
  · rw [hsame]
    exact hw
  · rw [happ]
    intro m' hm'
    cases List.mem_append.mp hm' with
    | inl hm' => exact hw m' hm'
    | inr hm' =>
      rw [List.mem_singleton.mp hm']
      exact hm

end RecordCmFsOps

end PMTester
