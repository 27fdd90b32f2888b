import PMTester.MmapTable
import PMTester.RenamePaths

/-!
# What a failed call leaves behind

A call whose operation failed, or was not reached, should not have changed the
recorder. `CmRename` rewrites the descriptor paths before its system call, and
`CmFallocate` looks its descriptor up with an operator that makes an entry; no
other call touches the recorder before its operation has succeeded.
-/
namespace PMTester

open RecordCmFsOps

variable {σ : Type}

/-- The operation below the call fails, or a lookup or a stat before it does, so that it is not
reached. -/
def undone (h : Host σ) (w : World σ) : CmOp → Prop
  | .mknod p mode dev => (h.fnMknod (cStr p) mode dev w.fs).1 < 0
  | .mkdir p mode => (h.fnMkdir (cStr p) mode w.fs).1 < 0
  | .open p flags => (h.fnOpen (cStr p) flags (h.fnPathExists (cStr p) w.fs).2).1 < 0
  | .open2 p flags mode => (h.fnOpen2 (cStr p) flags mode (h.fnPathExists (cStr p) w.fs).2).1 < 0
  | .lseek fd offset whence => (h.fnLseek fd offset whence w.fs).1 < 0
  | .write fd buf => ∀ p, w.fdMap fd = some p →
      (h.fnStat p w.fs).1.1 < 0 ∨
        (h.fnWrite fd buf (h.fnLseek fd 0 seekCur (h.fnStat p w.fs).2).2).1 < 0
  | .pwrite fd buf offset => ∀ p, w.fdMap fd = some p →
      (h.fnStat p w.fs).1.1 < 0 ∨ (h.fnPwrite fd buf offset (h.fnStat p w.fs).2).1 < 0
  | .mmap addr length prot flags fd offset =>
    (h.fnMmap addr length prot flags fd offset w.fs).1 = mapFailed
  | .msync addr length flags => (h.fnMsync addr length flags w.fs).1 < 0
  | .munmap addr length => (h.fnMunmap addr length w.fs).1 < 0
  | .fallocate fd mode offset len =>
    let stat := h.fnStat (cStr ((w.fdMap fd).getD [])) w.fs
    stat.1.1 < 0 ∨ (h.fnFallocate fd mode offset len stat.2).1 < 0
  | .close fd => (h.fnClose fd w.fs).1 < 0
  | .rename oldPath newPath => (h.fnRename oldPath newPath w.fs).1 < 0
  | .unlink p => (h.fnUnlink (cStr p) w.fs).1 < 0
  | .remove p => (h.fnRemove (cStr p) w.fs).1 < 0
  | .fsync fd => (h.fnFsync fd w.fs).1 < 0
  | .fdatasync fd => (h.fnFdatasync fd w.fs).1 < 0
  | .sync => False
  | .syncFileRange fd offset nbytes flags => (h.fnSyncFileRange fd offset nbytes flags w.fs).1 < 0
  | .checkpoint => (h.toFsFns.cmCheckpoint w.fs).1 < 0

/-- The caller is told of an error: by the value, by an exception, or by the end of the program. -/
def CmOp.reportsError : CmOp → CmResult → Prop
  | .mmap .., .ret value => value = mapFailed
  | _, .ret value => value < 0
  | _, .void => False
  | _, .outOfRange | _, .badAlloc | _, .assertFailed | _, .fault => True

/-- The members of the recorder are as they were. -/
structure Untouched (w w' : World σ) : Prop where
  fdMap : w'.fdMap = w.fdMap
  mmapMap : w'.mmapMap = w.mmapMap
  mods : w'.mods = w.mods

theorem Untouched.of_fs (w : World σ) (fs : σ) : Untouched w { w with fs := fs } := ⟨rfl, rfl, rfl⟩

/-- The arguments with which a failing call still leaves the recorder alone. -/
def CmOp.inertOnFailure (fdMap : Int → Option Path) : CmOp → Prop
  | .rename oldPath newPath =>
    oldPath = newPath ∨ ∀ fd entry, fdMap fd = some entry → ¬ oldPath <:+: entry
  | .fallocate fd _ _ _ => fdMap fd ≠ none
  | _ => True

/-- A path keeps its text in a rename just when it does not contain the old name, or the names
are equal. -/
theorem renamed_eq_self_iff (oldPath newPath entry : Path) :
    renamed oldPath newPath entry = entry ↔ oldPath = newPath ∨ ¬ oldPath <:+: entry := by
  by_cases hcontains : oldPath <:+: entry
  · simp only [hcontains, not_true_eq_false, or_false]
    by_cases haffected : Affected oldPath entry
    · rw [renamed_affected newPath haffected]
      have hbegins : oldPath <+: entry := by
        cases haffected with
        | inl hsame => exact hsame ▸ List.prefix_rfl
        | inr hbelow => exact (List.prefix_append _ _).trans hbelow
      obtain ⟨rest, rfl⟩ := hbegins
      rw [List.drop_left, List.append_left_inj]
      exact eq_comm
    · exact renamed_contains haffected hcontains
  · simp [hcontains, renamed_absent newPath hcontains]

/-- `CmRename` rewrites the descriptor paths, whatever its system call returns. -/
theorem cmRename_untouched_iff (h : Host σ) (w : World σ) (oldPath newPath : Path) :
    Untouched w (cmRename h oldPath newPath w).2 ↔
      CmOp.inertOnFailure w.fdMap (.rename oldPath newPath) := by
  have hentry : ∀ fd, (cmRename h oldPath newPath w).2.fdMap fd =
      (w.fdMap fd).map (renamed oldPath newPath) := fun fd => rfl
  constructor
  · intro hsame
    by_cases hnames : oldPath = newPath
    · exact Or.inl hnames
    · right
      intro fd entry hfd
      have hkept := congrFun hsame.fdMap fd
      rw [hentry, hfd] at hkept
      have hself := (renamed_eq_self_iff _ _ _).mp (Option.some.inj hkept)
      exact hself.resolve_left hnames
  · intro hinert
    refine ⟨?_, rfl, rfl⟩
    funext fd
    rw [hentry]
    cases hfd : w.fdMap fd with
    | none => rfl
    | some entry =>
      have hself : oldPath = newPath ∨ ¬ oldPath <:+: entry :=
        hinert.imp_right fun hall => hall fd entry hfd
      rw [Option.map_some, (renamed_eq_self_iff _ _ _).mpr hself]

theorem insertFd_eq_self_iff (m : Int → Option Path) (fd : Int) (p : Path) :
    insertFd m fd p = m ↔ m fd ≠ none := by
  constructor
  · intro hsame hnone
    have hentry := congrFun hsame fd
    simp [insertFd, hnone] at hentry
  · intro hsome
    obtain ⟨entry, hentry⟩ := Option.ne_none_iff_exists'.mp hsome
    rw [insertFd, hentry, Option.getD_some, ← hentry, Function.update_eq_self]

/-- A `CmFallocate` that fails has only looked up its descriptor. -/
theorem cmFallocate_undone {h : Host σ} {w : World σ} {fd : Int} {mode : Flags} {offset len : Int}
    (hundone : undone h w (.fallocate fd mode offset len)) :
    ∃ res fs, cmFallocate h fd mode offset len w =
      (.ret res, { w with fs := fs, fdMap := insertFd w.fdMap fd [] }) := by
  have hpath : (insertFd w.fdMap fd [] fd).getD [] = (w.fdMap fd).getD [] := by simp [insertFd]
  simp only [undone] at hundone
  simp only [cmFallocate, hpath]
  by_cases hstat : (h.fnStat (cStr ((w.fdMap fd).getD [])) w.fs).1.1 < 0
  · rw [if_pos hstat]
    exact ⟨_, _, rfl⟩
  · rw [if_neg hstat, if_pos (hundone.resolve_left hstat)]
    exact ⟨_, _, rfl⟩

theorem cmFallocate_untouched_iff {h : Host σ} {w : World σ} {fd : Int} {mode : Flags}
    {offset len : Int} (hundone : undone h w (.fallocate fd mode offset len)) :
    Untouched w (cmFallocate h fd mode offset len w).2 ↔
      CmOp.inertOnFailure w.fdMap (.fallocate fd mode offset len) := by
  obtain ⟨res, fs, hcall⟩ := cmFallocate_undone hundone
  rw [hcall, CmOp.inertOnFailure, ← insertFd_eq_self_iff w.fdMap fd []]
  exact ⟨fun hsame => hsame.fdMap, fun hsame => ⟨hsame, rfl, rfl⟩⟩

/-- The end of `CmWrite` and `CmPwrite` records nothing where it reports an error. -/
theorem written_untouched {h : Host σ} (op : CmOp) {p : Path} {pre : Stat} {location : UInt64}
    {buf : List UInt8} {res : Int} {mod : DiskMod} {w : World σ} {fs : σ}
    (hop : op.reportsError (.ret res) → res < 0)
    (herror : op.reportsError (if res < 0 then (.ret res, { w with fs := fs })
      else if pre.isDir then (.ret res, ({ w with fs := fs } : World σ).push mod)
      else recordWrite h p pre location buf res { w with fs := fs }).1) :
    Untouched w (if res < 0 then (CmResult.ret res, { w with fs := fs })
      else if pre.isDir then (.ret res, ({ w with fs := fs } : World σ).push mod)
      else recordWrite h p pre location buf res { w with fs := fs }).2 := by
  by_cases hneg : res < 0
  · rw [if_pos hneg]
    exact Untouched.of_fs w fs
  rw [if_neg hneg] at herror ⊢
  by_cases hdir : pre.isDir = true
  · rw [if_pos hdir] at herror
    exact absurd (hop herror) hneg
  rw [if_neg hdir] at herror ⊢
  simp only [recordWrite] at herror ⊢
  split at herror
  · exact absurd (hop herror) hneg
  · rename_i hstat
    rw [if_neg hstat]
    split at herror
    · rename_i hshort
      rw [if_pos hshort]
      exact Untouched.of_fs w _
    · exact absurd (hop herror) hneg

theorem cmWrite_untouched {h : Host σ} {w : World σ} {fd : Int} {buf : List UInt8}
    (herror : CmOp.reportsError (.write fd buf) (cmWrite h fd buf w).1) :
    Untouched w (cmWrite h fd buf w).2 := by
  unfold cmWrite at herror ⊢
  cases hfd : w.fdMap fd with
  | none => exact Untouched.of_fs w w.fs
  | some p =>
    simp only [hfd] at herror ⊢
    by_cases hstat : (h.fnStat p w.fs).1.1 < 0
    · rw [if_pos hstat]
      exact Untouched.of_fs w _
    rw [if_neg hstat] at herror ⊢
    have hlocation : ∀ x : UInt64, ¬ x < 0 := fun x => UInt64.not_lt_zero
    rw [if_neg (hlocation _)] at herror ⊢
    exact written_untouched (.write fd buf) id herror

theorem cmPwrite_untouched {h : Host σ} {w : World σ} {fd : Int} {buf : List UInt8} {offset : Int}
    (herror : CmOp.reportsError (.pwrite fd buf offset) (cmPwrite h fd buf offset w).1) :
    Untouched w (cmPwrite h fd buf offset w).2 := by
  unfold cmPwrite at herror ⊢
  cases hfd : w.fdMap fd with
  | none => exact Untouched.of_fs w w.fs
  | some p =>
    simp only [hfd] at herror ⊢
    by_cases hstat : (h.fnStat p w.fs).1.1 < 0
    · rw [if_pos hstat]
      exact Untouched.of_fs w _
    rw [if_neg hstat] at herror ⊢
    exact written_untouched (.pwrite fd buf offset) id herror

/-- The calls that hand the state to their operation before anything else and stop when it fails. -/
theorem call_untouched {h : Host σ} {w : World σ} {op : CmOp} (hundone : undone h w op)
    (herror : op.reportsError (call h op w).1) (hrename : ∀ p q, op ≠ .rename p q)
    (hfallocate : ∀ fd mode offset len, op ≠ .fallocate fd mode offset len) :
    Untouched w (call h op w).2 := by
  cases op with
  | mknod | lseek => exact Untouched.of_fs w _
  | sync => exact absurd hundone id
  | write fd buf => exact cmWrite_untouched herror
  | pwrite fd buf offset => exact cmPwrite_untouched herror
  | rename p q => exact absurd rfl (hrename p q)
  | fallocate fd mode offset len => exact absurd rfl (hfallocate fd mode offset len)
  | mkdir =>
    simp only [undone] at hundone
    simp only [call, cmMkdir, if_pos hundone]
    exact Untouched.of_fs w _
  | «open» =>
    simp only [undone] at hundone
    simp only [call, cmOpen, openWith, if_pos hundone]
    exact Untouched.of_fs w _
  | open2 =>
    simp only [undone] at hundone
    simp only [call, cmOpen2, openWith, if_pos hundone]
    exact Untouched.of_fs w _
  | mmap =>
    simp only [undone] at hundone
    simp only [call, cmMmap, if_pos hundone]
    exact Untouched.of_fs w _
  | msync =>
    simp only [undone] at hundone
    simp only [call, cmMsync, if_pos hundone]
    exact Untouched.of_fs w _
  | munmap =>
    simp only [undone] at hundone
    simp only [call, cmMunmap, if_pos hundone]
    exact Untouched.of_fs w _
  | close =>
    simp only [undone] at hundone
    simp only [call, cmClose, if_pos hundone]
    exact Untouched.of_fs w _
  | unlink =>
    simp only [undone] at hundone
    simp only [call, cmUnlink, removeWith, if_pos hundone]
    exact Untouched.of_fs w _
  | remove =>
    simp only [undone] at hundone
    simp only [call, cmRemove, removeWith, if_pos hundone]
    exact Untouched.of_fs w _
  | fsync =>
    simp only [undone] at hundone
    simp only [call, cmFsync, fsyncWith, if_pos hundone]
    exact Untouched.of_fs w _
  | fdatasync =>
    simp only [undone] at hundone
    simp only [call, cmFdatasync, fsyncWith, if_pos hundone]
    exact Untouched.of_fs w _
  | syncFileRange =>
    simp only [undone] at hundone
    simp only [call, cmSyncFileRange, if_pos hundone]
    exact Untouched.of_fs w _
  | checkpoint =>
    simp only [undone] at hundone
    simp only [call, cmCheckpoint, if_pos hundone]
    exact Untouched.of_fs w _

/-- A failed call leaves the recorder untouched exactly when it is neither a rename between two
names of which the old one occurs in a descriptor path, nor a `CmFallocate` without an entry. -/
theorem failed_call_untouched_iff (h : Host σ) (w : World σ) (op : CmOp)
    (hundone : undone h w op) (herror : op.reportsError (call h op w).1) :
    Untouched w (call h op w).2 ↔ op.inertOnFailure w.fdMap := by
  by_cases hother : (∀ p q, op ≠ .rename p q) ∧
      ∀ fd mode offset len, op ≠ .fallocate fd mode offset len
  · have hinert : op.inertOnFailure w.fdMap := by
      cases op with
      | rename p q => exact absurd rfl (hother.1 p q)
      | fallocate fd mode offset len => exact absurd rfl (hother.2 fd mode offset len)
      | _ => trivial
    exact iff_of_true (call_untouched hundone herror hother.1 hother.2) hinert
  · cases op with
    | rename p q => exact cmRename_untouched_iff h w p q
    | fallocate fd mode offset len => exact cmFallocate_untouched_iff hundone
    | _ => exact absurd ⟨by simp, by simp⟩ hother

/-- A failed `CmFallocate` on a tracked descriptor, here of a file that the file system cannot
preallocate. -/
theorem failed_call_untouched_fallocate :
    Untouched (run (posix splitPath) siblingRun (World.start (PosixFs.empty 3)))
      (call (posix splitPath) (.fallocate 3 0#32 0 1)
        (run (posix splitPath) siblingRun (World.start (PosixFs.empty 3)))).2 :=
  (failed_call_untouched_iff (posix splitPath) _ (.fallocate 3 0#32 0 1)
    (Or.inr (by decide +kernel))
    (show (_ : Int) < 0 by decide +kernel)).mpr (show _ ≠ none by decide +kernel)

/-- A rename of an open file into a directory that does not exist fails, and the descriptor of
the file is recorded under the name the file never got. -/
theorem failed_rename_rewrites :
    undone (posix splitPath) (run (posix splitPath) siblingRun (World.start (PosixFs.empty 3)))
        (.rename (path ['/', 'f', 'o', 'o']) (path ['/', 'd', '/', 'g'])) ∧
      (call (posix splitPath) (.rename (path ['/', 'f', 'o', 'o']) (path ['/', 'd', '/', 'g']))
        (run (posix splitPath) siblingRun (World.start (PosixFs.empty 3)))).1 = .ret (-1) ∧
      ¬ Untouched (run (posix splitPath) siblingRun (World.start (PosixFs.empty 3)))
        (call (posix splitPath) (.rename (path ['/', 'f', 'o', 'o']) (path ['/', 'd', '/', 'g']))
          (run (posix splitPath) siblingRun (World.start (PosixFs.empty 3)))).2 := by
  refine ⟨show (_ : Int) < 0 by decide +kernel, by decide +kernel, fun h => ?_⟩
  exact absurd (congrFun h.fdMap 4) (by decide +kernel)

end PMTester
