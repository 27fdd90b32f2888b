import PMTester.Posix

/-!
# What a fallocate mod says

`fallocate` has seven modes that Linux accepts, and a mod keeps the range and an
option chosen by testing the flags in turn. The test for `INSERT_RANGE` is
commented out, so a call in that mode is recorded like an allocation.
-/
namespace PMTester

open Word RecordCmFsOps PosixFs

def fallocFlInsertRange : Flags := 32#32

/-- The combinations of flags that Linux accepts. -/
inductive FallocateMode where
  | allocate | keepSize | punchHole | collapseRange | zeroRange | zeroRangeKeepSize | insertRange
  deriving DecidableEq, Repr

namespace FallocateMode

def flags : FallocateMode → Flags
  | .allocate => 0#32
  | .keepSize => fallocFlKeepSize
  | .punchHole => fallocFlPunchHole ||| fallocFlKeepSize
  | .collapseRange => fallocFlCollapseRange
  | .zeroRange => fallocFlZeroRange
  | .zeroRangeKeepSize => fallocFlZeroRange ||| fallocFlKeepSize
  | .insertRange => fallocFlInsertRange

/-- Zeros in the part of a range that lies in the file. -/
def zeroed (offset len : Nat) (data : List UInt8) : List UInt8 :=
  data.mapIdx fun i b => if offset ≤ i ∧ i < offset + len then 0 else b

/-- Zeros at the end of the file, up to a size. -/
def extended (size : Nat) (data : List UInt8) : List UInt8 :=
  data ++ List.replicate (size - data.length) 0

/-- The bytes of the file after the call. -/
def effect (offset len : Nat) (data : List UInt8) : FallocateMode → List UInt8
  | .allocate => extended (offset + len) data
  | .keepSize => data
  | .punchHole | .zeroRangeKeepSize => zeroed offset len data
  | .collapseRange => data.take offset ++ data.drop (offset + len)
  | .zeroRange => zeroed offset len (extended (offset + len) data)
  | .insertRange => data.take offset ++ List.replicate len 0 ++ data.drop offset

/-- Ranges the call refuses: empty or too far, and for the modes that shift the file, ranges at
its end. -/
def Accepts (offset len : Int) (data : List UInt8) (m : FallocateMode) : Prop :=
  0 ≤ offset ∧ 0 < len ∧ offset + len ≤ maxOffset ∧
    (m = .collapseRange → offset + len < data.length) ∧
    (m = .insertRange → offset < data.length ∧ data.length + len ≤ maxOffset)

instance (offset len : Int) (data : List UInt8) (m : FallocateMode) :
    Decidable (m.Accepts offset len data) := inferInstanceAs (Decidable (_ ∧ _))

def ofFlags (flags : Flags) : Option FallocateMode :=
  [allocate, keepSize, punchHole, collapseRange, zeroRange, zeroRangeKeepSize, insertRange].find?
    fun m => m.flags == flags

theorem ofFlags_eq_some {f : Flags} {m : FallocateMode} (h : ofFlags f = some m) : m.flags = f := by
  simpa using List.find?_some h

/-- The option tells the modes apart, except an insertion from an allocation. -/
theorem opts_injective (m m' : FallocateMode) (h : fallocateOpts m.flags = fallocateOpts m'.flags)
    (hinsert : m.flags = fallocFlInsertRange ↔ m'.flags = fallocFlInsertRange) : m = m' := by
  revert h hinsert
  cases m <;> cases m' <;> decide

theorem modes_of_opts (m m' : FallocateMode) (h : fallocateOpts m.flags = fallocateOpts m'.flags)
    (hinsert : m.flags = fallocFlInsertRange) (hother : m'.flags ≠ fallocFlInsertRange) :
    m = .insertRange ∧ m' = .allocate := by
  revert h hinsert hother
  cases m <;> cases m' <;> decide

/-- An insertion makes the file longer than an allocation of the same range does. -/
theorem effect_insertRange_ne (offset len : Nat) (data : List UInt8) (hlen : 0 < len)
    (hoffset : offset < data.length) :
    effect offset len data .insertRange ≠ effect offset len data .allocate := by
  intro hsame
  have hlength := congrArg List.length hsame
  simp only [effect, extended, List.length_append, List.length_take, List.length_replicate,
    List.length_drop] at hlength
  omega

theorem insertRange_ne_allocate {offset len : Int} {data : List UInt8}
    (h : insertRange.Accepts offset len data) :
    effect offset.toNat len.toNat data .insertRange ≠ effect offset.toNat len.toNat data .allocate := by
  obtain ⟨hoffset, hlen, -, -, hinsert⟩ := h
  have hinside := (hinsert rfl).1
  exact effect_insertRange_ne _ _ _ (by omega) (by omega)

/-- Modes with one option have one effect, except an insertion and an allocation. -/
theorem effect_eq_iff (m m' : FallocateMode) {offset len : Int} {data : List UInt8}
    (h : m.Accepts offset len data) (h' : m'.Accepts offset len data)
    (hopts : fallocateOpts m.flags = fallocateOpts m'.flags) :
    m.effect offset.toNat len.toNat data = m'.effect offset.toNat len.toNat data ↔
      (m.flags = fallocFlInsertRange ↔ m'.flags = fallocFlInsertRange) := by
  by_cases hfirst : m.flags = fallocFlInsertRange
  · by_cases hsecond : m'.flags = fallocFlInsertRange
    · have hsame := opts_injective m m' hopts (iff_of_true hfirst hsecond)
      exact iff_of_true (by rw [hsame]) (iff_of_true hfirst hsecond)
    · obtain ⟨rfl, rfl⟩ := modes_of_opts m m' hopts hfirst hsecond
      exact iff_of_false (insertRange_ne_allocate h) fun hiff => hsecond (hiff.mp hfirst)
  · by_cases hsecond : m'.flags = fallocFlInsertRange
    · obtain ⟨rfl, rfl⟩ := modes_of_opts m' m hopts.symm hsecond hfirst
      exact iff_of_false (insertRange_ne_allocate h').symm fun hiff => hfirst (hiff.mpr hsecond)
    · have hsame := opts_injective m m' hopts (iff_of_false hfirst hsecond)
      exact iff_of_true (by rw [hsame]) (iff_of_false hfirst hsecond)

end FallocateMode

/-- `stat` and `fallocate` on the bytes that a descriptor's file has. -/
structure FallocateKernel {σ : Type} (fns : FsFns σ) (content : σ → Int → List UInt8) : Prop where
  stat : ∀ p s, content (fns.fnStat p s).2 = content s
  fallocate : ∀ fd mode offset len s, ¬ (fns.fnFallocate fd mode offset len s).1 < 0 →
    ∃ m : FallocateMode, m.flags = mode ∧ m.Accepts offset len (content s fd) ∧
      content (fns.fnFallocate fd mode offset len s).2 fd =
        m.effect offset.toNat len.toNat (content s fd)

section

variable {σ : Type} {h : Host σ} {content : σ → Int → List UInt8}

/-- What is known of a call that has appended a mod. -/
theorem cmFallocate_recorded (hk : FallocateKernel h.toFsFns content) {w : World σ} {fd : Int}
    {mode : Flags} {offset len : Int} {mod : DiskMod}
    (hmods : (cmFallocate h fd mode offset len w).2.mods = w.mods ++ [mod]) :
    ∃ m : FallocateMode, m.flags = mode ∧ m.Accepts offset len (content w.fs fd) ∧
      mod.modOpts = fallocateOpts mode ∧ mod.fileModLocation = intToUlong offset ∧
      mod.fileModLen = intToUlong len ∧
      content (cmFallocate h fd mode offset len w).2.fs fd =
        m.effect offset.toNat len.toNat (content w.fs fd) := by
  unfold cmFallocate at hmods ⊢
  dsimp only at hmods ⊢
  split at hmods
  · simp at hmods
  rename_i hpre
  simp only [if_neg hpre]
  split at hmods
  · simp at hmods
  rename_i hres
  simp only [if_neg hres]
  split at hmods
  · simp at hmods
  rename_i hpost
  simp only [if_neg hpost]
  split at hmods
  · simp at hmods
  rename_i hassert
  simp only [if_neg hassert]
  have hmod := List.singleton_inj.mp (List.append_cancel_left hmods)
  obtain ⟨m, hflags, haccepts, heffect⟩ := hk.fallocate fd mode offset len _ hres
  rw [hk.stat] at haccepts heffect
  refine ⟨m, hflags, haccepts, by rw [← hmod], by rw [← hmod], by rw [← hmod], ?_⟩
  rw [World.push_fs, hk.stat, heffect]

/-- A field that holds an `off_t` determines it. -/
theorem intToUlong_injective {x y : Int} (hx : 0 ≤ x) (hx' : x ≤ maxOffset) (hy : 0 ≤ y)
    (hy' : y ≤ maxOffset) (hsame : intToUlong x = intToUlong y) : x = y := by
  have hmax : maxOffset < 2 ^ 64 := by decide
  obtain ⟨a, rfl⟩ := Int.eq_ofNat_of_zero_le hx
  obtain ⟨b, rfl⟩ := Int.eq_ofNat_of_zero_le hy
  have hnat := congrArg UInt64.toNat hsame
  rw [intToUlong_natCast a (by omega), intToUlong_natCast b (by omega)] at hnat
  rw [hnat]

end

/-- Two calls that append the same mod leave the same bytes exactly when both or neither insert a
range. -/
theorem fallocate_mod_iff {σ : Type} (h : Host σ) (content : σ → Int → List UInt8)
    (hk : FallocateKernel h.toFsFns content) (w w' : World σ) (fd fd' : Int) (mode mode' : Flags)
    (offset len offset' len' : Int) (mod : DiskMod)
    (hmods : (cmFallocate h fd mode offset len w).2.mods = w.mods ++ [mod])
    (hmods' : (cmFallocate h fd' mode' offset' len' w').2.mods = w'.mods ++ [mod])
    (hcontent : content w.fs fd = content w'.fs fd') :
    content (cmFallocate h fd mode offset len w).2.fs fd =
        content (cmFallocate h fd' mode' offset' len' w').2.fs fd' ↔
      (mode = fallocFlInsertRange ↔ mode' = fallocFlInsertRange) := by
  obtain ⟨m, rfl, haccepts, hopts, hlocation, hlength, heffect⟩ := cmFallocate_recorded hk hmods
  obtain ⟨m', rfl, haccepts', hopts', hlocation', hlength', heffect'⟩ :=
    cmFallocate_recorded hk hmods'
  obtain ⟨hoffset, hlen, hbound, -, -⟩ := id haccepts
  obtain ⟨hoffset', hlen', hbound', -, -⟩ := id haccepts'
  have hsameOffset : offset = offset' :=
    intToUlong_injective hoffset (by omega) hoffset' (by omega) (hlocation.symm.trans hlocation')
  have hsameLen : len = len' :=
    intToUlong_injective (by omega) (by omega) (by omega) (by omega) (hlength.symm.trans hlength')
  subst hsameOffset hsameLen
  rw [← hcontent] at haccepts'
  rw [heffect, heffect', ← hcontent]
  exact FallocateMode.effect_eq_iff m m' haccepts haccepts' (hopts.symm.trans hopts')

/-- `fallocate` on an open file; ranges that shift the file are whole blocks of 4096 bytes. -/
def doFallocate (fd : Int) (mode : Flags) (offset len : Int) (_ : Choice) (s : PosixFs) :
    Option (Int × PosixFs) :=
  match s.fds fd, FallocateMode.ofFlags mode with
  | some f, some m =>
    let data := (s.inodes f.ino).data
    let whole := offset % 4096 = 0 ∧ len % 4096 = 0
    if f.writable = true ∧ (s.inodes f.ino).kind = .regular ∧ m.Accepts offset len data ∧
        (m = .collapseRange ∨ m = .insertRange → whole) then
      some (0, s.setData f.ino (m.effect offset.toNat len.toNat data))
    else none
  | _, _ => none

/-- The reference file system with `fallocate`. -/
def withFallocate (resolve : Path → Name) : Host PosixFs :=
  { posix resolve with
    fnFallocate := fun fd mode offset len s => s.attempt (doFallocate fd mode offset len) }

/-- The bytes of the file a descriptor is open on. -/
def openContent (s : PosixFs) (fd : Int) : List UInt8 :=
  match s.fds fd with
  | none => []
  | some f => (s.inodes f.ino).data

theorem doFallocate_cases {fd : Int} {mode : Flags} {offset len : Int} {c : Choice}
    {s s' : PosixFs} {r : Int} (h : doFallocate fd mode offset len c s = some (r, s')) :
    ∃ m : FallocateMode, m.flags = mode ∧ m.Accepts offset len (openContent s fd) ∧
      openContent s' fd = m.effect offset.toNat len.toNat (openContent s fd) := by
  unfold doFallocate at h
  split at h
  · rename_i f m hf hm
    dsimp only at h
    split at h
    · rename_i hok
      cases h
      refine ⟨m, FallocateMode.ofFlags_eq_some hm, ?_, ?_⟩
      · simpa [openContent, hf] using hok.2.2.1
      · simp [openContent, hf]
    · cases h
  · cases h

theorem withFallocate_kernel (resolve : Path → Name) :
    FallocateKernel (withFallocate resolve).toFsFns openContent where
  stat p s := by
    simp only [withFallocate, posix]
    split <;> rfl
  fallocate fd mode offset len s hres := by
    have hres : ¬ (s.attempt (doFallocate fd mode offset len)).1 < 0 := hres
    rcases attempt_cases s (doFallocate fd mode offset len) with hatt | ⟨c, r, s', hact, hatt⟩
    · rw [hatt] at hres
      exact absurd (show (-1 : Int) < 0 by decide) hres
    · have hafter : ((withFallocate resolve).fnFallocate fd mode offset len s).2 = s' :=
        congrArg Prod.snd hatt
      have hcases := doFallocate_cases hact
      rw [hafter]
      exact hcases

/-- A file of one byte. -/
def byteRun : List CmOp :=
  [.open2 (path ['/', 'f']) (oCreat ||| oRdwr) 0o644#32, .write 3 [7]]

/-- The mod of a call on its first 4096 bytes that changes its size. -/
def grownMod : DiskMod :=
  { modType := .kDataMetadataMod, modOpts := .kFallocateOpt, path := path ['/', 'f'],
    fileModLen := 4096 }

/-- The same file, written twice. -/
def rewrittenRun : List CmOp :=
  [.open2 (path ['/', 'f']) (oCreat ||| oRdwr) 0o644#32, .write 3 [9], .pwrite 3 [7] 0]

theorem fallocate_mod_twice :
    openContent (cmFallocate (withFallocate splitPath) 3 0#32 0 4096
        (run (withFallocate splitPath) byteRun (World.start (PosixFs.empty 3)))).2.fs 3 =
      openContent (cmFallocate (withFallocate splitPath) 3 0#32 0 4096
        (run (withFallocate splitPath) rewrittenRun (World.start (PosixFs.empty 3)))).2.fs 3 :=
  (fallocate_mod_iff (withFallocate splitPath) openContent (withFallocate_kernel splitPath)
    (run (withFallocate splitPath) byteRun (World.start (PosixFs.empty 3)))
    (run (withFallocate splitPath) rewrittenRun (World.start (PosixFs.empty 3))) 3 3 0#32 0#32 0
    4096 0 4096 grownMod (by decide +kernel) (by decide +kernel) (by decide +kernel)).mpr Iff.rfl

/-- An allocation of the first block of the file and the insertion of a block before its byte are
recorded alike. -/
theorem insertion_recorded_as_allocation :
    (cmFallocate (withFallocate splitPath) 3 0#32 0 4096
        (run (withFallocate splitPath) byteRun (World.start (PosixFs.empty 3)))).2.mods =
      (cmFallocate (withFallocate splitPath) 3 fallocFlInsertRange 0 4096
        (run (withFallocate splitPath) byteRun (World.start (PosixFs.empty 3)))).2.mods ∧
    (cmFallocate (withFallocate splitPath) 3 0#32 0 4096
        (run (withFallocate splitPath) byteRun (World.start (PosixFs.empty 3)))).2.mods.getLast? =
      some grownMod ∧
    openContent (cmFallocate (withFallocate splitPath) 3 0#32 0 4096
        (run (withFallocate splitPath) byteRun (World.start (PosixFs.empty 3)))).2.fs 3 ≠
      openContent (cmFallocate (withFallocate splitPath) 3 fallocFlInsertRange 0 4096
        (run (withFallocate splitPath) byteRun (World.start (PosixFs.empty 3)))).2.fs 3 := by
  refine ⟨by decide +kernel, by decide +kernel, by decide +kernel⟩

end PMTester
