import Mathlib.Order.Interval.Set.Basic
import PMTester.RedoLog

/-!
# Where `CmWrite` says the data went

The location of a write is asked for before the write, with `lseek`, and kept in
an unsigned field. On a descriptor with a position and without `O_APPEND` that
is where the data lands. With `O_APPEND` the data lands at the end of the file,
and where there is no position the failure of `lseek` passes unnoticed.
-/
namespace PMTester

open Word RecordCmFsOps PosixFs

variable {σ : Type}

/-- What the kernel holds for a descriptor that has a position: the flag it was opened with, the
offset, and the bytes of its file. -/
structure Seekable where
  append : Bool
  pos : Nat
  data : List UInt8
  deriving DecidableEq, Repr

/-- Where the next write to the descriptor begins. -/
def Seekable.start (k : Seekable) : Nat := if k.append then k.data.length else k.pos

/-- `stat`, `lseek` and `write` on descriptors with a position, and on pipes, terminals and closed
descriptors, which `seekable` has no value for. -/
structure WriteKernel (fns : FsFns σ) (seekable : σ → Int → Option Seekable) : Prop where
  stat : ∀ p s, seekable (fns.fnStat p s).2 = seekable s
  lseek_state : ∀ fd s, seekable (fns.fnLseek fd 0 seekCur s).2 = seekable s
  lseek : ∀ fd s k, seekable s fd = some k →
    (fns.fnLseek fd 0 seekCur s).1 = k.pos ∧ k.pos ≤ maxOffset
  lseek_failed : ∀ fd s, seekable s fd = none → (fns.fnLseek fd 0 seekCur s).1 = -1
  write_failed : ∀ fd buf s, (fns.fnWrite fd buf s).1 < 0 →
    (fns.fnWrite fd buf s).1 = -1 ∧ seekable (fns.fnWrite fd buf s).2 = seekable s
  write_count : ∀ fd buf s (n : Nat), (fns.fnWrite fd buf s).1 = n →
    n ≤ buf.length ∧ n ≤ maxRwCount
  write : ∀ fd buf s k (n : Nat), seekable s fd = some k → (fns.fnWrite fd buf s).1 = n → 0 < n →
    k.start + n ≤ maxOffset ∧ ∃ k', seekable (fns.fnWrite fd buf s).2 fd = some k' ∧
      k'.data = storeAt k.data k.start (buf.take n)

/-- The offsets of the file that a write of `n` bytes stores to; no file has them otherwise. -/
def landing (k : Option Seekable) (n : Nat) : Set Nat :=
  match k with
  | none => ∅
  | some k => Set.Ico k.start (k.start + n)

/-- The offsets a mod names. -/
def DiskMod.range (mod : DiskMod) : Set Nat :=
  Set.Ico mod.fileModLocation.toNat (mod.fileModLocation.toNat + mod.fileModLen.toNat)

section

variable (h : Host σ) (seekable : σ → Int → Option Seekable) (w : World σ) (fd : Int)
  (buf : List UInt8)

/-- The state in which `CmWrite` makes its write, after the stat and the seek. -/
def seekState (p : Path) : σ := (h.fnLseek fd 0 seekCur (h.fnStat p w.fs).2).2

/-- A recorded data mod names exactly the range stored to, and a write whose position is not known
is neither made nor recorded. -/
structure RecordsLanding : Prop where
  landed : ∀ mod (n : Nat), (cmWrite h fd buf w).1 = .ret n →
    (cmWrite h fd buf w).2.mods = w.mods ++ [mod] → mod.directoryMod = false →
      mod.fileModLocation.toNat + mod.fileModLen.toNat < 2 ^ 64 ∧
        mod.range = landing (seekable w.fs fd) n
  unknown : ∀ p, w.fdMap fd = some p → ¬ (h.fnStat p w.fs).1.1 < 0 →
    (h.fnLseek fd 0 seekCur (h.fnStat p w.fs).2).1 < 0 →
      (cmWrite h fd buf w).1 = .ret (h.fnLseek fd 0 seekCur (h.fnStat p w.fs).2).1 ∧
        (cmWrite h fd buf w).2.mods = w.mods ∧
        seekable (cmWrite h fd buf w).2.fs = seekable w.fs

/-- Whenever the write is made and takes bytes, the descriptor has a position, and with `O_APPEND`
that is the end of the file, unless no data mod follows. -/
def LandingKnown : Prop :=
  ∀ p (n : Nat), w.fdMap fd = some p → ¬ (h.fnStat p w.fs).1.1 < 0 →
    (h.fnWrite fd buf (seekState h w fd p)).1 = n →
      ∃ k, seekable w.fs fd = some k ∧
        (n = 0 ∨ (k.append = true → k.pos = k.data.length) ∨ (h.fnStat p w.fs).1.2.isDir = true ∨
          (h.fnStat p (h.fnWrite fd buf (seekState h w fd p)).2).1.1 < 0)

end

section

variable {h : Host σ} {seekable : σ → Int → Option Seekable} {w : World σ} {fd : Int}
  {buf : List UInt8} {p : Path}

theorem WriteKernel.seekState (hk : WriteKernel h.toFsFns seekable) :
    seekable (seekState h w fd p) = seekable w.fs :=
  (hk.lseek_state fd _).trans (hk.stat p w.fs)

/-- A write that fails ends the call with its error, and records nothing. -/
theorem cmWrite_failed (hk : WriteKernel h.toFsFns seekable) (hp : w.fdMap fd = some p)
    (hstat : ¬ (h.fnStat p w.fs).1.1 < 0)
    (hwrite : (h.fnWrite fd buf (seekState h w fd p)).1 < 0) :
    cmWrite h fd buf w = (.ret (-1), { w with fs := (h.fnWrite fd buf (seekState h w fd p)).2 }) := by
  have hres := (hk.write_failed fd buf (seekState h w fd p) hwrite).1
  have hlocation : ∀ x : UInt64, ¬ x < 0 := fun x => UInt64.not_lt_zero
  have hint : toInt (-1) = -1 := by decide
  unfold PMTester.seekState at hres hwrite ⊢
  simp only [cmWrite, hp, if_neg hstat, if_neg (hlocation _), hres, hint]
  rw [if_pos (by decide)]

/-- The mod of a write whose path names a directory by now. -/
def directoryWriteMod (h : Host σ) (w : World σ) (fd : Int) (p : Path) : DiskMod :=
  { fileModLocation := intToUlong (h.fnLseek fd 0 seekCur (h.fnStat p w.fs).2).1,
    modOpts := .kNoneOpt, directoryMod := true }

/-- The mod of a write of `n` bytes to a file. -/
def writtenMod (h : Host σ) (w : World σ) (fd : Int) (buf : List UInt8) (p : Path) (n : Nat) :
    DiskMod :=
  let pre := (h.fnStat p w.fs).1.2
  let post := (h.fnStat p (h.fnWrite fd buf (PMTester.seekState h w fd p)).2).1.2
  { fileModLocation := intToUlong (h.fnLseek fd 0 seekCur (h.fnStat p w.fs).2).1,
    fileModLen := intToUlong n, path := p, postModStats := post,
    modType := if pre.stSize ≠ post.stSize then .kDataMetadataMod else .kDataMod,
    modOpts := .kNoneOpt, fileModData := buf.take n }

/-- A write of `n` bytes is reported, and recorded when the path can still be examined. -/
theorem cmWrite_stored (hk : WriteKernel h.toFsFns seekable) (hp : w.fdMap fd = some p)
    (hstat : ¬ (h.fnStat p w.fs).1.1 < 0) {n : Nat}
    (hwrite : (h.fnWrite fd buf (seekState h w fd p)).1 = n) :
    (cmWrite h fd buf w).1 = .ret n ∧
      (cmWrite h fd buf w).2.mods =
        if (h.fnStat p w.fs).1.2.isDir then w.mods ++ [directoryWriteMod h w fd p]
        else if (h.fnStat p (h.fnWrite fd buf (seekState h w fd p)).2).1.1 < 0 then w.mods
        else w.mods ++ [writtenMod h w fd buf p n] := by
  obtain ⟨hlen, hmax⟩ := hk.write_count fd buf _ n hwrite
  have hlocation : ∀ x : UInt64, ¬ x < 0 := fun x => UInt64.not_lt_zero
  have hneg : ¬ (n : Int) < 0 := by omega
  have hshort : ¬ buf.length < (n : Int).toNat := by omega
  unfold writtenMod
  unfold PMTester.seekState at hwrite ⊢
  simp only [cmWrite, hp, if_neg hstat, if_neg (hlocation _), hwrite, toInt_count hmax]
  rw [if_neg hneg]
  split
  · exact ⟨rfl, rfl⟩
  · simp only [recordWrite, if_neg hshort]
    split
    · exact ⟨rfl, rfl⟩
    · exact ⟨rfl, rfl⟩

theorem WriteKernel.location (hk : WriteKernel h.toFsFns seekable) {k : Seekable}
    (hfd : seekable w.fs fd = some k) (p : Path) :
    (intToUlong (h.fnLseek fd 0 seekCur (h.fnStat p w.fs).2).1).toNat = k.pos ∧
      k.pos ≤ maxOffset := by
  obtain ⟨hpos, hbound⟩ := hk.lseek fd (h.fnStat p w.fs).2 k (by rw [hk.stat, hfd])
  have hmax : maxOffset < 2 ^ 64 := by decide
  rw [hpos, intToUlong_natCast k.pos (by omega)]
  exact ⟨rfl, hbound⟩

/-- The range of a recorded write begins at the position before it. -/
theorem writtenMod_range (hk : WriteKernel h.toFsFns seekable) (p : Path) (buf : List UInt8)
    {k : Seekable}
    (hfd : seekable w.fs fd = some k) {n : Nat} (hn : n ≤ maxRwCount) :
    (writtenMod h w fd buf p n).fileModLocation.toNat +
        (writtenMod h w fd buf p n).fileModLen.toNat < 2 ^ 64 ∧
      (writtenMod h w fd buf p n).range = Set.Ico k.pos (k.pos + n) := by
  obtain ⟨hpos, hbound⟩ := hk.location hfd p
  have hmax : maxOffset + maxRwCount < 2 ^ 64 := by decide
  have hlen : (intToUlong (n : Int)).toNat = n := intToUlong_natCast n (by omega)
  simp only [DiskMod.range, writtenMod, hpos, hlen, and_true]
  omega

/-- Two ranges of the same positive length are the same only at the same place. -/
theorem Ico_start_injective {a b n : Nat} (hn : 0 < n)
    (hsame : Set.Ico a (a + n) = Set.Ico b (b + n)) : a = b := by
  have ha : a ∈ Set.Ico b (b + n) := hsame ▸ ⟨Nat.le_refl a, by omega⟩
  have hb : b ∈ Set.Ico a (a + n) := hsame ▸ ⟨Nat.le_refl b, by omega⟩
  exact Nat.le_antisymm hb.1 ha.1

/-- The location is right where the descriptor has a position that the kernel will use. -/
theorem LandingKnown.records (hk : WriteKernel h.toFsFns seekable)
    (hknown : LandingKnown h seekable w fd buf) : RecordsLanding h seekable w fd buf := by
  constructor
  · intro mod n hres hmods hdir
    cases hp : w.fdMap fd with
    | none => simp [cmWrite, hp] at hres
    | some p =>
      by_cases hstat : (h.fnStat p w.fs).1.1 < 0
      · simp [cmWrite, hp, hstat] at hmods
      by_cases hwrite : (h.fnWrite fd buf (PMTester.seekState h w fd p)).1 < 0
      · simp [cmWrite_failed hk hp hstat hwrite] at hmods
      obtain ⟨m, hm⟩ := Int.eq_ofNat_of_zero_le (Int.not_lt.mp hwrite)
      obtain ⟨hret, hpushed⟩ := cmWrite_stored hk hp hstat hm
      have hnm : m = n := by simpa [hret] using hres
      subst hnm
      obtain ⟨k, hfd, hwhere⟩ := hknown p m hp hstat hm
      rw [hpushed] at hmods
      split at hmods
      · rw [← List.singleton_inj.mp (List.append_cancel_left hmods)] at hdir
        cases hdir
      rename_i hnotdir
      split at hmods
      · simp at hmods
      rename_i hpost
      rw [← List.singleton_inj.mp (List.append_cancel_left hmods)]
      obtain ⟨hbound, hrange⟩ :=
        writtenMod_range hk p buf hfd (hk.write_count fd buf _ m hm).2
      refine ⟨hbound, ?_⟩
      rw [hrange, hfd, landing]
      rcases hwhere with hzero | happend | hdirectory | hgone
      · simp [hzero]
      · have hstart : k.start = k.pos := by
          unfold Seekable.start
          split
          · rename_i hflag
            exact (happend hflag).symm
          · rfl
        rw [hstart]
      · exact absurd hdirectory hnotdir
      · exact absurd hgone hpost
  · intro p hp hstat hseek
    have hres : (h.fnLseek fd 0 seekCur (h.fnStat p w.fs).2).1 = -1 := by
      cases hfd : seekable w.fs fd with
      | none => exact hk.lseek_failed fd _ (by rw [hk.stat, hfd])
      | some k =>
        have hpos := (hk.lseek fd (h.fnStat p w.fs).2 k (by rw [hk.stat, hfd])).1
        omega
    by_cases hwrite : (h.fnWrite fd buf (PMTester.seekState h w fd p)).1 < 0
    · rw [cmWrite_failed hk hp hstat hwrite, hres]
      refine ⟨rfl, rfl, ?_⟩
      rw [(hk.write_failed fd buf _ hwrite).2, hk.seekState]
    · obtain ⟨m, hm⟩ := Int.eq_ofNat_of_zero_le (Int.not_lt.mp hwrite)
      obtain ⟨k, hfd, -⟩ := hknown p m hp hstat hm
      have hpos := (hk.lseek fd (h.fnStat p w.fs).2 k (by rw [hk.stat, hfd])).1
      omega

/-- Without that, some bytes land where no mod, or another mod, says. -/
theorem RecordsLanding.known (hk : WriteKernel h.toFsFns seekable)
    (hrecords : RecordsLanding h seekable w fd buf) : LandingKnown h seekable w fd buf := by
  intro p n hp hstat hwrite
  obtain ⟨hret, hpushed⟩ := cmWrite_stored hk hp hstat hwrite
  cases hfd : seekable w.fs fd with
  | none =>
    have hseek := hk.lseek_failed fd (h.fnStat p w.fs).2 (by rw [hk.stat, hfd])
    have hsilent := (hrecords.unknown p hp hstat (by omega)).1
    rw [hret, hseek] at hsilent
    injection hsilent with hsilent
    omega
  | some k =>
    refine ⟨k, rfl, ?_⟩
    by_contra hnot
    push Not at hnot
    obtain ⟨hpositive, ⟨happend, hpos⟩, hdir, hpost⟩ := hnot
    rw [if_neg (by simp [hdir]), if_neg (by omega)] at hpushed
    have hlanded := (hrecords.landed _ n hret hpushed rfl).2
    rw [(writtenMod_range hk _ _ hfd (hk.write_count fd buf _ n hwrite).2).2, hfd, landing] at hlanded
    have hstart : k.start = k.data.length := by simp [Seekable.start, happend]
    rw [hstart] at hlanded
    exact hpos (Ico_start_injective (by omega) hlanded)

/-- `CmWrite` records where the data landed, and stops when it cannot know, exactly when every
write that takes bytes is to a descriptor whose position is where the kernel writes. -/
theorem write_location_iff (h : Host σ) (seekable : σ → Int → Option Seekable)
    (hk : WriteKernel h.toFsFns seekable) (w : World σ) (fd : Int) (buf : List UInt8) :
    RecordsLanding h seekable w fd buf ↔ LandingKnown h seekable w fd buf :=
  ⟨fun hrecords => hrecords.known hk, fun hknown => hknown.records hk⟩

end

/-- A write as `doWrite` has it, except that a special file takes bytes without storing them. -/
def doStreamWrite (fd : Int) (buf : List UInt8) (c : Choice) (s : PosixFs) :
    Option (Int × PosixFs) :=
  match s.fds fd with
  | none => none
  | some f =>
    if f.writable && (s.inodes f.ino).kind == .special then
      some ((min (min buf.length c.count) maxRwCount : Nat), s)
    else doWrite fd buf c s

/-- The reference file system with special files that can be written to. -/
def withStreams (resolve : Path → Name) : Host PosixFs :=
  { posix resolve with fnWrite := fun fd buf s => s.attempt (doStreamWrite fd buf) }

/-- The descriptors of the reference file system that have a position. -/
def seekableOf (s : PosixFs) (fd : Int) : Option Seekable :=
  match s.fds fd with
  | none => none
  | some f =>
    if (s.inodes f.ino).kind = .special ∨ maxOffset < f.pos then none
    else some ⟨f.append, f.pos, (s.inodes f.ino).data⟩

theorem seekableOf_eq_some {s : PosixFs} {fd : Int} {k : Seekable}
    (h : seekableOf s fd = some k) :
    ∃ f, s.fds fd = some f ∧ (s.inodes f.ino).kind ≠ .special ∧ f.pos ≤ maxOffset ∧
      k = ⟨f.append, f.pos, (s.inodes f.ino).data⟩ := by
  unfold seekableOf at h
  cases hf : s.fds fd with
  | none => simp [hf] at h
  | some f =>
    simp only [hf] at h
    split at h
    · cases h
    · rename_i hpos
      push Not at hpos
      exact ⟨f, rfl, hpos.1, hpos.2, (Option.some.inj h).symm⟩

/-- Without a position there is nothing to ask for. -/
theorem doLseek_cur_none {s : PosixFs} {fd : Int} (h : seekableOf s fd = none) :
    (doLseek fd 0 seekCur s).1 = -1 := by
  cases hf : s.fds fd with
  | none => simp [doLseek, hf]
  | some f =>
    have hcur : ¬ seekCur = seekSet := by decide
    by_cases hkind : (s.inodes f.ino).kind = .special
    · simp [doLseek, hf, hcur, hkind]
    · have hpos : maxOffset < f.pos := by simpa [seekableOf, hf, hkind] using h
      simp [doLseek, hf, hcur, hpos]

/-- A write that is made either goes to a stream or stores to a file. -/
theorem doStreamWrite_cases {fd : Int} {buf : List UInt8} {c : Choice} {s s' : PosixFs} {r : Int}
    (h : doStreamWrite fd buf c s = some (r, s')) :
    (∃ n : Nat, r = n ∧ n ≤ buf.length ∧ n ≤ maxRwCount ∧ seekableOf s fd = none) ∨
      doWrite fd buf c s = some (r, s') := by
  unfold doStreamWrite at h
  cases hf : s.fds fd with
  | none => simp [hf] at h
  | some f =>
    simp only [hf] at h
    split at h
    · rename_i hstream
      have hkind : (s.inodes f.ino).kind = .special := by simp_all
      cases h
      exact Or.inl ⟨_, rfl, by omega, by omega, by simp [seekableOf, hf, hkind]⟩
    · exact Or.inr h

/-- What a write to a file stores, and where. -/
theorem doWrite_stores {fd : Int} {buf : List UInt8} {c : Choice} {s s' : PosixFs} {r : Int}
    (h : doWrite fd buf c s = some (r, s')) :
    ∃ n : Nat, r = n ∧ n ≤ buf.length ∧ n ≤ maxRwCount ∧
      ∀ k, seekableOf s fd = some k → 0 < n →
        k.start + n ≤ maxOffset ∧ ∃ k', seekableOf s' fd = some k' ∧
          k'.data = storeAt k.data k.start (buf.take n) := by
  obtain ⟨f, n, pos, s₁, hf, hpos, hstore, rfl, rfl⟩ := doWrite_cases h
  obtain ⟨hkind, hlen, hmax, hbound, hend, rfl⟩ := storeOpen_cases hstore
  refine ⟨n, rfl, hlen, hmax, fun k hk hn => ?_⟩
  obtain ⟨f', hf', -, -, rfl⟩ := seekableOf_eq_some hk
  have hsame : f' = f := Option.some.inj (hf'.symm.trans hf)
  subst hsame
  have hstart : Seekable.start ⟨f'.append, f'.pos, (s.inodes f'.ino).data⟩ = pos := hpos.symm
  have hne : buf.take n ≠ [] := by
    intro hnil
    have hzero : (buf.take n).length = 0 := by rw [hnil, List.length_nil]
    rw [List.length_take] at hzero
    omega
  have hstop : pos + n ≤ maxOffset := hbound (Nat.le_of_lt (hend hne))
  rw [hstart]
  refine ⟨hstop, ⟨f'.append, pos + n, storeAt (s.inodes f'.ino).data pos (buf.take n)⟩, ?_, rfl⟩
  have hnotspecial : ¬ maxOffset < pos + n := by omega
  simp [seekableOf, setFd, setData, hkind, hnotspecial]

theorem withStreams_writeKernel (resolve : Path → Name) :
    WriteKernel (withStreams resolve).toFsFns seekableOf where
  stat p s := by
    simp only [withStreams, posix]
    split <;> rfl
  lseek_state fd s := by
    rw [show (withStreams resolve).fnLseek fd 0 seekCur s = doLseek fd 0 seekCur s from rfl,
      doLseek_cur_state]
  lseek fd s k hk := by
    obtain ⟨f, hf, hkind, hpos, rfl⟩ := seekableOf_eq_some hk
    rw [show (withStreams resolve).fnLseek fd 0 seekCur s = doLseek fd 0 seekCur s from rfl,
      doLseek_cur s fd f hf hpos, if_neg hkind]
    exact ⟨rfl, hpos⟩
  lseek_failed fd s hnone := doLseek_cur_none hnone
  write_failed fd buf s hneg := by
    rcases attempt_cases s (doStreamWrite fd buf) with hatt | ⟨c, r, s', hact, hatt⟩
    · exact ⟨congrArg Prod.fst hatt, congrArg (fun p => seekableOf p.2) hatt⟩
    · have hr : ¬ r < 0 := by
        cases doStreamWrite_cases hact with
        | inl hstream =>
          obtain ⟨n, rfl, -⟩ := hstream
          omega
        | inr hfile =>
          obtain ⟨n, rfl, -⟩ := doWrite_stores hfile
          omega
      have hneg : (s.attempt (doStreamWrite fd buf)).1 < 0 := hneg
      rw [hatt] at hneg
      exact absurd hneg hr
  write_count fd buf s n hn := by
    rcases attempt_cases s (doStreamWrite fd buf) with hatt | ⟨c, r, s', hact, hatt⟩
    · have hres : (-1 : Int) = n := (congrArg Prod.fst hatt).symm.trans hn
      omega
    · have hres : r = n := (congrArg Prod.fst hatt).symm.trans hn
      cases doStreamWrite_cases hact with
      | inl hstream =>
        obtain ⟨m, hm, hlen, hmax, -⟩ := hstream
        omega
      | inr hfile =>
        obtain ⟨m, hm, hlen, hmax, -⟩ := doWrite_stores hfile
        omega
  write fd buf s k n hk hn hpositive := by
    rcases attempt_cases s (doStreamWrite fd buf) with hatt | ⟨c, r, s', hact, hatt⟩
    · have hres : (-1 : Int) = n := (congrArg Prod.fst hatt).symm.trans hn
      omega
    · have hres : r = n := (congrArg Prod.fst hatt).symm.trans hn
      cases doStreamWrite_cases hact with
      | inl hstream =>
        obtain ⟨m, -, -, -, hnone⟩ := hstream
        exact absurd (hk.symm.trans hnone) (by simp)
      | inr hfile =>
        obtain ⟨m, hm, -, -, hstored⟩ := doWrite_stores hfile
        have hmn : m = n := by omega
        subst hmn
        rw [show (withStreams resolve).fnWrite fd buf s = _ from hatt]
        exact hstored k hk hpositive

/-- A file of two bytes, open once plainly and once with `O_APPEND`. -/
def appendRun : List CmOp :=
  [.open2 (path ['/', 'f']) (oCreat ||| oRdwr) 0o644#32, .write 3 [1, 2],
    .open (path ['/', 'f']) (oWronly ||| oAppend)]

/-- A terminal, opened for writing. -/
def terminalRun : List CmOp :=
  [.mknod (path ['/', 't']) 0o020600#32 0, .open (path ['/', 't']) oWronly]

theorem write_location_plain :
    RecordsLanding (withStreams splitPath) seekableOf
      (run (withStreams splitPath) appendRun (World.start (PosixFs.empty 3))) 3 [9] :=
  (write_location_iff (withStreams splitPath) seekableOf (withStreams_writeKernel splitPath)
    (run (withStreams splitPath) appendRun (World.start (PosixFs.empty 3))) 3 [9]).mpr
    fun _ _ _ _ _ => ⟨⟨false, 2, [1, 2]⟩, by decide +kernel, Or.inr (Or.inl (by simp))⟩

/-- A write through the `O_APPEND` descriptor is recorded at offset 0 though it lands at 2, and a
write to the terminal is recorded at offset 2 ^ 64 - 1. -/
theorem write_location_wrong :
    ¬ RecordsLanding (withStreams splitPath) seekableOf
        (run (withStreams splitPath) appendRun (World.start (PosixFs.empty 3))) 5 [9] ∧
      ¬ RecordsLanding (withStreams splitPath) seekableOf
        (run (withStreams splitPath) terminalRun (World.start (PosixFs.empty 3))) 4 [9] := by
  constructor
  · intro h
    obtain ⟨k, hk, hwhere⟩ := h.known (withStreams_writeKernel splitPath) (path ['/', 'f']) 1
      (by decide +kernel) (by decide +kernel) (by decide +kernel)
    have hfd : seekableOf (run (withStreams splitPath) appendRun (World.start (PosixFs.empty 3))).fs
        5 = some ⟨true, 0, [1, 2]⟩ := by decide +kernel
    have hkeq := Option.some.inj (hk.symm.trans hfd)
    subst hkeq
    exact absurd hwhere (by decide +kernel)
  · intro h
    obtain ⟨k, hk, -⟩ := h.known (withStreams_writeKernel splitPath) (path ['/', 't']) 1
      (by decide +kernel) (by decide +kernel) (by decide +kernel)
    have hfd : seekableOf
        (run (withStreams splitPath) terminalRun (World.start (PosixFs.empty 3))).fs 4 = none := by
      decide +kernel
    exact absurd (hk.symm.trans hfd) (by simp)

end PMTester
