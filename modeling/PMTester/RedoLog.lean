import PMTester.Lib.Run
import PMTester.Posix

/-!
# The mods as a redo log

Over the reference file system without hard links, and with no renames, removals
or appending descriptors, the mods of a run say what happened to every file:
`replayMod` applied in order to the initial files gives the final ones. The
invariant is that the path recorded for a descriptor names the file it is open on.
A `CmClose` that fails after the descriptor was released breaks it: the entry stays,
and the next file that is given the number is recorded under the old path.
-/
namespace PMTester

open Run Word PosixFs RecordCmFsOps

namespace PosixFs

/-- The contents of the regular files, by name. -/
def files (s : PosixFs) (name : Name) : Option (List UInt8) :=
  match s.ino? name with
  | none => none
  | some i => if (s.inodes i).kind = .regular then some (s.inodes i).data else none

/-- The sizes of the regular files, by name. -/
def sizes (s : PosixFs) (name : Name) : Option Nat := (s.files name).map List.length

/-- No two names of one file, and fresh inode numbers are really fresh. -/
structure WellFormed (s : PosixFs) : Prop where
  single : ∀ name name' i, s.ino? name = some i → s.ino? name' = some i → name = name'
  known : ∀ name i, s.ino? name = some i → i < s.fresh

theorem files_setData (s : PosixFs) (hs : s.WellFormed) (name : Name) (i : Nat)
    (hi : s.ino? name = some i) (hreg : (s.inodes i).kind = .regular) (data : List UInt8) :
    (s.setData i data).files = Function.update s.files name (some data) := by
  funext other
  by_cases hname : other = name
  · subst hname
    simp [files, hi, hreg]
  · rw [Function.update_of_ne hname]
    simp only [files, ino?_setData]
    cases hj : s.ino? other with
    | none => rfl
    | some j =>
      have hji : j ≠ i := fun heq => hname (hs.single other name i (heq ▸ hj) hi)
      simp [hji]

theorem files_create (s : PosixFs) (hs : s.WellFormed) (name : Name) :
    (s.create name .regular).files = Function.update s.files name (some []) := by
  funext other
  by_cases hname : other = name
  · subst hname
    simp [files, ino?_create]
  · rw [Function.update_of_ne hname]
    simp only [files, ino?_create, if_neg hname]
    cases hj : s.ino? other with
    | none => rfl
    | some j =>
      have hji : j ≠ s.fresh := by
        have := hs.known other j hj
        omega
      simp [hji]

theorem wellFormed_create (s : PosixFs) (hs : s.WellFormed) (name : Name) :
    (s.create name .regular).WellFormed := by
  constructor
  · intro n n' i hn hn'
    rw [ino?_create] at hn hn'
    split at hn <;> split at hn'
    · simp_all
    · have := hs.known n' i hn'
      have : s.fresh = i := Option.some.inj hn
      omega
    · have := hs.known n i hn
      have : s.fresh = i := Option.some.inj hn'
      omega
    · exact hs.single n n' i hn hn'
  · intro n i hn
    have hfresh : (s.create name .regular).fresh = s.fresh + 1 := rfl
    rw [ino?_create] at hn
    split at hn
    · have : s.fresh = i := Option.some.inj hn
      omega
    · have := hs.known n i hn
      omega

end PosixFs

/-- What a mod says about the files. -/
def replayMod (resolve : Path → Name) (files : Name → Option (List UInt8)) (m : DiskMod) :
    Name → Option (List UInt8) :=
  let name := resolve (cStr m.path)
  match m.modType, m.modOpts with
  | .kCreateMod, _ => Function.update files name (some [])
  | .kDataMetadataMod, .kTruncateOpt =>
    Function.update files name ((files name).map fun _ => [])
  | .kDataMod, .kNoneOpt | .kDataMetadataMod, .kNoneOpt =>
    Function.update files name ((files name).map fun data =>
      storeAt data m.fileModLocation.toNat (m.fileModData.take m.fileModLen.toNat))
  | _, _ => files

theorem replayMod_data (resolve : Path → Name) (files : Name → Option (List UInt8)) (m : DiskMod)
    (ht : m.modType.isData) (ho : m.modOpts = .kNoneOpt) :
    replayMod resolve files m =
      Function.update files (resolve (cStr m.path)) ((files (resolve (cStr m.path))).map fun data =>
        storeAt data m.fileModLocation.toNat (m.fileModData.take m.fileModLen.toNat)) := by
  rcases ht with ht | ht <;> simp [replayMod, ht, ho]

/-- The calls of a run without `O_APPEND`, renames and removals. -/
def Plain : CmOp → Prop
  | .open _ flags | .open2 _ flags _ => Flags.has flags oAppend = false
  | .lseek _ _ _ | .write _ _ | .pwrite _ _ _ | .close _ => True
  | _ => False

/-- A `CmClose` that fails leaves an open descriptor open. -/
def CloseKeeps (w : World PosixFs) : CmOp → Prop
  | .close fd => (doClose fd w.fs).1 < 0 → (w.fs.fds fd).isSome = true →
    ((doClose fd w.fs).2.fds fd).isSome = true
  | _ => True

/-- No `CmClose` of the run fails and releases an open descriptor. -/
def CloseKeepsRun (resolve : Path → Name) : List CmOp → World PosixFs → Prop :=
  Allowed (fun w op => (call (posix resolve) op w).2) CloseKeeps

theorem CloseKeeps.cases {w : World PosixFs} {fd : Int} (h : CloseKeeps w (.close fd)) :
    doClose fd w.fs = (-1, w.fs.called) ∨ doClose fd w.fs = (0, w.fs.called.setFd fd none) := by
  obtain hfail | ⟨hopen, r, rfl | rfl, hclose⟩ := doClose_cases fd w.fs
  · exact Or.inl hfail
  · exact Or.inr hclose
  · have hkept := h (by simp [hclose]) hopen
    simp [hclose, setFd] at hkept

/-- What an open can do to recorder and file system. -/
inductive Opened (resolve : Path → Name) (p : Path) (flags : Flags) (w : World PosixFs) :
    World PosixFs → Prop where
  | failed : Opened resolve p flags w { w with fs := w.fs.called }
  | created (fd : Int) (m : DiskMod) (hfd : w.fs.fds fd = none)
      (hino : w.fs.ino? (resolve (cStr p)) = none)
      (hcan : w.fs.canCreate (resolve (cStr p)) = true)
      (ht : m.modType = .kCreateMod) (hp : m.path = p) :
      Opened resolve p flags w
        ⟨(w.fs.called.create (resolve (cStr p)) .regular).setFd fd
          (some (openFile flags w.fs.fresh)), insertFd w.fdMap fd p, w.mmapMap, w.mods ++ [m]⟩
  | opened (fd : Int) (i : Nat) (hfd : w.fs.fds fd = none)
      (hino : w.fs.ino? (resolve (cStr p)) = some i) :
      Opened resolve p flags w
        ⟨w.fs.called.setFd fd (some (openFile flags i)), insertFd w.fdMap fd p, w.mmapMap, w.mods⟩
  | emptied (fd : Int) (i : Nat) (m : DiskMod) (hfd : w.fs.fds fd = none)
      (hino : w.fs.ino? (resolve (cStr p)) = some i) (ht : m.modType = .kDataMetadataMod)
      (ho : m.modOpts = .kTruncateOpt) (hp : m.path = p) :
      Opened resolve p flags w
        ⟨(if (w.fs.inodes i).kind = .regular then w.fs.called.setData i [] else w.fs.called).setFd fd
          (some (openFile flags i)), insertFd w.fdMap fd p, w.mmapMap, w.mods ++ [m]⟩

section

variable {resolve : Path → Name}

theorem openWith_opened (fnOpen : Path → PosixFs → Int × PosixFs) (p : Path) (flags : Flags)
    (w : World PosixFs)
    (hfn : ∀ s, fnOpen (cStr p) s = s.attempt (doOpen (resolve (cStr p)) flags)) :
    Opened resolve p flags w (openWith (posix resolve) fnOpen p flags w).2 := by
  have hexists : (posix resolve).fnPathExists (cStr p) w.fs =
      ((w.fs.ino? (resolve (cStr p))).isSome, w.fs) := by
    simp [posix, cStr_cStr]
  have hstat : ∀ s : PosixFs, ∀ i, s.ino? (resolve (cStr p)) = some i →
      (posix resolve).fnStat (cStr p) s = ((0, s.statOf i), s) := by
    intro s i hi
    simp [posix, cStr_cStr, hi]
  simp only [openWith, hexists, hfn]
  rcases attempt_cases w.fs (doOpen (resolve (cStr p)) flags) with hatt | ⟨c, r, s', hopen, hatt⟩
  · rw [hatt]
    exact Opened.failed
  obtain ⟨rfl, hpos, hfd, hcase⟩ := doOpen_cases hopen
  have hres : ¬ c.fd < 0 := by omega
  rw [hatt]
  simp only [hres, ↓reduceIte]
  rcases hcase with ⟨hino, hcan, rfl⟩ | ⟨i, hino, -, rfl⟩
  · have hnone : w.fs.ino? (resolve (cStr p)) = none := hino
    have hpost := hstat ((w.fs.called.create (resolve (cStr p)) .regular).setFd c.fd
      (some (openFile flags w.fs.called.fresh))) w.fs.fresh (by simp [ino?_create])
    simp only [cmOpenCommon, hnone, Option.isSome_none, Bool.not_false, Bool.true_or, ↓reduceIte,
      hpost]
    exact Opened.created c.fd _ hfd hnone hcan rfl rfl
  · have hsome : w.fs.ino? (resolve (cStr p)) = some i := hino
    cases ht : flags.has oTrunc with
    | false =>
      simp only [cmOpenCommon, hsome, Option.isSome_some, ht, Bool.not_true, Bool.or_self,
        Bool.false_eq_true, and_false, ↓reduceIte]
      exact Opened.opened c.fd i hfd hsome
    | true =>
      have hpost := hstat ((if (w.fs.called.inodes i).kind = .regular then
        w.fs.called.setData i [] else w.fs.called).setFd c.fd (some (openFile flags i))) i
        (by split <;> exact hsome)
      simp only [cmOpenCommon, hsome, Option.isSome_some, ht, Bool.not_true, Bool.or_true,
        Bool.false_eq_true, and_true, ↓reduceIte, hpost]
      exact Opened.emptied c.fd i _ hfd hsome rfl rfl rfl

/-- The path recorded for a descriptor names the file it is open on, and the
descriptor is no appending one. -/
structure Tracked (resolve : Path → Name) (w : World PosixFs) : Prop where
  fs : w.fs.WellFormed
  fd : ∀ fd p, w.fdMap fd = some p → ∃ f, w.fs.fds fd = some f ∧
    w.fs.ino? (resolve (cStr p)) = some f.ino ∧ f.append = false ∧ f.pos ≤ maxOffset

/-- What a write can do: it is refused, or stores a prefix of the buffer and records it. -/
inductive Wrote (resolve : Path → Name) (buf : List UInt8) (w : World PosixFs) :
    World PosixFs → Prop where
  | refused (fs : PosixFs) (hfs : fs = w.fs ∨ fs = w.fs.called) : Wrote resolve buf w { w with fs := fs }
  | stored (fd : Int) (p : Path) (f : OpenFile) (n pos next : Nat) (location : UInt64)
      (hp : w.fdMap fd = some p) (hf : w.fs.fds fd = some f)
      (hino : w.fs.ino? (resolve (cStr p)) = some f.ino)
      (hreg : (w.fs.inodes f.ino).kind = .regular) (hn : n ≤ buf.length) (hmax : n ≤ maxRwCount)
      (hnext : next ≤ maxOffset) (hlocation : buf.take n ≠ [] → location.toNat = pos)
      (fs : PosixFs)
      (hfs : fs = (w.fs.called.setData f.ino
        (storeAt (w.fs.inodes f.ino).data pos (buf.take n))).setFd fd
          (some { f with pos := next })) :
      Wrote resolve buf w ⟨fs, w.fdMap, w.mmapMap, w.mods ++ [{
        fileModLocation := location, fileModLen := intToUlong n, path := p,
        postModStats := fs.statOf f.ino,
        modType := if (w.fs.statOf f.ino).stSize ≠ (fs.statOf f.ino).stSize
          then .kDataMetadataMod else .kDataMod,
        modOpts := .kNoneOpt, fileModData := buf.take n }]⟩

theorem fnStat_posix (p : Path) (s : PosixFs) (i : Nat) (hi : s.ino? (resolve (cStr p)) = some i) :
    (posix resolve).fnStat p s = ((0, s.statOf i), s) := by
  simp [posix, hi]

theorem isDir_of_regular (s : PosixFs) (i : Nat) (h : (s.inodes i).kind = .regular) :
    (s.statOf i).isDir = false := by
  simp [statOf, Stat.isDir, modeOf, h, sIfmt, sIfdir, sIfreg]

/-- The second half of a write that stored `n` bytes. -/
theorem recordWrite_posix (p : Path) (pre : Stat) (location : UInt64) (buf : List UInt8) (n : Nat)
    (w : World PosixFs) (i : Nat) (hi : w.fs.ino? (resolve (cStr p)) = some i)
    (hn : n ≤ buf.length) :
    (recordWrite (posix resolve) p pre location buf n w).2 = w.push {
      fileModLocation := location, fileModLen := intToUlong n, path := p,
      postModStats := w.fs.statOf i,
      modType := if pre.stSize ≠ (w.fs.statOf i).stSize then .kDataMetadataMod else .kDataMod,
      modOpts := .kNoneOpt, fileModData := buf.take n } := by
  have hstat := fnStat_posix p w.fs i hi
  have hle : ¬ buf.length < n := by omega
  simp only [recordWrite, hstat, Int.toNat_natCast, hle, ↓reduceIte]
  rfl

section Writes

variable {w : World PosixFs} {fd : Int} {buf : List UInt8} {offset : Int} {p : Path} {i : Nat}
  (hp : w.fdMap fd = some p) (hi : w.fs.ino? (resolve (cStr p)) = some i)
include hp hi

theorem cmWrite_posix_failed
    (hwrite : (posix resolve).fnWrite fd buf w.fs = (-1, w.fs.called)) :
    (cmWrite (posix resolve) fd buf w).2 = { w with fs := w.fs.called } := by
  have hstat := fnStat_posix p w.fs i hi
  have hseek : ((posix resolve).fnLseek fd 0 seekCur w.fs).2 = w.fs := doLseek_cur_state w.fs fd
  have hlocation : ∀ location : UInt64, ¬ location < 0 := fun location => UInt64.not_lt_zero
  have hneg : toInt (-1) < 0 := by decide
  simp only [cmWrite, hp, hstat, hseek, hlocation, hwrite, hneg, Int.lt_irrefl, ↓reduceIte]

theorem cmWrite_posix_stored (hreg : (w.fs.inodes i).kind = .regular) {n : Nat}
    (hn : n ≤ maxRwCount) {s' : PosixFs}
    (hwrite : (posix resolve).fnWrite fd buf w.fs = ((n : Int), s')) :
    cmWrite (posix resolve) fd buf w = recordWrite (posix resolve) p (w.fs.statOf i)
      (intToUlong (doLseek fd 0 seekCur w.fs).1) buf n { w with fs := s' } := by
  have hstat := fnStat_posix p w.fs i hi
  have hseek : ((posix resolve).fnLseek fd 0 seekCur w.fs).2 = w.fs := doLseek_cur_state w.fs fd
  have hlocation : ∀ location : UInt64, ¬ location < 0 := fun location => UInt64.not_lt_zero
  have hneg : ¬ (n : Int) < 0 := by omega
  simp only [cmWrite, hp, hstat, hseek, hlocation, hwrite, toInt_count hn, hneg,
    isDir_of_regular w.fs i hreg, Int.lt_irrefl, Bool.false_eq_true, ↓reduceIte]
  rfl

theorem cmPwrite_posix_failed
    (hwrite : (posix resolve).fnPwrite fd buf offset w.fs = (-1, w.fs.called)) :
    (cmPwrite (posix resolve) fd buf offset w).2 = { w with fs := w.fs.called } := by
  have hstat := fnStat_posix p w.fs i hi
  have hneg : toInt (-1) < 0 := by decide
  simp only [cmPwrite, hp, hstat, hwrite, hneg, Int.lt_irrefl, ↓reduceIte]

theorem cmPwrite_posix_stored (hreg : (w.fs.inodes i).kind = .regular) {n : Nat}
    (hn : n ≤ maxRwCount) {s' : PosixFs}
    (hwrite : (posix resolve).fnPwrite fd buf offset w.fs = ((n : Int), s')) :
    cmPwrite (posix resolve) fd buf offset w = recordWrite (posix resolve) p (w.fs.statOf i)
      (intToUlong offset) buf n { w with fs := s' } := by
  have hstat := fnStat_posix p w.fs i hi
  have hneg : ¬ (n : Int) < 0 := by omega
  simp only [cmPwrite, hp, hstat, hwrite, toInt_count hn, hneg, isDir_of_regular w.fs i hreg,
    Int.lt_irrefl, Bool.false_eq_true, ↓reduceIte]

end Writes

theorem cmWrite_wrote (w : World PosixFs) (h : Tracked resolve w) (fd : Int) (buf : List UInt8) :
    Wrote resolve buf w (cmWrite (posix resolve) fd buf w).2 := by
  cases hp : w.fdMap fd with
  | none =>
    simp only [cmWrite, hp]
    exact Wrote.refused w.fs (Or.inl rfl)
  | some p =>
    obtain ⟨f, hf, hino, happend, hpos⟩ := h.fd fd p hp
    have hwrite : (posix resolve).fnWrite fd buf w.fs = w.fs.attempt (doWrite fd buf) := rfl
    rcases attempt_cases w.fs (doWrite fd buf) with hatt | ⟨c, r, s', hdo, hatt⟩
    · rw [hatt] at hwrite
      rw [cmWrite_posix_failed hp hino hwrite]
      exact Wrote.refused _ (Or.inr rfl)
    · obtain ⟨f', n, pos, s₁, hf', hpos', hstore, rfl, rfl⟩ := doWrite_cases hdo
      have hff : f' = f := Option.some.inj (hf'.symm.trans hf)
      subst hff
      simp only [happend, Bool.false_eq_true, ↓reduceIte] at hpos'
      subst hpos'
      obtain ⟨hreg, hn, hmax, hend, -, rfl⟩ := storeOpen_cases hstore
      rw [hatt] at hwrite
      have hspecial : ¬ (w.fs.inodes f'.ino).kind = .special := by
        have hreg' : (w.fs.inodes f'.ino).kind = .regular := hreg
        simp [hreg']
      have hmax64 : maxOffset < 2 ^ 64 := by decide
      rw [cmWrite_posix_stored hp hino hreg hmax hwrite, doLseek_cur w.fs fd f' hf hpos,
        if_neg hspecial, recordWrite_posix p _ _ buf n _ f'.ino ?_ hn]
      · exact Wrote.stored fd p f' n f'.pos (f'.pos + n) _ hp hf hino hreg hn hmax (hend hpos)
          (fun _ => intToUlong_natCast _ (by omega)) _ rfl
      · exact hino

theorem cmPwrite_wrote (w : World PosixFs) (h : Tracked resolve w) (fd : Int) (buf : List UInt8)
    (offset : Int) : Wrote resolve buf w (cmPwrite (posix resolve) fd buf offset w).2 := by
  cases hp : w.fdMap fd with
  | none =>
    simp only [cmPwrite, hp]
    exact Wrote.refused w.fs (Or.inl rfl)
  | some p =>
    obtain ⟨f, hf, hino, happend, hpos⟩ := h.fd fd p hp
    have hwrite : (posix resolve).fnPwrite fd buf offset w.fs =
        w.fs.attempt (doPwrite fd buf offset) := rfl
    rcases attempt_cases w.fs (doPwrite fd buf offset) with hatt | ⟨c, r, s', hdo, hatt⟩
    · rw [hatt] at hwrite
      rw [cmPwrite_posix_failed hp hino hwrite]
      exact Wrote.refused _ (Or.inr rfl)
    · obtain ⟨f', n, pos, hf', hoffset, hpos', hstore, rfl⟩ := doPwrite_cases hdo
      have hff : f' = f := Option.some.inj (hf'.symm.trans hf)
      subst hff
      simp only [happend, Bool.false_eq_true, ↓reduceIte] at hpos'
      subst hpos'
      obtain ⟨hreg, hn, hmax, -, hlt, rfl⟩ := storeOpen_cases hstore
      rw [hatt] at hwrite
      have hoff : intToUlong offset = intToUlong (offset.toNat : Int) := by
        rw [Int.toNat_of_nonneg hoffset]
      rw [cmPwrite_posix_stored hp hino hreg hmax hwrite,
        recordWrite_posix p _ _ buf n _ f'.ino ?_ hn]
      · refine Wrote.stored fd p f' n offset.toNat f'.pos _ hp hf hino hreg hn hmax hpos ?_ _ ?_
        · intro hne
          have hbound := hlt hne
          have hmax64 : maxOffset < 2 ^ 64 := by decide
          rw [hoff]
          exact intToUlong_natCast _ (by omega)
        · exact (setFd_self (w.fs.called.setData f'.ino _) fd f' hf).symm
      · exact hino

/-- The mods added by a call take the files before it to the files after it. -/
abbrev Logs (resolve : Path → Name) : World PosixFs → World PosixFs → Prop :=
  Replays World.mods (fun w => w.fs.files) (replayMod resolve)

/-- A descriptor that is opened is not in the map yet, so its entry is the new path. -/
theorem Tracked.insertFd_eq {w : World PosixFs} (h : Tracked resolve w) (fd : Int)
    (hfd : w.fs.fds fd = none) (p : Path) :
    insertFd w.fdMap fd p = Function.update w.fdMap fd (some p) := by
  have hnone : w.fdMap fd = none := by
    cases hp : w.fdMap fd with
    | none => rfl
    | some q =>
      obtain ⟨f, hf, -⟩ := h.fd fd q hp
      simp [hf] at hfd
  simp [insertFd, hnone]

/-- A new descriptor on a file that its path names keeps the map right. -/
theorem Tracked.open {w : World PosixFs} (h : Tracked resolve w) (fs : PosixFs)
    (hfs : fs.WellFormed) (hfds : fs.fds = w.fs.fds)
    (hkeep : ∀ name i, w.fs.ino? name = some i → fs.ino? name = some i) (fd : Int)
    (hfd : w.fs.fds fd = none) (p : Path) (i : Nat) (hino : fs.ino? (resolve (cStr p)) = some i)
    (flags : Flags) (happend : flags.has oAppend = false) (maps : List MmapEntry)
    (mods : List DiskMod) :
    Tracked resolve
      ⟨fs.setFd fd (some (openFile flags i)), insertFd w.fdMap fd p, maps, mods⟩ := by
  rw [h.insertFd_eq fd hfd p]
  refine ⟨⟨hfs.single, hfs.known⟩, ?_⟩
  intro fd' q hq
  by_cases hfd' : fd' = fd
  · subst hfd'
    have hpq : p = q := by simpa using hq
    subst hpq
    exact ⟨openFile flags i, by simp [setFd], hino, happend, Nat.zero_le _⟩
  · have hq' : w.fdMap fd' = some q := by simpa [hfd'] using hq
    obtain ⟨f, hf, hino', hrest⟩ := h.fd fd' q hq'
    exact ⟨f, by simp [setFd, hfd', hfds, hf], hkeep _ _ hino', hrest⟩

theorem WellFormed.called {s : PosixFs} (h : s.WellFormed) : s.called.WellFormed :=
  ⟨h.single, h.known⟩

theorem opened_logs {p : Path} {flags : Flags} {w w' : World PosixFs} (h : Tracked resolve w)
    (happend : flags.has oAppend = false) (hopen : Opened resolve p flags w w') :
    Tracked resolve w' ∧ Logs resolve w w' := by
  cases hopen with
  | failed => exact ⟨⟨WellFormed.called h.fs, h.fd⟩, Replays.same rfl rfl⟩
  | created fd m hfd hino hcan ht hp =>
    constructor
    · apply h.open _ (wellFormed_create _ (WellFormed.called h.fs) _) rfl ?_ fd hfd p _
        (by simp [ino?_create]) flags happend
      intro name i hi
      have hne : name ≠ resolve (cStr p) := by
        rintro rfl
        simp [hino] at hi
      simp [ino?_create, hne, hi]
    · apply Replays.push rfl
      have hfiles := files_create w.fs.called (WellFormed.called h.fs) (resolve (cStr p))
      subst hp
      simp only [replayMod, ht]
      exact hfiles.symm
  | opened fd i hfd hino =>
    exact ⟨h.open _ (WellFormed.called h.fs) rfl (fun _ _ hi => hi) fd hfd p i hino flags happend _ _,
      Replays.same rfl rfl⟩
  | emptied fd i m hfd hino ht ho hp =>
    subst hp
    constructor
    · split
      · exact h.open (w.fs.called.setData i []) ⟨h.fs.single, h.fs.known⟩ rfl (fun _ _ hi => hi) fd
          hfd _ i hino flags happend _ _
      · exact h.open _ (WellFormed.called h.fs) rfl (fun _ _ hi => hi) fd hfd _ i hino flags happend _ _
    · apply Replays.push rfl
      simp only [replayMod, ht, ho]
      by_cases hreg : (w.fs.inodes i).kind = .regular
      · have hfiles := files_setData w.fs.called (WellFormed.called h.fs) _ i hino hreg []
        have hsome : w.fs.files (resolve (cStr m.path)) = some (w.fs.inodes i).data := by
          simp [files, hino, hreg]
        simp only [hsome, Option.map_some, hreg, ↓reduceIte]
        exact hfiles.symm
      · have hnone : w.fs.files (resolve (cStr m.path)) = none := by
          simp [files, hino, hreg]
        simp only [hnone, Option.map_none, hreg, ↓reduceIte]
        rw [← hnone, Function.update_eq_self]
        rfl

theorem wrote_logs {buf : List UInt8} {w w' : World PosixFs} (h : Tracked resolve w)
    (hwrote : Wrote resolve buf w w') : Tracked resolve w' ∧ Logs resolve w w' := by
  cases hwrote with
  | refused fs hfs =>
    rcases hfs with rfl | rfl
    · exact ⟨h, Replays.same rfl rfl⟩
    · exact ⟨⟨WellFormed.called h.fs, h.fd⟩, Replays.same rfl rfl⟩
  | stored fd p f n pos next location hp hf hino hreg hn hmax hnext hlocation fs hfs =>
    subst hfs
    constructor
    · refine ⟨⟨h.fs.single, h.fs.known⟩, ?_⟩
      intro fd' q hq
      obtain ⟨f', hf', hino', happend', hpos'⟩ := h.fd fd' q hq
      by_cases hfd' : fd' = fd
      · subst hfd'
        have hff : f' = f := Option.some.inj (hf'.symm.trans hf)
        subst hff
        exact ⟨{ f' with pos := next }, by simp [setFd], hino', happend', hnext⟩
      · exact ⟨f', by simp [setFd, hfd', hf'], hino', happend', hpos'⟩
    · apply Replays.push rfl
      have hfiles := files_setData w.fs.called (WellFormed.called h.fs) _ f.ino hino hreg
        (storeAt (w.fs.inodes f.ino).data pos (buf.take n))
      have hsome : w.fs.files (resolve (cStr p)) = some (w.fs.inodes f.ino).data := by
        simp [files, hino, hreg]
      have hlen : (intToUlong n).toNat = n := by
        have hmax' : maxRwCount < 2 ^ 64 := by decide
        exact intToUlong_natCast n (by omega)
      have hdata : storeAt (w.fs.inodes f.ino).data location.toNat (buf.take n) =
          storeAt (w.fs.inodes f.ino).data pos (buf.take n) := by
        by_cases hempty : buf.take n = []
        · rw [hempty, storeAt_nil, storeAt_nil]
        · rw [hlocation hempty]
      rw [replayMod_data _ _ _ (by split; exact Or.inr rfl; exact Or.inl rfl) rfl]
      simp only [hsome, Option.map_some, hlen, List.take_take, Nat.min_self, hdata]
      exact hfiles.symm

/-- One call keeps the invariant, and its mods replay its effect on the files. -/
theorem call_logs (w : World PosixFs) (h : Tracked resolve w) (op : CmOp) (hop : Plain op)
    (hclose : CloseKeeps w op) :
    Tracked resolve (call (posix resolve) op w).2 ∧
      Logs resolve w (call (posix resolve) op w).2 := by
  cases op with
  | «open» p flags =>
    exact opened_logs h hop (openWith_opened _ p flags w fun s => by simp [posix, cStr_cStr])
  | open2 p flags mode =>
    exact opened_logs h hop (openWith_opened _ p flags w fun s => by simp [posix, cStr_cStr])
  | lseek fd offset whence =>
    have hseek := doLseek_cases fd offset whence w.fs
    have hcall : (call (posix resolve) (.lseek fd offset whence) w).2 =
        { w with fs := (doLseek fd offset whence w.fs).2 } := rfl
    rw [hcall]
    rcases hseek with hsame | ⟨f, pos, hf, hpos, hmove⟩
    · rw [hsame]
      exact ⟨h, Replays.same rfl rfl⟩
    · rw [hmove]
      refine ⟨⟨⟨h.fs.single, h.fs.known⟩, ?_⟩, Replays.same rfl rfl⟩
      intro fd' q hq
      obtain ⟨f', hf', hino', happend', hpos'⟩ := h.fd fd' q hq
      by_cases hfd' : fd' = fd
      · subst hfd'
        have hff : f' = f := Option.some.inj (hf'.symm.trans hf)
        subst hff
        exact ⟨{ f' with pos := pos }, by simp [setFd], hino', happend', hpos⟩
      · exact ⟨f', by simp [setFd, hfd', hf'], hino', happend', hpos'⟩
  | write fd buf => exact wrote_logs h (cmWrite_wrote w h fd buf)
  | pwrite fd buf offset => exact wrote_logs h (cmPwrite_wrote w h fd buf offset)
  | close fd =>
    have hfn : (posix resolve).fnClose fd w.fs = doClose fd w.fs := rfl
    rcases hclose.cases with hfail | hclosed
    · have hcall : (call (posix resolve) (.close fd) w).2 = { w with fs := w.fs.called } := by
        rw [hfail] at hfn
        simp [call, cmClose, hfn]
      rw [hcall]
      exact ⟨⟨WellFormed.called h.fs, h.fd⟩, Replays.same rfl rfl⟩
    · have hcall : (call (posix resolve) (.close fd) w).2 =
          { w with fs := w.fs.called.setFd fd none, fdMap := Function.update w.fdMap fd none } := by
        rw [hclosed] at hfn
        simp [call, cmClose, hfn]
      rw [hcall]
      refine ⟨⟨⟨h.fs.single, h.fs.known⟩, ?_⟩, Replays.same rfl rfl⟩
      intro fd' q hq
      by_cases hfd' : fd' = fd
      · simp [hfd'] at hq
      · have hq' : w.fdMap fd' = some q := by simpa [hfd'] using hq
        obtain ⟨f', hf', hrest⟩ := h.fd fd' q hq'
        exact ⟨f', by simp [setFd, hfd', hf'], hrest⟩
  | mknod | mkdir | mmap | msync | munmap | fallocate | rename | unlink | remove | fsync
  | fdatasync | sync | syncFileRange | checkpoint => exact absurd hop id

/-- A run keeps the invariant, and its mods replay its effect on the files. -/
theorem run_logs (w : World PosixFs) (h : Tracked resolve w) (ops : List CmOp)
    (hops : ∀ op ∈ ops, Plain op) (hclose : CloseKeepsRun resolve ops w) :
    Tracked resolve (run (posix resolve) ops w) ∧ Logs resolve w (run (posix resolve) ops w) := by
  refine replays_run (fun w op => Plain op ∧ CloseKeeps w op) (Tracked resolve) ?_ ops w h
    ((allowed_of_forall _ _ ops hops w).and hclose)
  intro w op h hop
  exact call_logs w h op hop.1 hop.2

theorem tracked_start (resolve : Path → Name) (s : PosixFs) (hs : s.WellFormed) :
    Tracked resolve (World.start s) :=
  ⟨hs, fun _ _ hp => by simp [World.start] at hp⟩

def CmOp.isWrite : CmOp → Bool
  | .write _ _ | .pwrite _ _ _ => true
  | _ => false

theorem write_wrote (w : World PosixFs) (h : Tracked resolve w) (op : CmOp)
    (hop : op.isWrite = true) : ∃ buf, Wrote resolve buf w (call (posix resolve) op w).2 := by
  cases op with
  | write fd buf => exact ⟨buf, cmWrite_wrote w h fd buf⟩
  | pwrite fd buf offset => exact ⟨buf, cmPwrite_wrote w h fd buf offset⟩
  | mknod | mkdir | «open» | open2 | lseek | mmap | msync | munmap | fallocate | close | rename
  | unlink | remove | fsync | fdatasync | sync | syncFileRange | checkpoint =>
    simp [CmOp.isWrite] at hop

/-- The type of a write's mod says whether the write changed a size. -/
theorem wrote_type {buf : List UInt8} {w w' : World PosixFs} (h : Tracked resolve w)
    (hwrote : Wrote resolve buf w w') (m : DiskMod) (hm : w'.mods = w.mods ++ [m]) :
    m.modType = .kDataMetadataMod ↔ w'.fs.sizes ≠ w.fs.sizes := by
  cases hwrote with
  | refused fs hfs => simp at hm
  | stored fd p f n pos next location hp hf hino hreg hn hmax hnext hlocation fs hfs =>
    have hm' := List.append_cancel_left hm
    cases hm'
    have hfiles : fs.files = Function.update w.fs.files (resolve (cStr p))
        (some (storeAt (w.fs.inodes f.ino).data pos (buf.take n))) := by
      rw [hfs]
      exact files_setData w.fs.called (WellFormed.called h.fs) _ f.ino hino hreg _
    have hold : w.fs.sizes (resolve (cStr p)) = some (w.fs.inodes f.ino).data.length := by
      simp [sizes, files, hino, hreg]
    have hsizes : fs.sizes = Function.update w.fs.sizes (resolve (cStr p))
        (some (storeAt (w.fs.inodes f.ino).data pos (buf.take n)).length) := by
      funext name
      by_cases hname : name = resolve (cStr p)
      · simp [sizes, hfiles, hname]
      · simp [sizes, hfiles, hname]
    have hchange : fs.sizes ≠ w.fs.sizes ↔ (w.fs.inodes f.ino).data.length ≠
        (storeAt (w.fs.inodes f.ino).data pos (buf.take n)).length := by
      rw [hsizes, Ne, Function.update_eq_iff, hold]
      simp [eq_comm]
    have hsize : (fs.statOf f.ino).stSize =
        (storeAt (w.fs.inodes f.ino).data pos (buf.take n)).length := by
      simp [hfs, statOf]
    have hbefore : (w.fs.statOf f.ino).stSize = (w.fs.inodes f.ino).data.length := rfl
    rw [hchange]
    simp only [hsize, hbefore, ne_eq, Int.natCast_inj]
    by_cases hlen : (w.fs.inodes f.ino).data.length =
        (storeAt (w.fs.inodes f.ino).data pos (buf.take n)).length
    · simp [hlen]
    · simp [hlen]

/-- Where no `CmClose` fails and releases an open descriptor, the mods of a run, replayed in order
on the initial files, give the final files, and the mod of a write is `kDataMetadataMod` exactly
when the write changed a file size. -/
theorem mods_are_redo_log (resolve : Path → Name) (s : PosixFs) (hs : s.WellFormed)
    (ops : List CmOp) (hops : ∀ op ∈ ops, Plain op)
    (hclose : CloseKeepsRun resolve ops (World.start s)) :
    (run (posix resolve) ops (World.start s)).mods.foldl (replayMod resolve) s.files =
        (run (posix resolve) ops (World.start s)).fs.files ∧
      ∀ before op after m, ops = before ++ op :: after → op.isWrite = true →
        (run (posix resolve) (before ++ [op]) (World.start s)).mods =
          (run (posix resolve) before (World.start s)).mods ++ [m] →
        (m.modType = .kDataMetadataMod ↔
          (run (posix resolve) (before ++ [op]) (World.start s)).fs.sizes ≠
            (run (posix resolve) before (World.start s)).fs.sizes) := by
  constructor
  · obtain ⟨-, ms, hmods, hfiles⟩ := run_logs _ (tracked_start resolve s hs) ops hops hclose
    have hms : (run (posix resolve) ops (World.start s)).mods = ms := hmods
    rw [hms]
    exact hfiles
  · intro before op after m hsplit hop hm
    rw [hsplit] at hclose
    obtain ⟨htracked, -⟩ := run_logs _ (tracked_start resolve s hs) before
      (fun op' hop' => hops op' (by simp [hsplit, hop'])) ((allowed_append _ _ _).mp hclose).1
    obtain ⟨buf, hwrote⟩ := write_wrote _ htracked op hop
    rw [run_append] at hm ⊢
    exact wrote_type htracked hwrote m hm

end

theorem empty_wellFormed (first : Int) : (PosixFs.empty first).WellFormed := by
  have hroot : ∀ name i, (PosixFs.empty first).ino? name = some i → name = [] ∧ i = 0 := by
    intro name i hi
    by_cases hname : name = []
    · simpa [PosixFs.empty, ino?, hname, eq_comm] using hi
    · have hne : (name == []) = false := by simp [hname]
      simp [PosixFs.empty, ino?, List.lookup_cons, hne] at hi
  constructor
  · intro name name' i hi hi'
    rw [(hroot name i hi).1, (hroot name' i hi').1]
  · intro name i hi
    simp [(hroot name i hi).2, PosixFs.empty]

/-- Writes through two descriptors of one file, with a gap, and a truncation at the end. -/
def redoRun : List CmOp :=
  [.open2 (path ['/', 'f']) (oCreat ||| oRdwr) 0o644#32, .write 3 [1, 2, 3],
    .open (path ['/', 'f']) oRdwr, .pwrite 5 [9] 6, .lseek 3 1 seekSet, .write 3 [7, 7],
    .close 3, .open (path ['/', '/', 'f']) (oWronly ||| oTrunc), .write 9 [5]]

theorem mods_are_redo_log_run :
    (run (posix splitPath) redoRun (World.start (PosixFs.empty 3))).mods.foldl
        (replayMod splitPath) (PosixFs.empty 3).files =
      (run (posix splitPath) redoRun (World.start (PosixFs.empty 3))).fs.files :=
  (mods_are_redo_log splitPath _ (empty_wellFormed 3) redoRun
    (by simp [redoRun, Plain, Flags.has, oCreat, oRdwr, oWronly, oTrunc, oAppend])
    ⟨trivial, trivial, trivial, trivial, trivial, trivial, fun hneg => absurd hneg (by decide +kernel),
      trivial, trivial, trivial⟩).1

/-- A file system that hands out descriptor 3, and whose second call is refused where it can be;
a close that is refused releases the descriptor. -/
def releasing : PosixFs :=
  { PosixFs.empty 3 with choices := fun n => ⟨n == 1, true, maxRwCount, 3⟩ }

/-- The number of a file whose close failed is used again for another file. -/
def releasedRun : List CmOp :=
  [.open2 (path ['/', 'a']) (oCreat ||| oRdwr) 0o644#32, .close 3,
    .open2 (path ['/', 'b']) (oCreat ||| oRdwr) 0o644#32, .write 3 [7]]

/-- The write to `/b` is recorded as one to `/a`. -/
theorem released_close_misdirects :
    releasing.WellFormed ∧ (∀ op ∈ releasedRun, Plain op) ∧
      (run (posix splitPath) releasedRun (World.start releasing)).mods.foldl
          (replayMod splitPath) releasing.files ≠
        (run (posix splitPath) releasedRun (World.start releasing)).fs.files := by
  refine ⟨⟨(empty_wellFormed 3).single, (empty_wellFormed 3).known⟩,
    by simp [releasedRun, Plain, Flags.has, oCreat, oRdwr, oAppend], fun heq => ?_⟩
  have hb := congrFun heq [path ['b']]
  revert hb
  decide +kernel

end PMTester
