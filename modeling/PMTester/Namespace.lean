import Mathlib.Data.Set.Insert
import PMTester.RedoLog

/-!
# The mods and the namespace

`CmMkdir`, `CmOpen`, `CmUnlink` and `CmRemove` record the paths that they make
and remove. `CmMknod` and `CmRename` record nothing: a run in which they leave
the paths as they are is described by its mods, any other need not be.
-/
namespace PMTester

open Run Word PosixFs RecordCmFsOps

namespace PosixFs

/-- The names that exist. -/
def existing (s : PosixFs) : Set Name := {name | (s.ino? name).isSome = true}

@[simp] theorem existing_called (s : PosixFs) : s.called.existing = s.existing := rfl
@[simp] theorem existing_setFd (s : PosixFs) (fd : Int) (f : Option OpenFile) :
    (s.setFd fd f).existing = s.existing := rfl
@[simp] theorem existing_setData (s : PosixFs) (i : Nat) (data : List UInt8) :
    (s.setData i data).existing = s.existing := rfl

@[simp] theorem existing_create (s : PosixFs) (name : Name) (kind : FileKind) :
    (s.create name kind).existing = insert name s.existing := by
  ext other
  by_cases h : other = name
  · simp [existing, ino?_create, h]
  · simp [existing, ino?_create, h]

@[simp] theorem existing_dropName (s : PosixFs) (name : Name) :
    (s.dropName name).existing = s.existing \ {name} := by
  ext other
  by_cases h : other = name
  · simp [existing, ino?_dropName, h]
  · simp [existing, ino?_dropName, h]

end PosixFs

/-- What a mod says about the names. -/
def replayName (resolve : Path → Name) (existing : Set Name) (m : DiskMod) : Set Name :=
  match m.modType with
  | .kCreateMod => insert (resolve (cStr m.path)) existing
  | .kRemoveMod => existing \ {resolve (cStr m.path)}
  | _ => existing

/-- The calls that make, move and remove names. -/
def NamespaceOp : CmOp → Prop
  | .mknod _ _ _ | .mkdir _ _ | .open _ _ | .open2 _ _ _ | .rename _ _ | .unlink _ | .remove _ =>
    True
  | _ => False

/-- A call that the mods account for: a `CmMknod` that fails, a `CmRename` that fails or
has the same file under both names, or any other of the calls. -/
def Accounted (resolve : Path → Name) (w : World PosixFs) : CmOp → Prop
  | .mknod p mode dev => ((posix resolve).fnMknod (cStr p) mode dev w.fs).1 < 0
  | .rename old new =>
    ((posix resolve).fnRename old new w.fs).1 < 0 ∨
      w.fs.ino? (resolve (cStr old)) = w.fs.ino? (resolve (cStr new))
  | op => NamespaceOp op

/-- Every call of the run is accounted for in the state in which it is made. -/
def AccountedRun (resolve : Path → Name) : List CmOp → World PosixFs → Prop :=
  Allowed (fun w op => (call (posix resolve) op w).2) (Accounted resolve)

section

variable {resolve : Path → Name}

/-- The mods added by a call take the names before it to the names after it. -/
abbrev NameLogs (resolve : Path → Name) : World PosixFs → World PosixFs → Prop :=
  Replays World.mods (fun w => w.fs.existing) (replayName resolve)

theorem opened_nameLogs {p : Path} {flags : Flags} {w w' : World PosixFs}
    (hopen : Opened resolve p flags w w') : NameLogs resolve w w' := by
  cases hopen with
  | failed => exact Replays.same rfl rfl
  | created fd m hfd hino hcan ht hp =>
    apply Replays.push rfl
    simp [replayName, ht, hp]
  | opened fd i hfd hino => exact Replays.same rfl rfl
  | emptied fd i m hfd hino ht ho hp =>
    apply Replays.push rfl
    simp only [replayName, ht]
    split <;> simp

theorem removeWith_nameLogs (fnRemove : Path → PosixFs → Int × PosixFs)
    (act : Choice → PosixFs → Option (Int × PosixFs)) (p : Path) (w : World PosixFs)
    (hfn : fnRemove (cStr p) w.fs = w.fs.attempt act)
    (hact : ∀ c s r s', act c s = some (r, s') → r = 0 ∧ s' = s.dropName (resolve (cStr p))) :
    NameLogs resolve w (removeWith fnRemove p w).2 := by
  rcases attempt_cases w.fs act with hatt | ⟨c, r, s', hdo, hatt⟩
  · rw [hatt] at hfn
    have hcall : (removeWith fnRemove p w).2 = { w with fs := w.fs.called } := by
      simp [removeWith, hfn]
    rw [hcall]
    exact Replays.same rfl rfl
  · obtain ⟨rfl, rfl⟩ := hact c _ r s' hdo
    rw [hatt] at hfn
    simp only [removeWith, hfn, Int.lt_irrefl, ↓reduceIte]
    apply Replays.push rfl
    simp [replayName]

/-- The mods of one accounted call replay its effect on the names. -/
theorem call_nameLogs (w : World PosixFs) (op : CmOp) (hop : Accounted resolve w op) :
    NameLogs resolve w (call (posix resolve) op w).2 := by
  cases op with
  | mknod p mode dev =>
    have hfn : (posix resolve).fnMknod (cStr p) mode dev w.fs =
        w.fs.attempt (doMknod (resolve (cStr (cStr p))) mode) := rfl
    rcases attempt_cases w.fs (doMknod (resolve (cStr (cStr p))) mode) with
      hatt | ⟨c, r, s', hdo, hatt⟩
    · rw [hatt] at hfn
      have hcall : (call (posix resolve) (.mknod p mode dev) w).2 =
          { w with fs := w.fs.called } := by
        simp [call, cmMknod, hfn]
      rw [hcall]
      exact Replays.same rfl rfl
    · obtain ⟨hr, -⟩ := doMknod_cases hdo
      simp only [Accounted, hfn, hatt, hr] at hop
      omega
  | mkdir p mode =>
    have hfn : (posix resolve).fnMkdir (cStr p) mode w.fs =
        w.fs.attempt (doMkdir (resolve (cStr (cStr p)))) := rfl
    rcases attempt_cases w.fs (doMkdir (resolve (cStr (cStr p)))) with
      hatt | ⟨c, r, s', hdo, hatt⟩
    · rw [hatt] at hfn
      have hcall : (call (posix resolve) (.mkdir p mode) w).2 =
          { w with fs := w.fs.called } := by
        simp [call, cmMkdir, hfn]
      rw [hcall]
      exact Replays.same rfl rfl
    · obtain ⟨rfl, rfl⟩ := doMkdir_cases hdo
      rw [hatt] at hfn
      simp only [call, cmMkdir, hfn, Int.lt_irrefl, ↓reduceIte]
      apply Replays.push rfl
      simp [replayName, cStr_cStr]
  | «open» p flags =>
    exact opened_nameLogs (openWith_opened _ p flags w fun s => by simp [posix, cStr_cStr])
  | open2 p flags mode =>
    exact opened_nameLogs (openWith_opened _ p flags w fun s => by simp [posix, cStr_cStr])
  | rename old new =>
    have hfn : (posix resolve).fnRename old new w.fs =
        w.fs.attempt (doRename (resolve (cStr old)) (resolve (cStr new))) := rfl
    have hcall : (call (posix resolve) (.rename old new) w).2.fs =
        (w.fs.attempt (doRename (resolve (cStr old)) (resolve (cStr new)))).2 := rfl
    suffices hsame : (call (posix resolve) (.rename old new) w).2.fs.existing = w.fs.existing from
      Replays.same rfl hsame
    rw [hcall]
    rcases attempt_cases w.fs (doRename (resolve (cStr old)) (resolve (cStr new))) with
      hatt | ⟨c, r, s', hdo, hatt⟩
    · rw [hatt, existing_called]
    · obtain ⟨hr, hsame⟩ := doRename_cases hdo
      simp only [Accounted, hfn, hatt, hr, Int.lt_irrefl, false_or] at hop
      rw [hatt, hsame hop, existing_called]
  | unlink p =>
    refine removeWith_nameLogs _ (doUnlink (resolve (cStr p))) p w ?_ ?_
    · simp [posix, cStr_cStr]
    · intro c s r s' h
      exact doUnlink_cases h
  | remove p =>
    refine removeWith_nameLogs _ (doRemove (resolve (cStr p))) p w ?_ ?_
    · simp [posix, cStr_cStr]
    · intro c s r s' h
      exact doRemove_cases h
  | lseek | write | pwrite | mmap | msync | munmap | fallocate | close | fsync | fdatasync | sync
  | syncFileRange | checkpoint => exact absurd hop id

/-- The mods of a run replay its effect on the names. -/
theorem run_nameLogs (w : World PosixFs) (ops : List CmOp) (hops : AccountedRun resolve ops w) :
    NameLogs resolve w (run (posix resolve) ops w) :=
  (replays_run (Accounted resolve) (fun _ => True)
    (fun w op _ hop => ⟨trivial, call_nameLogs w op hop⟩) ops w trivial hops).2

end

/-- Two runs that start with the same names and leave the same mods end with the same names,
if all that their calls do to the names is accounted for. -/
theorem namespace_determined (resolve : Path → Name) (s₁ s₂ : PosixFs) (ops₁ ops₂ : List CmOp)
    (hnames : s₁.existing = s₂.existing)
    (h₁ : AccountedRun resolve ops₁ (World.start s₁))
    (h₂ : AccountedRun resolve ops₂ (World.start s₂))
    (hmods : (run (posix resolve) ops₁ (World.start s₁)).mods =
      (run (posix resolve) ops₂ (World.start s₂)).mods) :
    (run (posix resolve) ops₁ (World.start s₁)).fs.existing =
      (run (posix resolve) ops₂ (World.start s₂)).fs.existing :=
  (run_nameLogs _ ops₁ h₁).determined (run_nameLogs _ ops₂ h₂) rfl hnames hmods

/-- A directory and a file in it are made; the file is unlinked, and a rename fails. -/
def unlinkedFileRun : List CmOp :=
  [.mkdir (path ['/', 'd']) 0o755#32, .open2 (path ['/', 'd', '/', 'f']) (oCreat ||| oRdwr) 0o644#32,
    .unlink (path ['/', 'd', '/', 'f']), .rename (path ['/', 'x']) (path ['/', 'y'])]

/-- The same with other calls: `remove` for `unlink`, and no rename. -/
def removedFileRun : List CmOp :=
  [.mkdir (path ['/', 'd']) 0o755#32, .open2 (path ['/', 'd', '/', 'f']) (oCreat ||| oRdwr) 0o644#32,
    .remove (path ['/', 'd', '/', 'f'])]

theorem namespace_determined_remove :
    (run (posix splitPath) unlinkedFileRun (World.start (PosixFs.empty 3))).fs.existing =
      (run (posix splitPath) removedFileRun (World.start (PosixFs.empty 3))).fs.existing :=
  namespace_determined splitPath (PosixFs.empty 3) (PosixFs.empty 3) unlinkedFileRun removedFileRun rfl
    ⟨trivial, trivial, trivial, Or.inl (by decide +kernel), trivial⟩
    ⟨trivial, trivial, trivial, trivial⟩ (by decide +kernel)

/-- A `CmMknod` that makes a file, and a `CmRename` that moves one, leave no mod. -/
theorem mknod_rename_unrecorded :
    ((run (posix splitPath) [.mknod (path ['/', 'f']) 0o644#32 0]
          (World.start (PosixFs.empty 3))).mods =
        (run (posix splitPath) [] (World.start (PosixFs.empty 3))).mods ∧
      (run (posix splitPath) [.mknod (path ['/', 'f']) 0o644#32 0]
          (World.start (PosixFs.empty 3))).fs.existing ≠
        (run (posix splitPath) [] (World.start (PosixFs.empty 3))).fs.existing) ∧
    (run (posix splitPath) [.mkdir (path ['/', 'd']) 0o755#32,
          .rename (path ['/', 'd']) (path ['/', 'e'])] (World.start (PosixFs.empty 3))).mods =
        (run (posix splitPath) [.mkdir (path ['/', 'd']) 0o755#32]
          (World.start (PosixFs.empty 3))).mods ∧
      (run (posix splitPath) [.mkdir (path ['/', 'd']) 0o755#32,
          .rename (path ['/', 'd']) (path ['/', 'e'])] (World.start (PosixFs.empty 3))).fs.existing ≠
        (run (posix splitPath) [.mkdir (path ['/', 'd']) 0o755#32]
          (World.start (PosixFs.empty 3))).fs.existing := by
  have differ (s s' : PosixFs) (name : Name) (h : (s.ino? name).isSome = true)
      (h' : (s'.ino? name).isSome = false) : s.existing ≠ s'.existing := by
    intro he
    have hin : name ∈ s'.existing := he ▸ h
    simp [existing, h'] at hin
  refine ⟨⟨by decide +kernel, ?_⟩, by decide +kernel, ?_⟩
  · exact differ _ _ [path ['f']] (by decide +kernel) (by decide +kernel)
  · exact differ _ _ [path ['e']] (by decide +kernel) (by decide +kernel)

end PMTester
