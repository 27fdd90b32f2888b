import PMTester.FileCompare
import PMTester.MapComparison
import PMTester.SanityChecks
import PMTester.TesterCheck

/-!
# The tree that the sanity checks are made on

The check compares the tree at the record mount point, the oracle, with the one
at the replay mount point, and runs `sanity_checks` when it finds no difference.
That function is called on the record disk and has the record mount point
written into it: every call it makes is on a path below `/mnt/pmem0`.
-/
namespace PMTester

variable {σ : Type}

/-- The report in `diff_file` is left out. -/
def DiskContents.compareEntriesAtPath (disk compareDisk : DiskContents)
    (stats : Path → Option Stat) (digests : Path → Path) (path : Path) : Bool :=
  if disk.diskPath = compareDisk.diskPath then true
  else
    let base := basePath ++ path
    let comparePath := compareDisk.mountPoint ++ path
    match stats base, stats comparePath with
    | some _, some _ =>
      let baseFa := (FileAttributes.init 0).setStatAttr (stats base)
      let compareFa := (FileAttributes.init 0).setStatAttr (stats comparePath)
      if !baseFa.compareStatAttr compareFa.statAttr then false
      else if baseFa.isRegularFile then
        let baseFa := baseFa.setMd5sum (digests base)
        let compareFa := compareFa.setMd5sum (digests comparePath)
        if baseFa.compareMd5sum compareFa.md5sum then false else true
      else true
    | _, _ => false

/-- The call does not return. -/
def CompareResult.aborts : CompareResult → Bool
  | .ret _ => false
  | _ => true

/-- What the comparisons read of the two trees, and what is in their new buffers. -/
structure MountedTrees where
  root : Node
  compareRoot : Node
  stats : Path → Option Stat
  digests : Path → Path
  files : FilesAt
  fresh₁ : Memory.Mem
  fresh₂ : Memory.Mem

/-- The two disks and the directory tree; `aborted` when a call did not come back. -/
structure CheckState where
  disk : DiskContents
  compareDisk : DiskContents
  fs : HostFs
  aborted : Bool

namespace Tester

/-- The functions of `DiskContents` on the mounted trees. -/
def diskChecks (host : DirHost HostFs) (depth : Nat) (trees : MountedTrees) :
    DiskChecks CheckState where
  compareEntriesAtPath path s :=
    (s.disk.compareEntriesAtPath s.compareDisk trees.stats trees.digests path, s)
  compareDiskContents s :=
    let (ret, disk, compareDisk) := s.disk.compareMaps s.compareDisk trees.root trees.compareRoot
    (ret, { s with disk := disk, compareDisk := compareDisk })
  compareFileContents path offset length s :=
    match s.disk.compareFileContents s.compareDisk trees.files trees.fresh₁ trees.fresh₂ path offset
      length with
    | .ret value => (value, s)
    | _ => (false, { s with aborted := true })
  sanityChecks s :=
    match s.disk.sanityChecks host depth trees.root s.fs with
    | (some sane, disk, fs) => (sane, { s with disk := disk, fs := fs })
    | (none, disk, fs) => (false, { s with disk := disk, fs := fs, aborted := true })

/-- The disks of the check, before it has collected anything. -/
def newDisks (recordDevice replayDevice : Path) (fs : HostFs) : CheckState where
  disk := { diskPath := recordDevice, mountPoint := basePath }
  compareDisk := { diskPath := replayDevice, mountPoint := replayDisk.mountPoint }
  fs := fs
  aborted := false

/-- What a check returns, if it does, and the tree it leaves. -/
structure Verdict where
  value : Option Bool
  fs : HostFs

/-- `check_disk_and_snapshot_contents` on the mounted trees. -/
def checkMounted (host : DirHost HostFs) (depth : Nat) (trees : MountedTrees)
    (recordDevice replayDevice : Path) (mods : List (List DiskMod)) (fs : HostFs) : Verdict :=
  match checkDiskAndSnapshotContents (diskChecks host depth trees) mods
    (newDisks recordDevice replayDevice fs) with
  | none => ⟨none, fs⟩
  | some (ret, s) => ⟨if s.aborted then none else some ret, s.fs⟩

/-- What one comparison of the new disks answers. -/
def compareResult (trees : MountedTrees) (s : CheckState) : Comparison → CompareResult
  | .entriesAtPath path =>
    .ret (s.disk.compareEntriesAtPath s.compareDisk trees.stats trees.digests path)
  | .diskContents => .ret (s.disk.compareMaps s.compareDisk trees.root trees.compareRoot).1
  | .fileContents path offset length =>
    s.disk.compareFileContents s.compareDisk trees.files trees.fresh₁ trees.fresh₂ path offset length

/-- What the comparison of the check answers; `none` when there is no segment to look at. Without
a mod to stop at the check returns false. -/
def compared (trees : MountedTrees) (recordDevice replayDevice : Path)
    (mods : List (List DiskMod)) (fs : HostFs) : Option CompareResult :=
  (checkedSegment mods).map fun segment =>
    match segment.find? stops with
    | none => .ret false
    | some m => compareResult trees (newDisks recordDevice replayDevice fs) (comparisonAt m)

end Tester

/-- The same answers to the calls on these paths. -/
structure DirHost.AgreeOn (visited : Path → Prop) (host host' : DirHost σ) : Prop where
  opendir : ∀ p, visited p → host.opendir p = host'.opendir p
  stat : ∀ p, visited p → host.stat p = host'.stat p
  unlink : ∀ p, visited p → host.unlink p = host'.unlink p
  rmdir : ∀ p, visited p → host.rmdir p = host'.rmdir p
  openCreat : ∀ p, visited p → host.openCreat p = host'.openCreat p

def OnRecord (p : Path) : Prop := basePath <+: p

def OnReplay (p : Path) : Prop := replayDisk.mountPoint <+: p

instance (p : Path) : Decidable (OnReplay p) := inferInstanceAs (Decidable (_ <+: _))

/-- In the tree under test nothing can be created, or nothing can be deleted. -/
def Unusable (host : DirHost HostFs) : Prop :=
  (∀ p fs, OnReplay p → host.openCreat p fs = none) ∨
    ∀ p fs, OnReplay p → host.unlink p fs = none ∧ host.rmdir p fs = none

namespace Tester

/-- The oracle stays as it was, the verdict depends on the tree under test alone, and one that is
unusable is rejected. -/
structure ExaminesReplay (host : DirHost HostFs) (depth : Nat) (trees : MountedTrees)
    (recordDevice replayDevice : Path) (mods : List (List DiskMod)) (fs : HostFs) : Prop where
  kept : ∀ l, HostFs.mountRoot <:+ l →
    (checkMounted host depth trees recordDevice replayDevice mods fs).fs.entry l = fs.entry l
  onReplay : ∀ host', host.AgreeOn OnReplay host' →
    (checkMounted host' depth trees recordDevice replayDevice mods fs).value =
      (checkMounted host depth trees recordDevice replayDevice mods fs).value
  refused : Unusable host →
    (checkMounted host depth trees recordDevice replayDevice mods fs).value = some false

/-- What the record disk has collected: nothing, or the tree that the sanity checks collect. -/
def CollectedOf (root : Node) (disk : DiskContents) : Prop :=
  disk.mountPoint = basePath ∧
    (disk.contents = ∅ ∨ disk.contents = getContents basePath basePath root ∅)

theorem collectedOf_compareMaps (disk compareDisk : DiskContents) (root compareRoot : Node)
    (h : disk.mountPoint = basePath ∧ disk.contents = ∅) :
    CollectedOf root (disk.compareMaps compareDisk root compareRoot).2.1 := by
  unfold DiskContents.compareMaps
  split
  · exact ⟨h.1, Or.inl h.2⟩
  · exact ⟨h.1, Or.inr (by simp only [h.1, h.2])⟩

/-- A comparison leaves the directory tree alone and gives the answer of `compareResult`. -/
theorem perform_diskChecks (trees : MountedTrees) (s : CheckState)
    (hnew : s.disk.mountPoint = basePath ∧ s.disk.contents = ∅) (c : Comparison) :
    ∃ disk compareDisk, CollectedOf trees.root disk ∧ ∀ host depth,
      c.perform (diskChecks host depth trees) s =
        (decide (compareResult trees s c = .ret true),
          { disk := disk, compareDisk := compareDisk, fs := s.fs,
            aborted := s.aborted || (compareResult trees s c).aborts }) := by
  cases c with
  | entriesAtPath p =>
    refine ⟨s.disk, s.compareDisk, ⟨hnew.1, Or.inl hnew.2⟩, fun host depth => ?_⟩
    simp [Comparison.perform, diskChecks, compareResult, CompareResult.aborts]
  | diskContents =>
    refine ⟨(s.disk.compareMaps s.compareDisk trees.root trees.compareRoot).2.1,
      (s.disk.compareMaps s.compareDisk trees.root trees.compareRoot).2.2,
      collectedOf_compareMaps _ _ _ _ hnew, fun host depth => ?_⟩
    simp [Comparison.perform, diskChecks, compareResult, CompareResult.aborts]
  | fileContents p offset length =>
    refine ⟨s.disk, s.compareDisk, ⟨hnew.1, Or.inl hnew.2⟩, fun host depth => ?_⟩
    cases hresult : s.disk.compareFileContents s.compareDisk trees.files trees.fresh₁ trees.fresh₂ p
        offset length <;>
      simp [Comparison.perform, diskChecks, compareResult, hresult, CompareResult.aborts]

/-- Unless a comparison finds no difference, the check touches nothing. -/
theorem checkMounted_unpassed {host : DirHost HostFs} {depth : Nat} {trees : MountedTrees}
    {recordDevice replayDevice : Path} {mods : List (List DiskMod)} {fs : HostFs}
    {result : Option CompareResult}
    (h : compared trees recordDevice replayDevice mods fs = result)
    (hpassed : result ≠ some (.ret true)) :
    checkMounted host depth trees recordDevice replayDevice mods fs =
      ⟨if result = some (.ret false) then some false else none, fs⟩ := by
  unfold compared at h
  unfold checkMounted checkDiskAndSnapshotContents
  cases hsegment : checkedSegment mods with
  | none =>
    rw [hsegment, Option.map_none] at h
    subst h
    rfl
  | some segment =>
    rw [hsegment, Option.map_some] at h
    rw [Option.map_some, checkLoop_eq]
    cases hfind : segment.find? stops with
    | none =>
      simp only [hfind] at h
      subst h
      rfl
    | some m =>
      simp only [hfind] at h
      obtain ⟨disk, compareDisk, -, hperform⟩ := perform_diskChecks trees
        (newDisks recordDevice replayDevice fs) ⟨rfl, rfl⟩ (comparisonAt m)
      subst h
      simp only [verdict, hperform]
      cases hresult : compareResult trees (newDisks recordDevice replayDevice fs) (comparisonAt m) with
      | ret value =>
        cases value with
        | true => exact absurd (congrArg some hresult) hpassed
        | false => simp [CompareResult.aborts, newDisks]
      | badAlloc => simp [CompareResult.aborts, newDisks]
      | fault => simp [CompareResult.aborts, newDisks]

/-- When it finds none, the verdict is that of the sanity checks of the record disk. -/
theorem checkMounted_passed {trees : MountedTrees} {recordDevice replayDevice : Path}
    {mods : List (List DiskMod)} {fs : HostFs}
    (h : compared trees recordDevice replayDevice mods fs = some (.ret true)) :
    ∃ disk, CollectedOf trees.root disk ∧ ∀ host depth,
      checkMounted host depth trees recordDevice replayDevice mods fs =
        ⟨(disk.sanityChecks host depth trees.root fs).1,
          (disk.sanityChecks host depth trees.root fs).2.2⟩ := by
  unfold compared at h
  obtain ⟨segment, hsegment, hresult⟩ := Option.map_eq_some_iff.mp h
  unfold checkMounted checkDiskAndSnapshotContents
  rw [hsegment]
  simp only [Option.map_some, checkLoop_eq]
  cases hfind : segment.find? stops with
  | none => simp [hfind] at hresult
  | some m =>
    simp only [hfind] at hresult ⊢
    obtain ⟨disk, compareDisk, hcollected, hperform⟩ := perform_diskChecks trees
      (newDisks recordDevice replayDevice fs) ⟨rfl, rfl⟩ (comparisonAt m)
    refine ⟨disk, hcollected, fun host depth => ?_⟩
    rw [verdict, hperform, hresult]
    simp only [decide_true, if_true, diskChecks, CompareResult.aborts, newDisks, Bool.or_false]
    rcases disk.sanityChecks host depth trees.root fs with ⟨_ | _ | _, disk', fs'⟩ <;> simp

end Tester

section Calls

variable {visited : Path → Prop} {host host' : DirHost σ}

theorem isEmptyDirOrFile_congr (h : host.AgreeOn visited host') {path : Path} (hpath : visited path)
    (s : σ) : isEmptyDirOrFile host path s = isEmptyDirOrFile host' path s := by
  rw [isEmptyDirOrFile, isEmptyDirOrFile, h.opendir path hpath]

theorem isFile_congr (h : host.AgreeOn visited host') {path : Path} (hpath : visited path) (s : σ) :
    isFile host path s = isFile host' path s := by
  rw [isFile, isFile, h.stat path hpath]

theorem deleteEntries_congr (h : host.AgreeOn visited host')
    {delete delete' : Path → σ → Option Bool × σ}
    (hdelete : ∀ q s, visited q → delete q s = delete' q s) {path : Path}
    (hpath : ∀ name, visited (path ++ slash :: name)) (names : List Path) (s : σ) :
    deleteEntries host delete path names s = deleteEntries host' delete' path names s := by
  induction names generalizing s with
  | nil => rfl
  | cons name rest ih =>
    simp only [deleteEntries, isFile_congr h (hpath name), hdelete _ _ (hpath name),
      h.rmdir _ (hpath name), ih]

/-- The recursion visits only paths composed from the one it starts at. -/
theorem deleteFiles_congr (h : host.AgreeOn visited host')
    (hdown : ∀ q name, visited q → visited (q ++ slash :: name)) (depth : Nat) {path : Path}
    (hpath : visited path) (s : σ) :
    deleteFiles host depth path s = deleteFiles host' depth path s := by
  induction depth generalizing path s with
  | zero => rfl
  | succ depth ih =>
    have hentries (names : List Path) (s : σ) :
        deleteEntries host (deleteFiles host depth) path names s =
          deleteEntries host' (deleteFiles host' depth) path names s :=
      deleteEntries_congr h (fun q s hq => ih hq s) (fun name => hdown path name hpath) names s
    simp only [deleteFiles, isEmptyDirOrFile_congr h hpath, isFile_congr h hpath,
      h.unlink path hpath, h.rmdir path hpath, h.opendir path hpath, hentries]

theorem makeDummies_congr (h : host.AgreeOn visited host') {base : Path}
    (hbase : ∀ rest, visited (base ++ rest)) (entries : List (Sigma fun _ : Path => FileAttributes))
    (s : σ) : makeDummies host base entries s = makeDummies host' base entries s := by
  induction entries generalizing s with
  | nil => rfl
  | cons entry rest ih =>
    have hfile : visited (base ++ entry.1 ++ slash :: dummyName) := by
      rw [List.append_assoc]
      exact hbase _
    simp only [makeDummies, h.openCreat _ hfile, ih]

/-- Every call of the sanity checks is on a path that starts with the record mount point. -/
theorem sanityChecks_congr {host host' : DirHost σ} (h : host.AgreeOn OnRecord host') (depth : Nat)
    (disk : DiskContents) (root : Node) (s : σ) :
    disk.sanityChecks host depth root s = disk.sanityChecks host' depth root s := by
  have hmake : disk.makeFiles host basePath root s = disk.makeFiles host' basePath root s := by
    simp only [DiskContents.makeFiles, makeDummies_congr h (List.prefix_append basePath)]
  have hdelete (s : σ) : deleteFiles host depth basePath s = deleteFiles host' depth basePath s :=
    deleteFiles_congr h (fun q name hq => hq.trans (List.prefix_append q _)) depth List.prefix_rfl s
  simp only [DiskContents.sanityChecks, hmake, hdelete]

end Calls

namespace Tester

end Tester

theorem not_onReplay {p : Path} (h : OnRecord p) : ¬ OnReplay p := by
  intro hreplay
  exact absurd (List.prefix_of_prefix_length_le h hreplay (by decide)) (by decide)

/-- A host that lists these names at the record mount point, can create every file, and cannot
remove any. -/
def lister (names : Option (List Path)) : DirHost HostFs where
  opendir p _ := if p = basePath then names else none
  stat _ _ := none
  unlink _ _ := none
  rmdir _ _ := none
  openCreat _ fs := some fs

/-- The answers of `lister`, but those of `host` for the tree under test. -/
def DirHost.withListing (host : DirHost HostFs) (names : Option (List Path)) : DirHost HostFs where
  opendir p := if OnReplay p then host.opendir p else (lister names).opendir p
  stat p := if OnReplay p then host.stat p else (lister names).stat p
  unlink p := if OnReplay p then host.unlink p else (lister names).unlink p
  rmdir p := if OnReplay p then host.rmdir p else (lister names).rmdir p
  openCreat p := if OnReplay p then host.openCreat p else (lister names).openCreat p

theorem withListing_onReplay (host : DirHost HostFs) (names : Option (List Path)) :
    host.AgreeOn OnReplay (host.withListing names) := by
  constructor <;> intro p hp <;> exact (if_pos hp).symm

theorem withListing_onRecord (host : DirHost HostFs) (names : Option (List Path)) :
    (host.withListing names).AgreeOn OnRecord (lister names) := by
  constructor <;> intro p hp <;> exact if_neg (not_onReplay hp)

theorem makeDummies_lister (names : Option (List Path)) (base : Path)
    (entries : List (Sigma fun _ : Path => FileAttributes)) (fs : HostFs) :
    makeDummies (lister names) base entries fs = (true, fs) := by
  induction entries with
  | nil => rfl
  | cons entry rest ih =>
    have hcreate (p : Path) : (lister names).openCreat p fs = some fs := rfl
    simp [makeDummies, hcreate, ih]

theorem sanityChecks_lister (names : Option (List Path)) (depth : Nat) (disk : DiskContents)
    (root : Node) (fs : HostFs) :
    (disk.sanityChecks (lister names) depth root fs).1 =
      (deleteFiles (lister names) depth basePath fs).1 := by
  simp [DiskContents.sanityChecks, DiskContents.makeFiles, makeDummies_lister]

/-- An empty record tree passes. -/
theorem deleteFiles_lister_empty (depth : Nat) (fs : HostFs) :
    (deleteFiles (lister none) (depth + 1) basePath fs).1 = some true := by
  simp [deleteFiles, isEmptyDirOrFile, lister, show basePath ≠ [] by decide]

/-- A record tree with an entry that cannot be removed does not. -/
theorem deleteFiles_lister_stuck (depth : Nat) (fs : HostFs) :
    (deleteFiles (lister (some [dot, dotdot, path ['x']])) (depth + 1) basePath fs).1 ≠
      some true := by
  cases depth with
  | zero => exact (by decide : (none : Option Bool) ≠ some true)
  | succ depth => exact (by decide : some false ≠ some true)

namespace Tester

/-- After a passed comparison two record trees get different verdicts. -/
theorem ExaminesReplay.unpassed {host : DirHost HostFs} {depth : Nat} {trees : MountedTrees}
    {recordDevice replayDevice : Path} {mods : List (List DiskMod)} {fs : HostFs}
    (h : ExaminesReplay host (depth + 1) trees recordDevice replayDevice mods fs) :
    compared trees recordDevice replayDevice mods fs ≠ some (.ret true) := by
  intro hpassed
  obtain ⟨disk, -, hrun⟩ := checkMounted_passed hpassed
  have hvalue (names : Option (List Path)) :
      (deleteFiles (lister names) (depth + 1) basePath fs).1 =
        (checkMounted host (depth + 1) trees recordDevice replayDevice mods fs).value := by
    rw [← h.onReplay _ (withListing_onReplay host names), hrun,
      sanityChecks_congr (withListing_onRecord host names), sanityChecks_lister]
  have hsame := (hvalue none).trans (hvalue (some [dot, dotdot, path ['x']])).symm
  rw [deleteFiles_lister_empty] at hsame
  exact deleteFiles_lister_stuck depth fs hsame.symm

/-- The check leaves the oracle alone and examines the tree under test exactly when no comparison
passes, and none that should reject an unusable tree throws. -/
theorem check_examines_replay_iff (host : DirHost HostFs) (depth : Nat) (trees : MountedTrees)
    (recordDevice replayDevice : Path) (mods : List (List DiskMod)) (fs : HostFs) :
    ExaminesReplay host (depth + 1) trees recordDevice replayDevice mods fs ↔
      compared trees recordDevice replayDevice mods fs ≠ some (.ret true) ∧
      (Unusable host → compared trees recordDevice replayDevice mods fs = some (.ret false)) := by
  have hrun (hpassed : compared trees recordDevice replayDevice mods fs ≠ some (.ret true))
      (host : DirHost HostFs) :
      checkMounted host (depth + 1) trees recordDevice replayDevice mods fs = _ :=
    checkMounted_unpassed rfl hpassed
  constructor
  · intro h
    constructor
    · exact h.unpassed
    · intro hunusable
      have hfalse := h.refused hunusable
      rw [hrun h.unpassed] at hfalse
      by_contra hother
      simp [hother] at hfalse
  · rintro ⟨hpassed, hreturns⟩
    constructor
    · intro l _
      rw [hrun hpassed]
    · intro host' _
      rw [hrun hpassed, hrun hpassed]
    · intro hunusable
      rw [hrun hpassed, if_pos (hreturns hunusable)]

/-- Where a comparison passes on a record tree without links, the oracle is emptied and the check
returns true, whatever the calls on the tree under test answer. -/
theorem check_empties_oracle (r : Readdir) (host : DirHost HostFs)
    (hhost : host.AgreeOn OnRecord (HostFs.host r)) (trees : MountedTrees)
    (recordDevice replayDevice : Path) (mods : List (List DiskMod)) (fs : HostFs)
    (hpassed : compared trees recordDevice replayDevice mods fs = some (.ret true))
    (hroot : fs.entry HostFs.mountRoot = some .dir) (hwf : trees.root.WellFormed)
    (hpresents : trees.root.Presents fs HostFs.mountRoot)
    (hlinks : ∀ l target, HostFs.mountRoot <:+ l → fs.entry l ≠ some (.link target))
    (hdummies : fs.DummiesRegular) :
    ∃ bound, ∀ depth ≥ bound,
      (checkMounted host depth trees recordDevice replayDevice mods fs).value = some true ∧
      (checkMounted host depth trees recordDevice replayDevice mods fs).fs.children
        HostFs.mountRoot = [] := by
  obtain ⟨disk, ⟨hmount, hcontents⟩, hrun⟩ := checkMounted_passed hpassed
  have hbefore : CollectedBefore fs disk.contents := by
    cases hcontents with
    | inl hempty => exact Or.inl hempty
    | inr hcollected => exact Or.inr ⟨trees.root, hwf, hpresents, hcollected⟩
  obtain ⟨disk', fs₁, hmake, hdummied, hdirs⟩ :=
    makeFiles_dummies r hmount hwf hpresents hdummies hbefore
  obtain ⟨bound, hbound⟩ := deleteFiles_dummied r hroot hlinks hdummied hdirs
  refine ⟨bound, fun depth hdepth => ?_⟩
  obtain ⟨fs', hdelete, -, hemptied⟩ := hbound depth hdepth
  rw [hrun, sanityChecks_congr hhost, DiskContents.sanityChecks, hmake]
  simp only [hdelete]
  exact ⟨trivial, hemptied⟩

end Tester

/-- A directory and a file under each mount point. -/
def mountedTwice : HostFs where
  entries := [([HostFs.mnt], .dir), (HostFs.mountRoot, .dir),
    (path ['d'] :: HostFs.mountRoot, .dir), (path ['f'] :: HostFs.mountRoot, .regular),
    ([path ['p', 'm', 'e', 'm', '1'], HostFs.mnt], .dir),
    ([path ['d'], path ['p', 'm', 'e', 'm', '1'], HostFs.mnt], .dir),
    ([path ['f'], path ['p', 'm', 'e', 'm', '1'], HostFs.mnt], .regular)]
  cwd := []
  nodup := by decide
  closed := by
    intro x hx
    simp only [List.mem_cons, List.not_mem_nil, or_false] at hx
    rcases hx with rfl | rfl | rfl | rfl | rfl | rfl | rfl <;>
      exact ⟨_, _, rfl, by decide, by decide⟩

/-- The tree under test refuses every change. -/
def readOnlyReplay : DirHost HostFs where
  opendir p fs := (HostFs.host HostFs.inOrder).opendir p fs
  stat p fs := (HostFs.host HostFs.inOrder).stat p fs
  unlink p fs := if OnReplay p then none else (HostFs.host HostFs.inOrder).unlink p fs
  rmdir p fs := if OnReplay p then none else (HostFs.host HostFs.inOrder).rmdir p fs
  openCreat p fs := if OnReplay p then none else (HostFs.host HostFs.inOrder).openCreat p fs

def alikeTrees : MountedTrees where
  root := smallNode
  compareRoot := smallNode
  stats _ := none
  digests _ := []
  files _ := none
  fresh₁ _ := 0
  fresh₂ _ := 0

theorem readOnlyReplay_onRecord : readOnlyReplay.AgreeOn OnRecord (HostFs.host HostFs.inOrder) := by
  constructor <;> intro p hp <;> funext fs
  · rfl
  · rfl
  · exact if_neg (not_onReplay hp)
  · exact if_neg (not_onReplay hp)
  · exact if_neg (not_onReplay hp)

theorem mountedTwice_kinds {l : Loc} {e : Entry} (h : mountedTwice.entry l = some e) :
    (∀ target, e ≠ .link target) ∧ l.head? ≠ some dummyName := by
  apply kinds_of_entries _ h
  intro x hx
  simp only [mountedTwice, List.mem_cons, List.not_mem_nil, or_false] at hx
  rcases hx with rfl | rfl | rfl | rfl | rfl | rfl | rfl <;> exact ⟨by simp, by decide⟩

theorem mountedTwice_presents : smallNode.Presents mountedTwice HostFs.mountRoot := by
  refine ⟨by decide, rfl, rfl, by decide, .inl rfl, .inl rfl, .inr ?_, .inr ?_, trivial⟩
  · exact ⟨by decide, rfl, rfl, by decide, .inl rfl, .inl rfl, trivial⟩
  · exact ⟨by decide, rfl⟩

theorem alikeTrees_compared : Tester.compared alikeTrees recordDisk.diskPath replayDisk.diskPath
    [[{ modType := .kSyncMod }], []] mountedTwice = some (.ret true) := by
  have hequal : (recordDisk.compareMaps replayDisk smallNode smallNode).1 = true := by
    rw [compareMaps_eq]
    decide +kernel
  exact congrArg (fun value => some (CompareResult.ret value)) hequal

/-- After a `sync`, an image that cannot be changed at all passes, and the oracle is emptied. -/
theorem oracle_emptied_small :
    Unusable readOnlyReplay ∧ mountedTwice.children HostFs.mountRoot = [path ['d'], path ['f']] ∧
    ∃ bound, ∀ depth ≥ bound,
      let verdict := Tester.checkMounted readOnlyReplay depth alikeTrees recordDisk.diskPath
        replayDisk.diskPath [[{ modType := .kSyncMod }], []] mountedTwice
      verdict.value = some true ∧ verdict.fs.children HostFs.mountRoot = [] := by
  constructor
  · exact Or.inl fun p fs hp => if_pos hp
  constructor
  · decide +kernel
  apply Tester.check_empties_oracle HostFs.inOrder readOnlyReplay readOnlyReplay_onRecord alikeTrees
    recordDisk.diskPath replayDisk.diskPath _ mountedTwice alikeTrees_compared (by decide)
    smallNode_wellFormed mountedTwice_presents
  · intro l target _ he
    exact (mountedTwice_kinds he).1 target rfl
  · intro d e _ he
    exact absurd rfl (mountedTwice_kinds he).2

end PMTester
