import PMTester.OracleCheck
import PMTester.Verdict

/-!
# A run on mounted trees

The check of a run is made on the trees of the two devices. What the run counts
is the answer of its one comparison: the sanity checks, which are made on the
record tree, never change it, but they empty that tree.
-/
namespace PMTester

open Script

namespace Tester

theorem perform_returns (host : DirHost HostFs) (depth : Nat) (trees : MountedTrees)
    {s : CheckState} {c : Comparison} {value : Bool} (h : compareResult trees s c = .ret value) :
    (c.perform (diskChecks host depth trees) s).1 = value := by
  cases c with
  | entriesAtPath p => exact CompareResult.ret.inj h
  | diskContents => exact CompareResult.ret.inj h
  | fileContents p offset length =>
    have hfile : s.disk.compareFileContents s.compareDisk trees.files trees.fresh₁ trees.fresh₂ p
        offset length = .ret value := h
    simp only [Comparison.perform, diskChecks, hfile]

/-- The comparisons of the mounted trees. -/
def comparing (host : DirHost HostFs) (depth : Nat) (trees : MountedTrees) :
    Comparing (diskChecks host depth trees) where
  result c s := compareResult trees s c
  ret h := perform_returns host depth trees h

end Tester

/-- The check that a run has made on two trees is the check of the recorded mods. -/
theorem Checked.mounted {host : DirHost HostFs} {depth : Nat} {trees : MountedTrees}
    {recordDevice replayDevice : Path} {mods : List DiskMod} {fs : HostFs} {suite : TestSuiteResult}
    {l : Ledger CheckState}
    (h : Checked (Tester.comparing host depth trees) mods
      (Tester.newDisks recordDevice replayDevice fs) suite l) (hmounted : l.mountFailed = false) :
    ∃ equal, suite = ({} : TestSuiteResult).tallyTimingResult (checkInfo equal) ∧
      Tester.checkMounted host depth trees recordDevice replayDevice (segments mods) fs =
        ⟨if l.disks.aborted then none else some equal, l.disks.fs⟩ := by
  obtain ⟨equal, hcheck, -, -, -, hsuite⟩ := h.checked hmounted
  refine ⟨equal, hsuite, ?_⟩
  rw [Tester.checkMounted, hcheck]

/-- The comparison of a check that was made has come back. -/
theorem Checked.returns {host : DirHost HostFs} {depth : Nat} {trees : MountedTrees}
    {recordDevice replayDevice : Path} {mods : List DiskMod} {fs : HostFs} {suite : TestSuiteResult}
    {l : Ledger CheckState}
    (h : Checked (Tester.comparing host depth trees) mods
      (Tester.newDisks recordDevice replayDevice fs) suite l) (hmounted : l.mountFailed = false) :
    ∃ value,
      Tester.compared trees recordDevice replayDevice (segments mods) fs = some (.ret value) := by
  obtain ⟨equal, hcheck, hcompared, hcame, -⟩ := h.checked hmounted
  obtain ⟨segment, hsegment, -⟩ := Option.map_eq_some_iff.mp hcheck
  rw [Tester.compared, hsegment, Option.map_some]
  rw [hsegment, Option.bind_some] at hcompared
  cases hfind : segment.find? Tester.stops with
  | none => exact ⟨false, rfl⟩
  | some m =>
    obtain ⟨value, hvalue⟩ := hcame (Tester.comparisonAt m) (by simp [hcompared, hfind])
    exact ⟨value, congrArg some hvalue⟩

/-- The trees as they are mounted: the record tree is the one that its calls are answered from, it has
no links, and only regular files are called like a dummy. -/
structure Mounts (r : Readdir) (host : DirHost HostFs) (trees : MountedTrees) (fs : HostFs) : Prop where
  record : host.AgreeOn OnRecord (HostFs.host r)
  root : fs.entry HostFs.mountRoot = some .dir
  wellFormed : trees.root.WellFormed
  presents : trees.root.Presents fs HostFs.mountRoot
  links : ∀ l target, HostFs.mountRoot <:+ l → fs.entry l ≠ some (.link target)
  dummies : fs.DummiesRegular

/-- The check returns what its comparison answers, and empties the record tree after true. -/
theorem Mounts.check {r : Readdir} {host : DirHost HostFs} {trees : MountedTrees} {fs : HostFs}
    (h : Mounts r host trees fs) (recordDevice replayDevice : Path) (mods : List (List DiskMod))
    {value : Bool}
    (hcompared : Tester.compared trees recordDevice replayDevice mods fs = some (.ret value)) :
    ∃ bound, ∀ depth ≥ bound,
      let verdict := Tester.checkMounted host depth trees recordDevice replayDevice mods fs
      verdict.value = some value ∧
        if value then verdict.fs.children HostFs.mountRoot = [] else verdict.fs = fs := by
  cases value with
  | true =>
    obtain ⟨bound, hbound⟩ := Tester.check_empties_oracle r host h.record trees recordDevice
      replayDevice mods fs hcompared h.root h.wellFormed h.presents h.links h.dummies
    exact ⟨bound, fun depth hdepth => by simpa using hbound depth hdepth⟩
  | false =>
    refine ⟨0, fun depth _ => ?_⟩
    rw [Tester.checkMounted_unpassed hcompared (by simp)]
    simp

/-- What is counted after a check of the mods. -/
theorem Mounts.counted {r : Readdir} {host : DirHost HostFs} {trees : MountedTrees} {fs : HostFs}
    (h : Mounts r host trees fs) (recordDevice replayDevice : Path) (mods : List DiskMod) :
    ∃ bound, ∀ depth ≥ bound, ∀ suite (l : Ledger CheckState),
      Checked (Tester.comparing host depth trees) mods
        (Tester.newDisks recordDevice replayDevice fs) suite l →
      l.mountFailed = false → ∃ value,
        Tester.compared trees recordDevice replayDevice (segments mods) fs = some (.ret value) ∧
        suite = ({} : TestSuiteResult).tallyTimingResult (checkInfo value) ∧
        if value then l.disks.fs.children HostFs.mountRoot = [] else l.disks.fs = fs := by
  by_cases hreturns : ∃ value,
      Tester.compared trees recordDevice replayDevice (segments mods) fs = some (.ret value)
  · obtain ⟨value, hcompared⟩ := hreturns
    obtain ⟨bound, hbound⟩ := h.check recordDevice replayDevice _ hcompared
    refine ⟨bound, fun depth hdepth suite l hchecked hmounted => ⟨value, hcompared, ?_⟩⟩
    obtain ⟨equal, hsuite, hmade⟩ := hchecked.mounted hmounted
    obtain ⟨hvalue, hleft⟩ := hbound depth hdepth
    rw [hmade] at hvalue hleft
    have hequal : equal = value := by
      cases haborted : l.disks.aborted with
      | true => simp [haborted] at hvalue
      | false => simpa [haborted] using hvalue
    exact ⟨by rw [hsuite, hequal], hleft⟩
  · exact ⟨0, fun _ _ _ _ hchecked hmounted => absurd (hchecked.returns hmounted) hreturns⟩

/-- A run that returns 0 on a record tree without links counts what its comparison has answered.
After an answer of true the record tree is empty, after false it is as it was. -/
theorem run_counts_comparison (r : Readdir) (host : DirHost HostFs) (trees : MountedTrees)
    (fs : HostFs) (hmounts : Mounts r host trees fs) (mods : List DiskMod)
    (hmods : ∀ m ∈ mods, m.Writable) (opts : List Opt) (s : Settings)
    (hopts : Settings.parse opts {} = some s) :
    ∃ bound, ∀ depth ≥ bound, ∀ rounds, (mods.flatMap DiskMod.format).length < rounds →
      ∀ (fresh : SockMessage) (files : List Path) (l : Ledger CheckState),
      ComesTo (ledgerEnv (Tester.comparing host depth trees) (ReadsLog mods))
        (Main.main rounds fresh opts files)
        (.fresh (Tester.newDisks s.recordDevicePath s.replayDevicePath fs)) (.returned 0) l →
      l.mountFailed = false → ∃ value,
        Tester.compared trees s.recordDevicePath s.replayDevicePath (segments mods) fs =
          some (.ret value) ∧
        l.stats = [({} : TestSuiteResult).tallyTimingResult (checkInfo value)] ∧
        if value then l.disks.fs.children HostFs.mountRoot = [] else l.disks.fs = fs := by
  obtain ⟨bound, hbound⟩ := hmounts.counted s.recordDevicePath s.replayDevicePath mods
  refine ⟨bound, fun depth hdepth rounds hr fresh files l hends hmounted => ?_⟩
  obtain ⟨suite, hchecked, hstats⟩ :=
    (wp_main (fun _ h => h) hmods hr fresh hopts files _).ends hends
  obtain ⟨value, hcompared, hsuite, hleft⟩ := hbound depth hdepth suite l hchecked hmounted
  exact ⟨value, hcompared, by rw [hstats, hsuite], hleft⟩

/-- A `sync` before a checkpoint. -/
def syncMods : List DiskMod := [{ modType := .kSyncMod }, { modType := .kCheckpointMod }]

theorem mounts_small : Mounts HostFs.inOrder readOnlyReplay alikeTrees mountedTwice where
  record := readOnlyReplay_onRecord
  root := by decide
  wellFormed := smallNode_wellFormed
  presents := mountedTwice_presents
  links := fun _ target _ he => (mountedTwice_kinds he).1 target rfl
  dummies := fun _ _ _ he => absurd rfl (mountedTwice_kinds he).2

theorem writable_syncMods : ∀ m ∈ syncMods, m.Writable := by
  simp only [syncMods, List.forall_mem_cons, List.not_mem_nil, false_implies, implies_true, and_true]
  exact ⟨⟨⟨by decide, by decide, by decide⟩, by decide, by decide, by decide⟩,
    ⟨⟨by decide, by decide, by decide⟩, by decide, by decide, by decide⟩⟩

theorem syncMods_compared : Tester.compared alikeTrees ({} : Settings).recordDevicePath
    ({} : Settings).replayDevicePath (segments syncMods) mountedTwice = some (.ret true) := by
  have hsegments : segments syncMods = [[{ modType := .kSyncMod }], []] := by decide
  rw [hsegments]
  exact alikeTrees_compared

/-- The disks of the run. -/
def syncDisks : CheckState :=
  Tester.newDisks ({} : Settings).recordDevicePath ({} : Settings).replayDevicePath mountedTwice

/-- An image that differs in nothing and refuses every change is counted as passed, and the record
tree is empty after the run. -/
theorem run_counts_comparison_sync : ∃ depth l,
    ComesTo (ledgerEnv (Tester.comparing readOnlyReplay depth alikeTrees) (ReadsLog syncMods))
      (Main.main 100 ClientSocket.newMessage [] [[]]) (.fresh syncDisks) (.returned 0) l ∧
    l.stats.map (·.timingResults.numPassed) = [1] ∧
    l.disks.fs.children HostFs.mountRoot = [] := by
  obtain ⟨bound, hbound⟩ := run_counts_comparison HostFs.inOrder readOnlyReplay alikeTrees
    mountedTwice mounts_small syncMods writable_syncMods [] {} rfl
  have hlength : (syncMods.flatMap DiskMod.format).length < 99 + 1 := by decide +kernel
  have hsegment : Tester.checkedSegment (segments syncMods) = some (syncMods.take 1) := by decide
  have hreturns : ∀ m ∈ (syncMods.take 1).find? Tester.stops, ∃ value,
      (Tester.comparing readOnlyReplay bound alikeTrees).result (Tester.comparisonAt m) syncDisks =
        .ret value := by
    rintro m ⟨⟩
    exact ⟨_, rfl⟩
  obtain ⟨l, hends, hmounted⟩ := quietRun_ends (readsLog_whole writable_syncMods)
    (readsLog_whole writable_syncMods) writable_syncMods hlength hsegment syncDisks hreturns
  obtain ⟨value, hcompared, hstats, hleft⟩ := hbound bound (Nat.le_refl _) 100 hlength
    ClientSocket.newMessage [[]] l hends hmounted
  cases syncMods_compared.symm.trans hcompared
  refine ⟨bound, l, hends, ?_, hleft⟩
  rw [hstats]
  rfl

end PMTester
