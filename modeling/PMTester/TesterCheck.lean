import PMTester.DiskMod

/-!
# The automatic check

`check_disk_and_snapshot_contents` looks for the operation that the check is
about in the segment before the last one and stops at the first mod of a
suitable type. `Performs` says which comparison it makes, over any disks.
-/
namespace PMTester

open Word

/-- The comparisons of `DiskContents`, over the state of the two disks. -/
structure DiskChecks (τ : Type) where
  compareEntriesAtPath : Path → τ → Bool × τ
  compareDiskContents : τ → Bool × τ
  compareFileContents : Path → Int → Int → τ → Bool × τ
  sanityChecks : τ → Bool × τ

/-- A comparison with its arguments. -/
inductive Comparison where
  | entriesAtPath (path : Path)
  | diskContents
  | fileContents (path : Path) (offset length : Int)
  deriving DecidableEq, Repr

def Comparison.perform {τ : Type} (d : DiskChecks τ) : Comparison → τ → Bool × τ
  | .entriesAtPath p => d.compareEntriesAtPath p
  | .diskContents => d.compareDiskContents
  | .fileContents p offset length => d.compareFileContents p offset length

namespace Tester

/-- A comparison, then the sanity checks if it found no difference. -/
def verdict {τ : Type} (d : DiskChecks τ) (compare : τ → Bool × τ) (s : τ) : Bool × τ :=
  let (ret, s) := compare s
  if ret then
    let (sane, s) := d.sanityChecks s
    if sane = false then (false, s) else (ret, s)
  else (ret, s)

/-- `path.erase(0, 10)`: the path below the mount point. -/
def belowMountPoint (path : Path) : Path := path.drop 10

/-- The loop over the mods of the segment. The arguments of `compare_file_contents` are `int`. -/
def checkLoop {τ : Type} (d : DiskChecks τ) : List DiskMod → τ → Bool × τ
  | [], s => (false, s)
  | lastMod :: rest, s =>
    if lastMod.modType = .kFsyncMod then
      verdict d (d.compareEntriesAtPath (belowMountPoint lastMod.path)) s
    else if lastMod.modType = .kSyncMod then verdict d d.compareDiskContents s
    else if lastMod.modType = .kDataMod ∨ lastMod.modType = .kSyncFileRangeMod then
      verdict d (d.compareFileContents (belowMountPoint lastMod.path)
        (toInt lastMod.fileModLocation.toNat) (toInt lastMod.fileModLen.toNat)) s
    else checkLoop d rest s

/-- `mods_.at(num_mods - 1)`, with `num_mods` an `int`; `none` when the index is out of range. -/
def checkedSegment (mods : List (List DiskMod)) : Option (List DiskMod) :=
  let numMods := toInt ((mods.length : Int) - 1)
  if numMods - 1 < 0 then none else mods[(numMods - 1).toNat]?

/-- `none` when `at` throws. -/
def checkDiskAndSnapshotContents {τ : Type} (d : DiskChecks τ) (mods : List (List DiskMod))
    (s : τ) : Option (Bool × τ) :=
  (checkedSegment mods).map fun segment => checkLoop d segment s

/-- The check is this comparison, followed by the sanity checks. -/
def Performs (mods : List (List DiskMod)) (c : Comparison) : Prop :=
  ∀ (τ : Type) (d : DiskChecks τ) (s : τ),
    checkDiskAndSnapshotContents d mods s = some (verdict d (c.perform d) s)

/-- The types at which the loop stops. -/
def stops (m : DiskMod) : Bool :=
  decide (m.modType = .kFsyncMod ∨ m.modType = .kSyncMod ∨ m.modType = .kDataMod ∨
    m.modType = .kSyncFileRangeMod)

/-- The operations that persist something: `fsync`, `sync`, `sync_file_range` and
synchronous `msync`. -/
def persists (m : DiskMod) : Bool :=
  decide (m.modType = .kFsyncMod ∨ m.modType = .kSyncMod ∨ m.modType = .kSyncFileRangeMod ∨
    m.modType = .kDataMod ∧ m.modOpts = .kMsSyncOpt)

/-- The last persistence operation of the segment that ends at the last checkpoint. -/
def lastPersistence (mods : List (List DiskMod)) : Option DiskMod :=
  mods.dropLast.getLast?.bind fun segment => (segment.filter persists).getLast?

/-- The comparison that belongs to a persistence operation. -/
def comparisonFor (m : DiskMod) : Comparison :=
  if m.modType = .kFsyncMod then .entriesAtPath (belowMountPoint m.path)
  else if m.modType = .kSyncMod then .diskContents
  else .fileContents (belowMountPoint m.path) m.fileModLocation.toNat m.fileModLen.toNat

/-- The comparison the loop makes at a mod it stops at. -/
def comparisonAt (m : DiskMod) : Comparison :=
  if m.modType = .kFsyncMod then .entriesAtPath (belowMountPoint m.path)
  else if m.modType = .kSyncMod then .diskContents
  else .fileContents (belowMountPoint m.path) (toInt m.fileModLocation.toNat)
    (toInt m.fileModLen.toNat)

/-- Two mods ask for the same check: the first is of the same kind, on the same path below the
mount point, and its range, cut to `int`, is the range of the other. -/
def SameCheck (first last : DiskMod) : Prop :=
  if last.modType = .kFsyncMod then
    first.modType = .kFsyncMod ∧ belowMountPoint first.path = belowMountPoint last.path
  else if last.modType = .kSyncMod then first.modType = .kSyncMod
  else
    (first.modType = .kDataMod ∨ first.modType = .kSyncFileRangeMod) ∧
      belowMountPoint first.path = belowMountPoint last.path ∧
      toInt first.fileModLocation.toNat = last.fileModLocation.toNat ∧
      toInt first.fileModLen.toNat = last.fileModLen.toNat

instance (first last : DiskMod) : Decidable (SameCheck first last) := by
  unfold SameCheck
  infer_instance

/-- The loop makes the comparison of the first mod it stops at. -/
theorem checkLoop_eq {τ : Type} (d : DiskChecks τ) (segment : List DiskMod) (s : τ) :
    checkLoop d segment s =
      match segment.find? stops with
      | none => (false, s)
      | some m => verdict d ((comparisonAt m).perform d) s := by
  induction segment with
  | nil => rfl
  | cons m rest ih =>
    rw [List.find?_cons]
    cases ht : m.modType <;>
      simp [checkLoop, stops, comparisonAt, Comparison.perform, ht, ih]

/-- Disks that record which comparison is made on them, and find them equal. -/
def recording : DiskChecks (List Comparison) where
  compareEntriesAtPath p s := (true, s ++ [.entriesAtPath p])
  compareDiskContents s := (true, s ++ [.diskContents])
  compareFileContents p offset length s := (true, s ++ [.fileContents p offset length])
  sanityChecks s := (true, s)

theorem verdict_recording (c : Comparison) :
    verdict recording (c.perform recording) [] = (true, [c]) := by
  cases c <;> rfl

/-- The check performs a comparison exactly when it is the one of the first mod that the loop
stops at in the segment it looks at. -/
theorem performs_iff (mods : List (List DiskMod)) (c : Comparison) :
    Performs mods c ↔
      ∃ first, (checkedSegment mods).bind (·.find? stops) = some first ∧ comparisonAt first = c := by
  constructor
  · intro h
    have hrec := h (List Comparison) recording []
    rw [verdict_recording] at hrec
    simp only [checkDiskAndSnapshotContents, checkLoop_eq] at hrec
    cases hseg : checkedSegment mods with
    | none => simp [hseg] at hrec
    | some segment =>
      cases hfind : segment.find? stops with
      | none => simp [hseg, hfind] at hrec
      | some first =>
        refine ⟨first, by simp [hfind], ?_⟩
        simpa [hseg, hfind, verdict_recording] using hrec
  · rintro ⟨first, hfirst, rfl⟩ τ d s
    obtain ⟨segment, hseg, hfind⟩ := Option.bind_eq_some_iff.mp hfirst
    simp [checkDiskAndSnapshotContents, checkLoop_eq, hseg, hfind]

theorem comparisonAt_eq_iff (first last : DiskMod) (hfirst : stops first = true)
    (hlast : persists last = true) :
    comparisonAt first = comparisonFor last ↔ SameCheck first last := by
  unfold comparisonAt comparisonFor SameCheck
  simp only [stops, persists] at hfirst hlast
  cases hl : last.modType <;> cases hf : first.modType <;> simp_all

/-- The check performs the comparison of the last persistence operation exactly when the first
mod at which its loop stops asks for the same check. -/
theorem check_performs_last (mods : List (List DiskMod)) (last : DiskMod)
    (hlast : lastPersistence mods = some last) :
    Performs mods (comparisonFor last) ↔
      ∃ first, (checkedSegment mods).bind (·.find? stops) = some first ∧ SameCheck first last := by
  have hpersists : persists last = true := by
    obtain ⟨segment, -, hlast⟩ := Option.bind_eq_some_iff.mp hlast
    exact (List.mem_filter.mp (List.mem_of_getLast? hlast)).2
  rw [performs_iff]
  apply exists_congr
  intro first
  apply and_congr_right
  intro hfirst
  obtain ⟨segment, -, hfind⟩ := Option.bind_eq_some_iff.mp hfirst
  exact comparisonAt_eq_iff first last (List.find?_some hfind) hpersists

/-- The mod of a synced file in the root of the record device. -/
def fsyncOf (name : Char) : DiskMod :=
  { path := path ['/', 'm', 'n', 't', '/', 'p', 'm', 'e', 'm', '0', '/', name],
    modType := .kFsyncMod }

theorem check_performs_last_fsync :
    Performs [[fsyncOf 'b'], []] (comparisonFor (fsyncOf 'b')) :=
  (check_performs_last [[fsyncOf 'b'], []] (fsyncOf 'b') (by decide)).mpr
    ⟨fsyncOf 'b', by decide, by decide⟩

/-- Of two synced files, the check compares the first. -/
theorem check_performs_first_fsync :
    lastPersistence [[fsyncOf 'a', fsyncOf 'b'], []] = some (fsyncOf 'b') ∧
      ¬ Performs [[fsyncOf 'a', fsyncOf 'b'], []] (comparisonFor (fsyncOf 'b')) := by
  refine ⟨by decide, fun h => ?_⟩
  have hrecord := h (List Comparison) recording []
  exact absurd hrecord (by decide)

end Tester

end PMTester
