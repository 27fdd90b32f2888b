import PMTester.MountedRun

/-!
# The check of a perfect replay

A replay that is a copy of the record device need not pass its check. It passes,
whatever the new buffers of the file comparison hold, exactly when the first mod
at which the check stops can be looked up on the record tree: the path of an
`fsync` must still be there, and a range that was written must be read in full
or hold a NUL.
-/
namespace PMTester

/-- The tree under test answers like the record tree. -/
structure Mirrored (trees : MountedTrees) : Prop where
  root : trees.compareRoot = trees.root
  stats : ∀ p, trees.stats (replayDisk.mountPoint ++ p) = trees.stats (basePath ++ p)
  digests : ∀ p, trees.digests (replayDisk.mountPoint ++ p) = trees.digests (basePath ++ p)
  files : ∀ p, trees.files (replayDisk.mountPoint ++ p) = trees.files (basePath ++ p)

def MountedTrees.withBuffers (trees : MountedTrees) (fresh₁ fresh₂ : Memory.Mem) : MountedTrees :=
  { trees with fresh₁ := fresh₁, fresh₂ := fresh₂ }

/-- What a comparison must find on the record tree. -/
def Settled (trees : MountedTrees) : Comparison → Prop
  | .entriesAtPath p => trees.stats (basePath ++ p) ≠ none
  | .diskContents => True
  | .fileContents p offset length =>
    ∃ data, trees.files (basePath ++ p) = some (some data) ∧ 0 ≤ length ∧ length < 2 ^ 31 - 1 ∧
      Closed length.toNat (delivered data offset length.toNat)

section

variable {trees : MountedTrees} (hmirrored : Mirrored trees)

include hmirrored

theorem compareEntriesAtPath_mirrored {disk compareDisk : DiskContents}
    (hdisk : disk.diskPath ≠ compareDisk.diskPath)
    (hmount : compareDisk.mountPoint = replayDisk.mountPoint) (p : Path) :
    disk.compareEntriesAtPath compareDisk trees.stats trees.digests p = true ↔
      trees.stats (basePath ++ p) ≠ none := by
  unfold DiskContents.compareEntriesAtPath
  rw [if_neg hdisk, hmount]
  simp only [hmirrored.stats, hmirrored.digests]
  cases trees.stats (basePath ++ p) with
  | none => simp
  | some st =>
    simp [FileAttributes.setStatAttr, FileAttributes.setMd5sum, FileAttributes.compareMd5sum]

theorem compareMaps_mirrored {disk compareDisk : DiskContents}
    (hdisk : disk.diskPath ≠ compareDisk.diskPath) (hmount : disk.mountPoint = basePath)
    (hnew : disk.contents = ∅) (hnew' : compareDisk.contents = ∅) (hwf : trees.root.WellFormed) :
    (disk.compareMaps compareDisk trees.root trees.compareRoot).1 = true := by
  rw [hmirrored.root, compareMaps_eq, compare_iff disk compareDisk _ _ hdisk hmount hnew hnew' hwf hwf]
  exact fun _ => Iff.rfl

/-- A file is found equal to itself, whatever the buffers held, when nothing of them is left in the
strings. -/
theorem compareFileContents_mirrored {disk compareDisk : DiskContents}
    (hdisk : disk.diskPath ≠ compareDisk.diskPath)
    (hmount : compareDisk.mountPoint = replayDisk.mountPoint) (p : Path) (offset : Int) (n : Nat) :
    (∀ fresh₁ fresh₂, disk.compareFileContents compareDisk trees.files fresh₁ fresh₂ p offset
      (Word.toInt n) = .ret true) ↔ Settled trees (.fileContents p offset (Word.toInt n)) := by
  simp only [DiskContents.compareFileContents, Settled, if_neg hdisk, hmount, hmirrored.files]
  cases hfile : trees.files (basePath ++ p) with
  | none => simp
  | some file =>
    cases file with
    | none => simp
    | some data =>
      have hundecided (r : List UInt8) (k : Nat) : Undecided k r r ↔ ¬ Closed k r := by
        unfold Undecided
        rw [or_self, and_iff_left_iff_imp]
        intro hopen
        rw [cStr_eq_self (not_or.mp hopen).2]
      have hagree := buffers_agree_iff data data offset (Word.toInt n).toNat True
      simp only [hundecided, Classical.not_not, iff_true, and_true] at hagree
      have hlt := Word.toInt_lt n
      simp only [compareBuffers, size_negative_iff, Option.some.injEq, exists_eq_left']
      by_cases hnegative : Word.toInt n < -1 ∨ Word.toInt n = 2 ^ 31 - 1
      · simp only [if_pos hnegative, reduceCtorEq, forall_const, false_iff]
        omega
      · by_cases hone : Word.toInt n < 0
        · simp only [if_neg hnegative, if_pos hone, reduceCtorEq, forall_const, false_iff]
          omega
        · simp only [if_neg hnegative, if_neg hone, CompareResult.ret.injEq, decide_eq_true_eq,
            hagree]
          constructor
          · exact fun hclosed => ⟨by omega, by omega, hclosed⟩
          · exact fun h => h.2.2

section

variable {recordDevice replayDevice : Path} (hdevices : recordDevice ≠ replayDevice)
  (hwf : trees.root.WellFormed)

include hdevices hwf

theorem compareResult_mirrored_iff (fs : HostFs) (m : DiskMod) :
    (∀ fresh₁ fresh₂, Tester.compareResult (trees.withBuffers fresh₁ fresh₂)
        (Tester.newDisks recordDevice replayDevice fs) (Tester.comparisonAt m) = .ret true) ↔
      Settled trees (Tester.comparisonAt m) := by
  have hdisk : (Tester.newDisks recordDevice replayDevice fs).disk.diskPath ≠
      (Tester.newDisks recordDevice replayDevice fs).compareDisk.diskPath := hdevices
  unfold Tester.comparisonAt
  split_ifs
  · simp only [Tester.compareResult, MountedTrees.withBuffers, CompareResult.ret.injEq, forall_const]
    exact compareEntriesAtPath_mirrored hmirrored hdisk rfl _
  · simp only [Tester.compareResult, MountedTrees.withBuffers, CompareResult.ret.injEq, forall_const,
      Settled, iff_true]
    exact compareMaps_mirrored hmirrored hdisk rfl rfl rfl hwf
  · exact compareFileContents_mirrored hmirrored hdisk rfl _ _ _

/-- The comparison of the check passes for every content of the buffers. -/
theorem compared_mirrored_iff (mods : List (List DiskMod)) (fs : HostFs) :
    (∀ fresh₁ fresh₂, Tester.compared (trees.withBuffers fresh₁ fresh₂) recordDevice replayDevice mods
        fs = some (.ret true)) ↔
      ∃ segment m, Tester.checkedSegment mods = some segment ∧
        segment.find? Tester.stops = some m ∧ Settled trees (Tester.comparisonAt m) := by
  unfold Tester.compared
  cases Tester.checkedSegment mods with
  | none => simp
  | some segment =>
    cases hfind : segment.find? Tester.stops with
    | none => simp [hfind]
    | some m =>
      simp only [Option.map_some, hfind, Option.some.injEq]
      rw [compareResult_mirrored_iff hmirrored hdevices hwf fs m]
      constructor
      · exact fun hsettled => ⟨segment, m, rfl, hfind, hsettled⟩
      · rintro ⟨_, m', rfl, hfind', hsettled⟩
        rw [hfind, Option.some.injEq] at hfind'
        rwa [hfind']

end

end

/-- The check passes, with enough rounds for its recursion, just when its comparison does. -/
theorem Mounts.passes_iff {r : Readdir} {host : DirHost HostFs} {trees : MountedTrees} {fs : HostFs}
    (h : Mounts r host trees fs) (recordDevice replayDevice : Path) (mods : List (List DiskMod)) :
    (∃ bound, ∀ depth ≥ bound,
        (Tester.checkMounted host depth trees recordDevice replayDevice mods fs).value = some true) ↔
      Tester.compared trees recordDevice replayDevice mods fs = some (.ret true) := by
  constructor
  · rintro ⟨bound, hbound⟩
    by_contra hnot
    have hvalue := hbound bound (Nat.le_refl _)
    rw [Tester.checkMounted_unpassed rfl hnot] at hvalue
    split at hvalue
    · cases hvalue
    · cases hvalue
  · intro hcompared
    obtain ⟨bound, hbound⟩ := h.check recordDevice replayDevice mods hcompared
    exact ⟨bound, fun depth hdepth => (hbound depth hdepth).1⟩

/-- A file that is synced and then removed before a checkpoint. -/
def removedMods : List (List DiskMod) :=
  [[{ path := path "/mnt/pmem0/g".toList, modType := .kFsyncMod },
    { path := path "/mnt/pmem0/g".toList, modType := .kRemoveMod }], []]

end PMTester
