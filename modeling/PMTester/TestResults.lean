import Mathlib.Algebra.Ring.Nat
import Mathlib.Algebra.Ring.Int.Defs
import PMTester.Types

/-!
# Test results and their counters

What `test_check` notes about one test, the verdict that `GetTestResult` makes of
it, and the counters of the suite. The counters are `unsigned int`.
-/
namespace PMTester

namespace FileSystemTestResult

inductive ErrorType where
  | kCheckNotRun | kClean | kUnmountable | kFixed | kCheck | kSnapshotRestore | kBioWrite | kOther
  | kKernelMount | kCheckUnfixed
  deriving DecidableEq, Repr

/-- The value of an error; the summary of a file system test collects them as bits. -/
def ErrorType.bits : ErrorType → Flags
  | .kCheckNotRun => 0#32
  | .kClean => 1#32
  | .kUnmountable => 2#32
  | .kFixed => 4#32
  | .kCheck => 8#32
  | .kSnapshotRestore => 16#32
  | .kBioWrite => 32#32
  | .kOther => 64#32
  | .kKernelMount => 128#32
  | .kCheckUnfixed => 256#32

end FileSystemTestResult

structure FileSystemTestResult where
  errorSummary : Flags := FileSystemTestResult.ErrorType.kCheckNotRun.bits
  deriving DecidableEq, Repr

namespace FileSystemTestResult

def setError (r : FileSystemTestResult) (err : ErrorType) : FileSystemTestResult :=
  { r with errorSummary := r.errorSummary ||| err.bits }

def getError (r : FileSystemTestResult) : Flags := r.errorSummary

end FileSystemTestResult

inductive DataTestResult.ErrorType where
  | kClean | kOldFilePersisted | kFileMissing | kFileDataCorrupted | kFileMetadataCorrupted
  | kIncorrectBlockCount | kOther | kAutoCheckFailed
  deriving DecidableEq, Repr

structure DataTestResult where
  errorSummary : DataTestResult.ErrorType := .kClean
  deriving DecidableEq, Repr

namespace DataTestResult

/-- A later error replaces an earlier one. -/
def setError (r : DataTestResult) (err : ErrorType) : DataTestResult :=
  { r with errorSummary := err }

def getError (r : DataTestResult) : ErrorType := r.errorSummary

end DataTestResult

structure SingleTestInfo where
  dataTest : DataTestResult := {}
  fsTest : FileSystemTestResult := {}
  deriving DecidableEq, Repr

inductive ResultType where
  | kPassed | kFsckFixed | kFsckRequired | kFailed
  deriving DecidableEq, Repr

def SingleTestInfo.getTestResult (info : SingleTestInfo) : ResultType :=
  if (info.fsTest.getError = FileSystemTestResult.ErrorType.kClean.bits ∨
      info.fsTest.getError = FileSystemTestResult.ErrorType.kCheckNotRun.bits) ∧
      info.dataTest.getError = .kClean then .kPassed
  else if info.fsTest.getError = FileSystemTestResult.ErrorType.kFixed.bits ∧
      info.dataTest.getError = .kClean then .kFsckFixed
  else if info.fsTest.getError = FileSystemTestResult.ErrorType.kKernelMount.bits then
    .kFsckRequired
  else .kFailed

structure ResultSet where
  numFailed : UInt32 := 0
  numPassedFixed : UInt32 := 0
  numPassed : UInt32 := 0
  fsckRequired : UInt32 := 0
  oldFilePersisted : UInt32 := 0
  fileMissing : UInt32 := 0
  fileDataCorrupted : UInt32 := 0
  fileMetadataCorrupted : UInt32 := 0
  incorrectBlockCount : UInt32 := 0
  other : UInt32 := 0
  autoCheckFailed : UInt32 := 0
  deriving DecidableEq

/-- The inner switch of `TallyResult`, on the kind of data error. -/
def ResultSet.countError (set : ResultSet) : DataTestResult.ErrorType → ResultSet
  | .kClean => set
  | .kOldFilePersisted => { set with oldFilePersisted := set.oldFilePersisted + 1 }
  | .kFileMissing => { set with fileMissing := set.fileMissing + 1 }
  | .kFileDataCorrupted => { set with fileDataCorrupted := set.fileDataCorrupted + 1 }
  | .kFileMetadataCorrupted => { set with fileMetadataCorrupted := set.fileMetadataCorrupted + 1 }
  | .kIncorrectBlockCount => { set with incorrectBlockCount := set.incorrectBlockCount + 1 }
  | .kOther => { set with other := set.other + 1 }
  | .kAutoCheckFailed => { set with autoCheckFailed := set.autoCheckFailed + 1 }

def tallyResult (done : SingleTestInfo) (set : ResultSet) : ResultSet :=
  match done.getTestResult with
  | .kPassed => { set with numPassed := set.numPassed + 1 }
  | .kFsckFixed => { set with numPassedFixed := set.numPassedFixed + 1 }
  | .kFsckRequired => { set with fsckRequired := set.fsckRequired + 1 }
  | .kFailed => { set with numFailed := set.numFailed + 1 }.countError done.dataTest.getError

/-- `TestSuiteResult`, with the counters that timing tests change. -/
structure TestSuiteResult where
  timingResults : ResultSet := {}
  deriving DecidableEq

namespace TestSuiteResult

def tallyTimingResult (r : SingleTestInfo) (suite : TestSuiteResult) : TestSuiteResult :=
  { suite with timingResults := tallyResult r suite.timingResults }

def getTimingCompleted (suite : TestSuiteResult) : UInt32 :=
  suite.timingResults.numPassed + suite.timingResults.numPassedFixed +
    suite.timingResults.fsckRequired + suite.timingResults.numFailed

end TestSuiteResult

/-- `SUCCESS`. -/
def success : Int := 0

/-- `MNT_ERR`. -/
def mntErr : Int := -3

/-- `mount_device`, with what `system` returns for the mount command. -/
def mountDevice (status : Int) : Int := if status ≠ 0 then mntErr else success

/-- What one `test_check` meets: the exit statuses of its two mount commands and the result
of the content check. -/
structure CheckOutcome where
  mountReplay : Int
  mountRecord : Int
  contents : Bool
  deriving DecidableEq, Repr

/-- `test_check`: what it has noted about the test when it returns, and the suite. -/
def testCheck (o : CheckOutcome) (suite : TestSuiteResult) : SingleTestInfo × TestSuiteResult :=
  let testInfo : SingleTestInfo := {}
  if mountDevice o.mountReplay ≠ success then
    ({ testInfo with fsTest := testInfo.fsTest.setError .kKernelMount }, suite)
  else if mountDevice o.mountRecord ≠ success then
    ({ testInfo with fsTest := testInfo.fsTest.setError .kKernelMount }, suite)
  else
    let testInfo :=
      if !o.contents then { testInfo with dataTest := testInfo.dataTest.setError .kAutoCheckFailed }
      else testInfo
    (testInfo, suite.tallyTimingResult testInfo)

/-- A suite after some tests. -/
def testSuite (outcomes : List CheckOutcome) (suite : TestSuiteResult) : TestSuiteResult :=
  outcomes.foldl (fun suite o => (testCheck o suite).2) suite

/-- Both devices mount. -/
def CheckOutcome.mounts (o : CheckOutcome) : Bool :=
  mountDevice o.mountReplay == success && mountDevice o.mountRecord == success

/-- Every test is counted once, under its verdict. -/
structure Counted (outcomes : List CheckOutcome) (suite : TestSuiteResult) : Prop where
  completed : suite.getTimingCompleted.toNat = outcomes.length
  unmountable : suite.timingResults.fsckRequired.toNat = outcomes.countP fun o => !o.mounts
  failed : suite.timingResults.numFailed.toNat = outcomes.countP fun o => o.mounts && !o.contents
  autoCheck : suite.timingResults.autoCheckFailed.toNat =
    outcomes.countP fun o => o.mounts && !o.contents
  passed : suite.timingResults.numPassed.toNat = outcomes.countP fun o => o.mounts && o.contents

/-- A test whose devices do not both mount has the verdict `kFsckRequired`, and is not tallied. -/
theorem testCheck_unmountable (o : CheckOutcome) (suite : TestSuiteResult)
    (h : o.mounts = false) :
    (testCheck o suite).1.getTestResult = .kFsckRequired ∧ (testCheck o suite).2 = suite := by
  have hverdict : ({ fsTest := FileSystemTestResult.setError {} .kKernelMount } :
      SingleTestInfo).getTestResult = .kFsckRequired := by decide
  by_cases hreplay : mountDevice o.mountReplay = success
  · have hrecord : mountDevice o.mountRecord ≠ success := by
      intro hrecord
      simp [CheckOutcome.mounts, hreplay, hrecord] at h
    simp [testCheck, hreplay, hrecord, hverdict]
  · simp [testCheck, hreplay, hverdict]

theorem testCheck_passed (o : CheckOutcome) (suite : TestSuiteResult) (h : o.mounts = true)
    (hcontents : o.contents = true) :
    (testCheck o suite).2.timingResults =
      { suite.timingResults with numPassed := suite.timingResults.numPassed + 1 } := by
  have hverdict : ({} : SingleTestInfo).getTestResult = .kPassed := by decide
  obtain ⟨hreplay, hrecord⟩ :
      mountDevice o.mountReplay = success ∧ mountDevice o.mountRecord = success := by
    simpa [CheckOutcome.mounts] using h
  simp [testCheck, hreplay, hrecord, hcontents, TestSuiteResult.tallyTimingResult, tallyResult,
    hverdict]

theorem testCheck_failed (o : CheckOutcome) (suite : TestSuiteResult) (h : o.mounts = true)
    (hcontents : o.contents = false) :
    (testCheck o suite).2.timingResults =
      { suite.timingResults with
        numFailed := suite.timingResults.numFailed + 1,
        autoCheckFailed := suite.timingResults.autoCheckFailed + 1 } := by
  have hverdict : ({ dataTest := DataTestResult.setError {} .kAutoCheckFailed } :
      SingleTestInfo).getTestResult = .kFailed := by decide
  have herror : (DataTestResult.setError {} .kAutoCheckFailed).getError = .kAutoCheckFailed := rfl
  obtain ⟨hreplay, hrecord⟩ :
      mountDevice o.mountReplay = success ∧ mountDevice o.mountRecord = success := by
    simpa [CheckOutcome.mounts] using h
  simp [testCheck, hreplay, hrecord, hcontents, TestSuiteResult.tallyTimingResult, tallyResult,
    hverdict, herror, ResultSet.countError]

/-- The counters after some tests: the tests that mounted, by the result of their check. -/
theorem testSuite_timing (outcomes : List CheckOutcome) (suite : TestSuiteResult) :
    (testSuite outcomes suite).timingResults =
      { suite.timingResults with
        numPassed := suite.timingResults.numPassed +
          UInt32.ofNat (outcomes.countP fun o => o.mounts && o.contents),
        numFailed := suite.timingResults.numFailed +
          UInt32.ofNat (outcomes.countP fun o => o.mounts && !o.contents),
        autoCheckFailed := suite.timingResults.autoCheckFailed +
          UInt32.ofNat (outcomes.countP fun o => o.mounts && !o.contents) } := by
  induction outcomes generalizing suite with
  | nil => simp [testSuite]
  | cons o rest ih =>
    have hstep : testSuite (o :: rest) suite = testSuite rest (testCheck o suite).2 := rfl
    rw [hstep, ih]
    cases hmounts : o.mounts with
    | false =>
      rw [(testCheck_unmountable o suite hmounts).2]
      simp [hmounts]
    | true =>
      cases hcontents : o.contents with
      | true =>
        rw [testCheck_passed o suite hmounts hcontents]
        simp [hmounts, hcontents, UInt32.ofNat_add, UInt32.add_assoc,
          UInt32.add_comm]
      | false =>
        rw [testCheck_failed o suite hmounts hcontents]
        simp [hmounts, hcontents, UInt32.ofNat_add, UInt32.add_assoc,
          UInt32.add_comm]

/-- The tests that mounted are those that passed and those that failed. -/
theorem countP_mounts (outcomes : List CheckOutcome) :
    outcomes.countP (fun o => o.mounts && o.contents) +
        outcomes.countP (fun o => o.mounts && !o.contents) =
      outcomes.countP CheckOutcome.mounts := by
  induction outcomes with
  | nil => rfl
  | cons o rest ih =>
    cases hmounts : o.mounts <;> cases hcontents : o.contents <;>
      simp [hmounts, hcontents] <;> omega

theorem testSuite_completed (outcomes : List CheckOutcome) :
    (testSuite outcomes {}).getTimingCompleted.toNat =
      outcomes.countP CheckOutcome.mounts % 2 ^ 32 := by
  rw [← countP_mounts]
  simp [TestSuiteResult.getTimingCompleted, testSuite_timing]

/-- The counters of a suite count every test just when no test fails to mount a device and
the counters do not wrap around. -/
theorem tests_counted_iff (outcomes : List CheckOutcome) :
    Counted outcomes (testSuite outcomes {}) ↔
      (∀ o ∈ outcomes, o.mounts = true) ∧ outcomes.length < 2 ^ 32 := by
  have hle := List.countP_le_length (l := outcomes) (p := CheckOutcome.mounts)
  constructor
  · intro h
    have hcompleted := h.completed
    rw [testSuite_completed] at hcompleted
    have hmod := Nat.mod_le (outcomes.countP CheckOutcome.mounts) (2 ^ 32)
    have hall : outcomes.countP CheckOutcome.mounts = outcomes.length := by omega
    exact ⟨List.countP_eq_length.mp hall, by omega⟩
  · rintro ⟨hmounts, hlength⟩
    have hall := List.countP_eq_length.mpr hmounts
    have hsum := countP_mounts outcomes
    have hnone : outcomes.countP (fun o => !o.mounts) = 0 := by
      simpa [List.countP_eq_zero] using hmounts
    constructor
    · rw [testSuite_completed, hall]
      exact Nat.mod_eq_of_lt hlength
    · simp [testSuite_timing, hnone]
    · simp only [testSuite_timing, UInt32.zero_add, UInt32.toNat_ofNat']
      exact Nat.mod_eq_of_lt (by omega)
    · simp only [testSuite_timing, UInt32.zero_add, UInt32.toNat_ofNat']
      exact Nat.mod_eq_of_lt (by omega)
    · simp only [testSuite_timing, UInt32.zero_add, UInt32.toNat_ofNat']
      exact Nat.mod_eq_of_lt (by omega)

/-- One test whose replay device does not mount is not counted at all. -/
theorem unmountable_not_counted :
    ¬ Counted [⟨1, 0, true⟩] (testSuite [⟨1, 0, true⟩] {}) := by
  intro h
  exact absurd h.unmountable (by decide)

end PMTester
