import PMTester.Lib.Bits
import PMTester.Lib.Text
import PMTester.TestResults

/-!
# The report of a test

`PrintErrors` of the two results, which takes the bits of a summary one by one,
and `PrintResults` of a test. The report tells every two tests apart that differ
in what a maintainer can want to know of them.
-/
namespace PMTester

open Bits Text

/-- `operator<<` of an enumeration of errors. -/
def putError {ι : Type} (errors : List ι) (bits : ι → Flags) (name : ι → Path) (err : Flags)
    (os : OStream) : OStream :=
  match errors.find? fun e => bits e == err with
  | some e => os.put (name e)
  | none => os.fail

/-- `std::endl`. -/
def endl : Path := [10]

namespace DataTestResult

def ErrorType.bits : ErrorType → Flags
  | .kClean => 0#32
  | .kOldFilePersisted => 1#32
  | .kFileMissing => 2#32
  | .kFileDataCorrupted => 4#32
  | .kFileMetadataCorrupted => 8#32
  | .kIncorrectBlockCount => 16#32
  | .kOther => 32#32
  | .kAutoCheckFailed => 64#32

def ErrorType.name : ErrorType → Path
  | .kClean => []
  | .kOldFilePersisted => path "old_file_persisted".toList
  | .kFileMissing => path "file_missing".toList
  | .kFileDataCorrupted => path "file_data_corrupted".toList
  | .kFileMetadataCorrupted => path "file_metadata_corrupted".toList
  | .kIncorrectBlockCount => path "incorrect_block_count".toList
  | .kOther => path "other_error".toList
  | .kAutoCheckFailed => path "auto_check_test_failed".toList

/-- The cases of `operator<<`. -/
def ErrorType.cases : List ErrorType :=
  [.kClean, .kOldFilePersisted, .kFileMissing, .kFileDataCorrupted, .kFileMetadataCorrupted,
    .kIncorrectBlockCount, .kOther, .kAutoCheckFailed]

def printErrors (r : DataTestResult) (os : OStream) : OStream :=
  forBits (fun shift os => putError ErrorType.cases ErrorType.bits ErrorType.name (1#32 <<< shift) os)
    r.errorSummary.bits 0 os

end DataTestResult

namespace FileSystemTestResult

def ErrorType.name : ErrorType → Path
  | .kCheckNotRun => path "fsck_not_run".toList
  | .kClean => path "fsck_no_errors".toList
  | .kUnmountable => path "unmountable_file_system".toList
  | .kFixed => path "file_system_fixed".toList
  | .kCheck => path "fsck_error".toList
  | .kSnapshotRestore => path "restoring_snapshot".toList
  | .kBioWrite => path "writing_crash_state".toList
  | .kOther => path "other_error".toList
  | .kKernelMount => path "kernel_mount".toList
  | .kCheckUnfixed => path "unfixed_fsck_errors".toList

/-- The errors that have a bit, in the order of their bits. -/
def ErrorType.flagged : List ErrorType :=
  [.kClean, .kUnmountable, .kFixed, .kCheck, .kSnapshotRestore, .kBioWrite, .kOther, .kKernelMount,
    .kCheckUnfixed]

/-- The cases of `operator<<`. -/
def ErrorType.cases : List ErrorType := .kCheckNotRun :: flagged

def printErrors (r : FileSystemTestResult) (os : OStream) : OStream :=
  if r.errorSummary = 0#32 then
    putError ErrorType.cases ErrorType.bits ErrorType.name ErrorType.kCheckNotRun.bits os
  else
    forBits (fun shift os =>
        (putError ErrorType.cases ErrorType.bits ErrorType.name (1#32 <<< shift) os).put [32])
      r.errorSummary 0 os

end FileSystemTestResult

/-- `operator<<` of a verdict. -/
def ResultType.name : ResultType → Path
  | .kPassed => path "PASSED".toList
  | .kFsckFixed => path "FSCK_FIXED".toList
  | .kFsckRequired => path "FSCK_REQUIRED".toList
  | .kFailed => path "FAILED".toList

/-- `SingleTestInfo`, with the fields that only `PrintResults` reads. -/
structure TestReport extends SingleTestInfo where
  testNum : UInt32
  fsDescription : Path := []
  fsckResult : Path := []
  dataDescription : Path := []

namespace TestReport

def printResults (r : TestReport) (os : OStream) : OStream :=
  let os := os.put (path "Test #".toList) |>.put (decimal r.testNum.toNat)
    |>.put (path ": ".toList) |>.put r.getTestResult.name |>.put (path ": ".toList)
  let os := r.dataTest.printErrors os
  let os :=
    if r.getTestResult = .kFailed ∧
        r.fsTest.getError = FileSystemTestResult.ErrorType.kCheck.bits then
      os.put r.fsDescription |>.put endl
    else os.put r.dataDescription |>.put endl
  let os := os.put (path "\tfsck result: ".toList)
  let os := r.fsTest.printErrors os
  let os := os.put endl
  os.put (path "\tfsck output:".toList) |>.put endl |>.put r.fsckResult |>.put endl |>.put endl

end TestReport

/-- The loop of `PrintErrors` puts the names of the errors whose bits are set. -/
theorem forBits_errors {ι : Type} {errors : List ι} {bits : ι → Flags} (name : ι → Path)
    (bit : ι → Nat) (tail : Path) {n : Flags} {xs : List ι}
    (hbits : n.toNat.bitIndices = xs.map bit)
    (hxs : ∀ x ∈ xs, bits x = 1#32 <<< bit x ∧
      errors.find? (fun e => bits e == bits x) = some x) (os : OStream) :
    forBits (fun shift os => (putError errors bits name (1#32 <<< shift) os).put tail) n 0 os =
      os.put (xs.flatMap fun x => name x ++ tail) := by
  have hput (os : OStream) : ∀ x ∈ xs,
      (putError errors bits name (1#32 <<< bit x) os).put tail = os.put (name x ++ tail) := by
    intro x hx
    obtain ⟨hbit, hfind⟩ := hxs x hx
    rw [← hbit, putError, hfind]
    exact os.put_put _ _
  rw [forBits_eq, hbits, ← OStream.foldl_put]
  simp only [List.map_map, List.foldl_map, Function.comp_apply, Nat.add_zero]
  exact List.foldl_ext _ _ _ hput

namespace DataTestResult

/-- The errors that have a bit, in the order of their bits. -/
def ErrorType.flagged : List ErrorType := ErrorType.cases.tail

/-- What is noted of an error. -/
def ErrorType.noted (e : ErrorType) : List ErrorType := ErrorType.flagged.filter (· = e)

theorem bitIndices_bits (e : ErrorType) :
    e.bits.toNat.bitIndices = e.noted.map ErrorType.flagged.idxOf := by
  cases e with
  | kClean => exact Nat.bitIndices_zero
  | kOldFilePersisted => exact bitIndices_one_shift (w := 32) (i := 0) (by decide)
  | kFileMissing => exact bitIndices_one_shift (w := 32) (i := 1) (by decide)
  | kFileDataCorrupted => exact bitIndices_one_shift (w := 32) (i := 2) (by decide)
  | kFileMetadataCorrupted => exact bitIndices_one_shift (w := 32) (i := 3) (by decide)
  | kIncorrectBlockCount => exact bitIndices_one_shift (w := 32) (i := 4) (by decide)
  | kOther => exact bitIndices_one_shift (w := 32) (i := 5) (by decide)
  | kAutoCheckFailed => exact bitIndices_one_shift (w := 32) (i := 6) (by decide)

theorem flagged_bits : ∀ e ∈ ErrorType.flagged, e.bits = 1#32 <<< ErrorType.flagged.idxOf e ∧
    ErrorType.cases.find? (fun e' => e'.bits == e.bits) = some e := by decide

/-- The name of the error that was noted last is printed. -/
theorem printErrors_eq (r : DataTestResult) (os : OStream) :
    r.printErrors os = os.put r.errorSummary.name := by
  have hloop := forBits_errors ErrorType.name ErrorType.flagged.idxOf []
    (bitIndices_bits r.errorSummary) (fun e he => flagged_bits e (List.mem_of_mem_filter he)) os
  simp only [OStream.put_nil, List.append_nil] at hloop
  rw [printErrors, hloop]
  congr 1
  cases r.errorSummary <;> decide

end DataTestResult

namespace FileSystemTestResult

theorem foldl_setError (errs : List ErrorType) (r : FileSystemTestResult) :
    (errs.foldl setError r).errorSummary =
      errs.foldl (fun acc e => acc ||| e.bits) r.errorSummary := by
  induction errs generalizing r with
  | nil => rfl
  | cons e rest ih => exact ih (r.setError e)

/-- The errors with a bit among some, in the order of their bits. -/
def noted (errs : List ErrorType) : List ErrorType := ErrorType.flagged.filter (· ∈ errs)

theorem flagged_bits : ∀ e ∈ ErrorType.flagged, e.bits = 1#32 <<< ErrorType.flagged.idxOf e ∧
    ErrorType.cases.find? (fun e' => e'.bits == e.bits) = some e := by decide

/-- The bits of a summary are those of the errors that were noted. -/
theorem bitIndices_summary (errs : List ErrorType) :
    (errs.foldl setError {}).errorSummary.toNat.bitIndices =
      (noted errs).map ErrorType.flagged.idxOf := by
  rw [foldl_setError]
  apply bitIndices_union ErrorType.bits ErrorType.flagged.idxOf ErrorType.flagged errs
  · rw [List.sortedLT_iff_pairwise]
    decide
  · intro e he
    rw [(flagged_bits e he).1]
    exact bitIndices_one_shift (Nat.lt_of_lt_of_le (List.idxOf_lt_length_of_mem he) (by decide))
  · intro e he
    cases e with
    | kCheckNotRun => exact Nat.bitIndices_zero
    | _ => exact absurd (by decide) he

/-- The summary is determined by the errors that were noted, and tells which these are. -/
theorem summary_alike_iff (errs errs' : List ErrorType) :
    (errs.foldl setError {}).errorSummary = (errs'.foldl setError {}).errorSummary ↔
      noted errs = noted errs' := by
  have hback (errs : List ErrorType) :
      ((noted errs).map ErrorType.flagged.idxOf).map (fun i => ErrorType.flagged[i]?) =
        (noted errs).map some := by
    rw [List.map_map]
    apply List.map_congr_left
    intro e he
    exact List.getElem?_idxOf (List.mem_of_mem_filter he)
  constructor
  · intro h
    have hindices := bitIndices_summary errs
    rw [h, bitIndices_summary] at hindices
    have hsome := hback errs
    rw [← hindices, hback] at hsome
    exact (List.map_injective_iff.mpr (Option.some_injective _) hsome).symm
  · intro h
    apply eq_of_bitIndices
    rw [bitIndices_summary, bitIndices_summary, h]
    exact fun i => Iff.rfl

/-- What `PrintErrors` makes of these errors. -/
def text (errs : List ErrorType) : Path :=
  if noted errs = [] then ErrorType.kCheckNotRun.name
  else (noted errs).flatMap fun e => e.name ++ [32]

theorem printErrors_eq (errs : List ErrorType) (os : OStream) :
    (errs.foldl setError {}).printErrors os = os.put (text errs) := by
  have hsummary := bitIndices_summary errs
  unfold printErrors text
  by_cases hnone : noted errs = []
  · have hzero : (errs.foldl setError {}).errorSummary = 0#32 := by
      apply eq_of_bitIndices
      rw [hsummary, hnone]
      simp
    rw [if_pos hzero, if_pos hnone]
    rfl
  · have hsome : (errs.foldl setError {}).errorSummary ≠ 0#32 := by
      intro hzero
      rw [hzero] at hsummary
      simp [hnone] at hsummary
    rw [if_neg hsome, if_neg hnone]
    exact forBits_errors ErrorType.name ErrorType.flagged.idxOf [32] hsummary
      (fun e he => flagged_bits e (List.mem_of_mem_filter he)) os

theorem noted_alike_iff (errs errs' : List ErrorType) :
    noted errs = noted errs' ↔ ∀ e, e ≠ .kCheckNotRun → (e ∈ errs ↔ e ∈ errs') := by
  have hflagged (e : ErrorType) (he : e ≠ .kCheckNotRun) : e ∈ ErrorType.flagged := by
    cases e with
    | kCheckNotRun => exact absurd rfl he
    | _ => decide
  constructor
  · intro h e he
    have hmem : e ∈ noted errs ↔ e ∈ noted errs' := by rw [h]
    simpa [noted, hflagged e he] using hmem
  · intro h
    apply List.filter_congr
    intro e he
    have hnot : e ≠ .kCheckNotRun := by
      rintro rfl
      exact absurd he (by decide)
    simpa using h e hnot

/-- The text tells which errors were noted, and holds no end of a line. -/
theorem text_alike_iff (errs errs' : List ErrorType) :
    text errs = text errs' ↔ noted errs = noted errs' := by
  have hname : ∀ e : ErrorType, (32 : UInt8) ∉ e.name := by
    intro e
    cases e <;> decide
  have hname_inj : Function.Injective ErrorType.name := by
    intro e e' h
    cases e <;> cases e' <;> first | rfl | exact absurd h (by decide)
  have hwords (errs : List ErrorType) :
      ((noted errs).flatMap fun e => e.name ++ [32]) =
        ((noted errs).map ErrorType.name).flatMap (· ++ [32]) := by
    rw [List.flatMap_map]
  have hspace (errs : List ErrorType) (h : noted errs ≠ []) :
      (32 : UInt8) ∈ (noted errs).flatMap fun e => e.name ++ [32] := by
    obtain ⟨e, rest, heq⟩ := List.exists_cons_of_ne_nil h
    simp [heq]
  unfold text
  split <;> rename_i h <;> split <;> rename_i h'
  · simp [h, h']
  · simp only [h, Ne.symm h', iff_false]
    intro heq
    exact hname _ (heq ▸ hspace errs' h')
  · simp only [h, h', iff_false]
    intro heq
    exact hname _ (heq ▸ hspace errs h)
  · rw [hwords, hwords, closed_inj]
    · exact (List.map_injective_iff.mpr hname_inj).eq_iff
    · simpa using fun e _ => hname e
    · simpa using fun e _ => hname e

theorem newline_notMem_text (errs : List ErrorType) : (10 : UInt8) ∉ text errs := by
  have hname : ∀ e : ErrorType, (10 : UInt8) ∉ e.name ++ [32] := by
    intro e
    cases e <;> decide
  unfold text
  split
  · decide
  · intro h
    obtain ⟨e, -, he⟩ := List.mem_flatMap.mp h
    exact hname e he

end FileSystemTestResult

/-- A test with the errors that were noted about it, one after the other. -/
structure NotedTest where
  testNum : UInt32 := 1
  fsErrors : List FileSystemTestResult.ErrorType := []
  dataErrors : List DataTestResult.ErrorType := []
  fsDescription : Path := []
  fsckResult : Path := []
  dataDescription : Path := []

namespace NotedTest

def report (t : NotedTest) : TestReport where
  dataTest := t.dataErrors.foldl DataTestResult.setError {}
  fsTest := t.fsErrors.foldl FileSystemTestResult.setError {}
  testNum := t.testNum
  fsDescription := t.fsDescription
  fsckResult := t.fsckResult
  dataDescription := t.dataDescription

/-- Only the last data error counts. -/
def lastError (t : NotedTest) : DataTestResult.ErrorType := t.dataErrors.getLastD .kClean

/-- The description that is printed: that of the file system when its check is what failed. -/
def described (t : NotedTest) : Path :=
  if t.report.getTestResult = .kFailed ∧ FileSystemTestResult.noted t.fsErrors = [.kCheck] then
    t.fsDescription
  else t.dataDescription

structure OneLine (t : NotedTest) : Prop where
  fs : (10 : UInt8) ∉ t.fsDescription
  data : (10 : UInt8) ∉ t.dataDescription

def text (t : NotedTest) : Path :=
  path "Test #".toList ++ (decimal t.testNum.toNat ++ path ": ".toList ++
    (t.report.getTestResult.name ++ path ": ".toList ++
      (t.lastError.name ++ t.described ++ endl ++
        (path "\tfsck result: ".toList ++ (FileSystemTestResult.text t.fsErrors ++ endl ++
          (path "\tfsck output:".toList ++ endl ++ (t.fsckResult ++ endl ++ endl)))))))

theorem foldl_setError (errs : List DataTestResult.ErrorType) (r : DataTestResult) :
    (errs.foldl DataTestResult.setError r).errorSummary = errs.getLastD r.errorSummary := by
  induction errs generalizing r with
  | nil => rfl
  | cons e rest ih =>
    rw [List.foldl_cons, ih, List.getLastD_cons]
    rfl

/-- The summary is a single error when nothing else with a bit was noted. -/
theorem summary_eq_iff (t : NotedTest) (e : FileSystemTestResult.ErrorType) :
    t.report.fsTest.getError = e.bits ↔
      FileSystemTestResult.noted t.fsErrors = FileSystemTestResult.noted [e] := by
  rw [← FileSystemTestResult.summary_alike_iff]
  have hone : ([e].foldl FileSystemTestResult.setError {}).errorSummary = e.bits := by
    cases e <;> rfl
  rw [hone]
  rfl

theorem printResults_eq (t : NotedTest) (os : OStream) :
    t.report.printResults os = os.put t.text := by
  have hdata (os : OStream) : t.report.dataTest.printErrors os = os.put t.lastError.name := by
    rw [DataTestResult.printErrors_eq]
    congr 2
    exact foldl_setError t.dataErrors {}
  have hfs (os : OStream) :
      t.report.fsTest.printErrors os = os.put (FileSystemTestResult.text t.fsErrors) :=
    FileSystemTestResult.printErrors_eq t.fsErrors os
  have hdescribed (os : OStream) :
      (if t.report.getTestResult = .kFailed ∧
          t.report.fsTest.getError = FileSystemTestResult.ErrorType.kCheck.bits then
        (os.put t.report.fsDescription).put endl
      else (os.put t.report.dataDescription).put endl) = (os.put t.described).put endl := by
    have hcheck : t.report.fsTest.getError = FileSystemTestResult.ErrorType.kCheck.bits ↔
        FileSystemTestResult.noted t.fsErrors = [.kCheck] := t.summary_eq_iff .kCheck
    simp only [hcheck, described]
    split <;> rfl
  unfold TestReport.printResults
  simp only [hdata, hfs, hdescribed]
  simp only [OStream.put_put, List.append_assoc, text]
  rfl

end NotedTest

theorem verdict_alike_iff (v v' : ResultType) : v.name = v'.name ↔ v = v' := by
  cases v <;> cases v' <;> decide

theorem newline_notMem_dataName (e : DataTestResult.ErrorType) : (10 : UInt8) ∉ e.name := by
  cases e <;> decide

theorem NotedTest.OneLine.described {t : NotedTest} (h : t.OneLine) : (10 : UInt8) ∉ t.described := by
  unfold NotedTest.described
  split
  · exact h.fs
  · exact h.data

/-- Two tests have the same report just when they have the same number and verdict, the same text of
the last data error and the description, the same file system errors in any order and the same
output. -/
theorem reports_alike_iff (t t' : NotedTest) (ht : t.OneLine) (ht' : t'.OneLine) (os : OStream)
    (hos : os.failbit = false) :
    t.report.printResults os = t'.report.printResults os ↔
      t.testNum = t'.testNum ∧ t.report.getTestResult = t'.report.getTestResult ∧
      t.lastError.name ++ t.described = t'.lastError.name ++ t'.described ∧
      (∀ e, e ≠ .kCheckNotRun → (e ∈ t.fsErrors ↔ e ∈ t'.fsErrors)) ∧
      t.fsckResult = t'.fsckResult := by
  have hverdict (t : NotedTest) : (58 : UInt8) ∉ t.report.getTestResult.name := by
    cases t.report.getTestResult <;> decide
  have hline (t : NotedTest) (ht : t.OneLine) : (10 : UInt8) ∉ t.lastError.name ++ t.described := by
    simp [newline_notMem_dataName, ht.described]
  have hcolon : (path ": ".toList).head? = some 58 := by decide
  have hnumber (n : Nat) : (58 : UInt8) ∉ decimal n := notMem_decimal (.inr (by decide)) n
  rw [NotedTest.printResults_eq, NotedTest.printResults_eq, OStream.put_injective hos,
    NotedTest.text, NotedTest.text, List.append_cancel_left_eq,
    append_mark_inj hcolon (hnumber _) (hnumber _), append_mark_inj hcolon (hverdict t) (hverdict t'),
    append_mark_inj rfl (hline t ht) (hline t' ht'), List.append_cancel_left_eq,
    append_mark_inj rfl (FileSystemTestResult.newline_notMem_text _)
      (FileSystemTestResult.newline_notMem_text _),
    FileSystemTestResult.text_alike_iff, FileSystemTestResult.noted_alike_iff, decimal_injective,
    UInt32.toNat_inj, verdict_alike_iff]
  simp only [List.append_cancel_left_eq, List.append_cancel_right_eq]

/-- The order of the errors and their repetition are not seen. -/
theorem reports_alike_order :
    ({ fsErrors := [.kFixed, .kCheck] } : NotedTest).report.printResults {} =
      ({ fsErrors := [.kCheck, .kCheckNotRun, .kFixed, .kCheck] } : NotedTest).report.printResults
        {} := by
  apply (reports_alike_iff _ _ ⟨by decide, by decide⟩ ⟨by decide, by decide⟩ {} rfl).mpr
  refine ⟨rfl, by decide, rfl, ?_, rfl⟩
  intro e he
  cases e with
  | kCheckNotRun => exact absurd rfl he
  | _ => decide

end PMTester
