import PMTester.Lib.Word
import PMTester.ResultText

/-!
# The statistics of a suite

`TestSuiteResult` with both sets of counters: what they hold after any tests of
the two kinds, in any order, and what `PrintResults` tells of them.
-/
namespace PMTester

open Text Word

/-- `TestSuiteResult`, with the counters of reordering tests as well. -/
structure SuiteResult extends TestSuiteResult where
  reorderingResults : ResultSet := {}

namespace SuiteResult

def tallyReorderingResult (r : SingleTestInfo) (suite : SuiteResult) : SuiteResult :=
  { suite with reorderingResults := tallyResult r suite.reorderingResults }

def tallyTimingResult (r : SingleTestInfo) (suite : SuiteResult) : SuiteResult :=
  { suite with toTestSuiteResult := suite.toTestSuiteResult.tallyTimingResult r }

def getReorderingCompleted (suite : SuiteResult) : UInt32 :=
  suite.reorderingResults.numPassed + suite.reorderingResults.numPassedFixed +
    suite.reorderingResults.fsckRequired + suite.reorderingResults.numFailed

def getCompleted (suite : SuiteResult) : UInt32 :=
  suite.getTimingCompleted + suite.getReorderingCompleted

end SuiteResult

namespace NotedTest

/-- Nothing but this error was noted about the file system. -/
def Only (t : NotedTest) (e : FileSystemTestResult.ErrorType) : Prop :=
  e ∈ t.fsErrors ∧ ∀ e' ∈ t.fsErrors, e' = .kCheckNotRun ∨ e' = e

instance (t : NotedTest) (e : FileSystemTestResult.ErrorType) : Decidable (t.Only e) :=
  inferInstanceAs (Decidable (_ ∧ _))

/-- The verdict that the errors of a test call for. -/
def verdict (t : NotedTest) : ResultType :=
  if (∀ e ∈ t.fsErrors, e = .kCheckNotRun ∨ e = .kClean) ∧ t.lastError = .kClean then .kPassed
  else if t.Only .kFixed ∧ t.lastError = .kClean then .kFsckFixed
  else if t.Only .kKernelMount then .kFsckRequired
  else .kFailed

theorem summary_only_iff (t : NotedTest) {e : FileSystemTestResult.ErrorType}
    (he : e ≠ .kCheckNotRun) : t.report.fsTest.getError = e.bits ↔ t.Only e := by
  rw [summary_eq_iff, FileSystemTestResult.noted_alike_iff]
  constructor
  · intro h
    refine ⟨(h e he).mpr (by simp), fun e' he' => ?_⟩
    by_cases hnot : e' = .kCheckNotRun
    · exact .inl hnot
    · exact .inr (by simpa using (h e' hnot).mp he')
  · rintro ⟨hmem, hall⟩ e' hnot
    constructor
    · intro he'
      simpa [hnot] using hall e' he'
    · intro he'
      rwa [List.mem_singleton.mp he']

theorem summary_none_iff (t : NotedTest) :
    t.report.fsTest.getError = FileSystemTestResult.ErrorType.kCheckNotRun.bits ↔
      ∀ e ∈ t.fsErrors, e = .kCheckNotRun := by
  rw [summary_eq_iff, FileSystemTestResult.noted_alike_iff]
  constructor
  · intro h e he
    by_contra hnot
    exact hnot (by simpa using (h e hnot).mp he)
  · intro h e hnot
    constructor
    · exact fun he => absurd (h e he) hnot
    · exact fun he => absurd (List.mem_singleton.mp he) hnot

theorem getTestResult_eq (t : NotedTest) : t.report.getTestResult = t.verdict := by
  have hclean : (t.report.fsTest.getError = FileSystemTestResult.ErrorType.kClean.bits ∨
      t.report.fsTest.getError = FileSystemTestResult.ErrorType.kCheckNotRun.bits) ↔
      ∀ e ∈ t.fsErrors, e = .kCheckNotRun ∨ e = .kClean := by
    rw [summary_only_iff t (by decide), summary_none_iff]
    constructor
    · rintro (h | h)
      · exact h.2
      · exact fun e he => .inl (h e he)
    · intro h
      by_cases hin : .kClean ∈ t.fsErrors
      · exact .inl ⟨hin, h⟩
      · refine .inr fun e he => (h e he).resolve_right ?_
        rintro rfl
        exact hin he
  have hdata : t.report.dataTest.getError = t.lastError := foldl_setError t.dataErrors {}
  unfold SingleTestInfo.getTestResult verdict
  simp only [hclean, hdata, summary_only_iff t (e := .kFixed) (by decide),
    summary_only_iff t (e := .kKernelMount) (by decide)]

/-- The verdict depends only on the set of file system errors that were noted, and on the last data
error. -/
theorem getTestResult_congr {t t' : NotedTest}
    (hfs : ∀ e, e ≠ .kCheckNotRun → (e ∈ t.fsErrors ↔ e ∈ t'.fsErrors))
    (hlast : t.lastError = t'.lastError) : t.report.getTestResult = t'.report.getTestResult := by
  have hsummary : t.report.fsTest.getError = t'.report.fsTest.getError :=
    (FileSystemTestResult.summary_alike_iff _ _).mpr
      ((FileSystemTestResult.noted_alike_iff _ _).mpr hfs)
  have hdata (t : NotedTest) : t.report.dataTest.getError = t.lastError :=
    foldl_setError t.dataErrors {}
  simp only [SingleTestInfo.getTestResult, hsummary, hdata, hlast]

end NotedTest

/-- The counter of a verdict. -/
def ResultSet.verdicts (set : ResultSet) : ResultType → UInt32
  | .kPassed => set.numPassed
  | .kFsckFixed => set.numPassedFixed
  | .kFsckRequired => set.fsckRequired
  | .kFailed => set.numFailed

/-- The counter of an error. A test that is clean has none. -/
def ResultSet.errors (set : ResultSet) : DataTestResult.ErrorType → UInt32
  | .kClean => 0
  | .kOldFilePersisted => set.oldFilePersisted
  | .kFileMissing => set.fileMissing
  | .kFileDataCorrupted => set.fileDataCorrupted
  | .kFileMetadataCorrupted => set.fileMetadataCorrupted
  | .kIncorrectBlockCount => set.incorrectBlockCount
  | .kOther => set.other
  | .kAutoCheckFailed => set.autoCheckFailed

theorem verdicts_countError (set : ResultSet) (e : DataTestResult.ErrorType) :
    (set.countError e).verdicts = set.verdicts := by
  funext v
  cases e <;> cases v <;> rfl

theorem errors_countError (set : ResultSet) (e e' : DataTestResult.ErrorType) (he : e' ≠ .kClean) :
    (set.countError e).errors e' = set.errors e' + if e = e' then 1 else 0 := by
  cases e <;> cases e' <;> first | exact absurd rfl he | simp [ResultSet.countError, ResultSet.errors]

theorem verdicts_tallyResult (r : SingleTestInfo) (set : ResultSet) (v : ResultType) :
    (tallyResult r set).verdicts v = set.verdicts v + if r.getTestResult = v then 1 else 0 := by
  unfold tallyResult
  cases r.getTestResult with
  | kFailed =>
    rw [verdicts_countError]
    cases v <;> simp [ResultSet.verdicts]
  | _ => cases v <;> simp [ResultSet.verdicts]

theorem errors_tallyResult (r : SingleTestInfo) (set : ResultSet) {e : DataTestResult.ErrorType}
    (he : e ≠ .kClean) :
    (tallyResult r set).errors e =
      set.errors e + if r.getTestResult = .kFailed ∧ r.dataTest.getError = e then 1 else 0 := by
  unfold tallyResult
  cases r.getTestResult with
  | kFailed =>
    rw [errors_countError _ _ _ he]
    cases e <;> simp [ResultSet.errors]
  | _ => cases e <;> simp [ResultSet.errors]

inductive TestKind where
  | timing | reordering
  deriving DecidableEq, Repr

def SuiteResult.tally (suite : SuiteResult) : TestKind × NotedTest → SuiteResult
  | (.timing, t) => suite.tallyTimingResult t.report.toSingleTestInfo
  | (.reordering, t) => suite.tallyReorderingResult t.report.toSingleTestInfo

/-- The counters of a kind. -/
def SuiteResult.results (suite : SuiteResult) : TestKind → ResultSet
  | .timing => suite.timingResults
  | .reordering => suite.reorderingResults

/-- The counters count the tests of their kind, each under its verdict, and under its last error if it
has failed. -/
structure Tallied (kind : TestKind) (tests : List (TestKind × NotedTest)) (set : ResultSet) :
    Prop where
  verdicts : ∀ v, (set.verdicts v).toNat =
    tests.countP (fun x => x.1 = kind ∧ x.2.verdict = v) % 2 ^ 32
  errors : ∀ e, e ≠ .kClean → (set.errors e).toNat =
    tests.countP (fun x => x.1 = kind ∧ x.2.verdict = .kFailed ∧ x.2.lastError = e) % 2 ^ 32

theorem results_tally (suite : SuiteResult) (x : TestKind × NotedTest) (kind : TestKind) :
    (suite.tally x).results kind =
      if x.1 = kind then tallyResult x.2.report.toSingleTestInfo (suite.results kind)
      else suite.results kind := by
  obtain ⟨k, t⟩ := x
  cases k <;> cases kind <;> rfl

theorem tallied (kind : TestKind) (tests : List (TestKind × NotedTest)) :
    Tallied kind tests ((tests.foldl SuiteResult.tally {}).results kind) := by
  constructor
  · intro v
    have hstep (suite : SuiteResult) (x : TestKind × NotedTest) :
        ((suite.tally x).results kind).verdicts v = (suite.results kind).verdicts v +
          if decide (x.1 = kind ∧ x.2.verdict = v) then 1 else 0 := by
      rw [results_tally]
      by_cases hkind : x.1 = kind
      · simp [hkind, verdicts_tallyResult, NotedTest.getTestResult_eq]
      · simp [hkind]
    have hzero : ((({} : SuiteResult).results kind).verdicts v) = 0 := by
      cases kind <;> cases v <;> rfl
    rw [foldl_count SuiteResult.tally (fun suite => (suite.results kind).verdicts v) _ hstep, hzero,
      UInt32.zero_add, UInt32.toNat_ofNat']
  · intro e he
    have hstep (suite : SuiteResult) (x : TestKind × NotedTest) :
        ((suite.tally x).results kind).errors e = (suite.results kind).errors e +
          if decide (x.1 = kind ∧ x.2.verdict = .kFailed ∧ x.2.lastError = e) then 1 else 0 := by
      have hdata : x.2.report.dataTest.getError = x.2.lastError :=
        NotedTest.foldl_setError x.2.dataErrors {}
      rw [results_tally]
      by_cases hkind : x.1 = kind
      · simp [hkind, errors_tallyResult _ _ he, NotedTest.getTestResult_eq, hdata]
      · simp [hkind]
    have hzero : ((({} : SuiteResult).results kind).errors e) = 0 := by
      cases kind <;> cases e <;> rfl
    rw [foldl_count SuiteResult.tally (fun suite => (suite.results kind).errors e) _ hstep, hzero,
      UInt32.zero_add, UInt32.toNat_ofNat']

theorem completed_tallyResult (r : SingleTestInfo) (set : ResultSet) :
    (tallyResult r set).numPassed + (tallyResult r set).numPassedFixed +
        (tallyResult r set).fsckRequired + (tallyResult r set).numFailed =
      set.numPassed + set.numPassedFixed + set.fsckRequired + set.numFailed + 1 := by
  have hpassed : (tallyResult r set).numPassed = _ := verdicts_tallyResult r set .kPassed
  have hfixed : (tallyResult r set).numPassedFixed = _ := verdicts_tallyResult r set .kFsckFixed
  have hrequired : (tallyResult r set).fsckRequired = _ := verdicts_tallyResult r set .kFsckRequired
  have hfailed : (tallyResult r set).numFailed = _ := verdicts_tallyResult r set .kFailed
  rw [hpassed, hfixed, hrequired, hfailed]
  cases r.getTestResult <;> simp only [ResultSet.verdicts] <;> grind

theorem completed_tally (suite : SuiteResult) (x : TestKind × NotedTest) :
    (suite.tally x).getCompleted = suite.getCompleted + 1 := by
  obtain ⟨kind, t⟩ := x
  cases kind with
  | timing =>
    have htally : (suite.tally (.timing, t)).getTimingCompleted = suite.getTimingCompleted + 1 :=
      completed_tallyResult t.report.toSingleTestInfo suite.timingResults
    have hother : (suite.tally (.timing, t)).getReorderingCompleted = suite.getReorderingCompleted :=
      rfl
    rw [SuiteResult.getCompleted, SuiteResult.getCompleted, htally, hother]
    grind
  | reordering =>
    have htally : (suite.tally (.reordering, t)).getReorderingCompleted =
        suite.getReorderingCompleted + 1 :=
      completed_tallyResult t.report.toSingleTestInfo suite.reorderingResults
    have hother : (suite.tally (.reordering, t)).getTimingCompleted = suite.getTimingCompleted := rfl
    rw [SuiteResult.getCompleted, SuiteResult.getCompleted, htally, hother]
    grind

/-- After any tests of the two kinds, in any order and with any errors noted in any order, every
test has been counted once, in the counters of its kind. -/
theorem suite_tallied (tests : List (TestKind × NotedTest)) :
    (∀ kind, Tallied kind tests ((tests.foldl SuiteResult.tally {}).results kind)) ∧
      (tests.foldl SuiteResult.tally {}).getCompleted.toNat = tests.length % 2 ^ 32 := by
  constructor
  · exact fun kind => tallied kind tests
  · have hstep (suite : SuiteResult) (x : TestKind × NotedTest) :
        (suite.tally x).getCompleted = suite.getCompleted + if true then 1 else 0 := by
      rw [if_pos rfl, completed_tally]
    rw [foldl_count SuiteResult.tally SuiteResult.getCompleted (fun _ => true) hstep, List.countP_true]
    have hzero : ({} : SuiteResult).getCompleted = 0 := rfl
    rw [hzero, UInt32.zero_add, UInt32.toNat_ofNat']

/-- The part of `PrintResults` that both kinds of tests have. -/
def ResultSet.printCounts (r : ResultSet) (title : Path) (completed : UInt32) (os : OStream) :
    OStream :=
  os.put title |>.put (decimal completed.toNat) |>.put (path " tests with".toList)
    |>.put (path "\n\tpassed cleanly: ".toList) |>.put (decimal r.numPassed.toNat)
    |>.put (path "\n\tpassed fixed: ".toList) |>.put (decimal r.numPassedFixed.toNat)
    |>.put (path "\n\tfsck required: ".toList) |>.put (decimal r.fsckRequired.toNat)
    |>.put (path "\n\tfailed: ".toList) |>.put (decimal r.numFailed.toNat)
    |>.put (path "\n\t\told file persisted: ".toList) |>.put (decimal r.oldFilePersisted.toNat)
    |>.put (path "\n\t\tfile missing: ".toList) |>.put (decimal r.fileMissing.toNat)
    |>.put (path "\n\t\tfile data corrupted: ".toList) |>.put (decimal r.fileDataCorrupted.toNat)
    |>.put (path "\n\t\tfile metadata corrupted: ".toList)
    |>.put (decimal r.fileMetadataCorrupted.toNat)
    |>.put (path "\n\t\tincorrect block count: ".toList) |>.put (decimal r.incorrectBlockCount.toNat)
    |>.put (path "\n\t\tother: ".toList) |>.put (decimal r.other.toNat)

/-- The automated checks are printed of the timing tests only. -/
def SuiteResult.printResults (suite : SuiteResult) (os : OStream) : OStream :=
  let os := suite.reorderingResults.printCounts (path "Reordering tests ran ".toList)
    suite.getReorderingCompleted os
  let os := os.put endl |>.put endl
  let os := suite.timingResults.printCounts (path "Timing tests ran ".toList)
    suite.getTimingCompleted os
  os.put (path "\n\n\tautomated check_test:".toList) |>.put (path "\n\t\tfailed: ".toList)
    |>.put (decimal suite.timingResults.autoCheckFailed.toNat) |>.put endl |>.put endl

/-- The counters that are printed of both kinds. -/
def ResultSet.counts (r : ResultSet) : List Nat :=
  [r.numPassed.toNat, r.numPassedFixed.toNat, r.fsckRequired.toNat, r.numFailed.toNat,
    r.oldFilePersisted.toNat, r.fileMissing.toNat, r.fileDataCorrupted.toNat,
    r.fileMetadataCorrupted.toNat, r.incorrectBlockCount.toNat, r.other.toNat]

def countLabels : List Path :=
  [path "\tpassed cleanly: ".toList, path "\tpassed fixed: ".toList,
    path "\tfsck required: ".toList, path "\tfailed: ".toList, path "\t\told file persisted: ".toList,
    path "\t\tfile missing: ".toList, path "\t\tfile data corrupted: ".toList,
    path "\t\tfile metadata corrupted: ".toList, path "\t\tincorrect block count: ".toList,
    path "\t\tother: ".toList]

/-- A block that goes on with a new line. -/
theorem printCounts_put (r : ResultSet) (title : Path) (completed : UInt32) (tail : Path)
    (os : OStream) : (r.printCounts title completed os).put (10 :: tail) =
      os.put (title ++ (decimal completed.toNat ++ path " tests with\n".toList ++
        (labelled 10 countLabels r.counts ++ tail))) := by
  simp only [ResultSet.printCounts, OStream.put_put, labelled, countLabels, ResultSet.counts,
    List.zip_cons_cons, List.zip_nil_left, List.flatMap_cons, List.flatMap_nil, List.append_assoc,
    List.append_nil]
  rfl

/-- What `printCounts` shows of some counters. -/
def ResultSet.shown (r : ResultSet) : ResultSet := { r with autoCheckFailed := 0 }

theorem counts_alike_iff (r r' : ResultSet) : r.counts = r'.counts ↔ r.shown = r'.shown := by
  simp only [ResultSet.counts, ResultSet.shown, List.cons.injEq, UInt32.toNat_inj,
    ResultSet.mk.injEq]
  tauto

theorem shown_alike_iff (r r' : ResultSet) :
    r = r' ↔ r.shown = r'.shown ∧ r.autoCheckFailed = r'.autoCheckFailed := by
  cases r
  cases r'
  simp only [ResultSet.shown, ResultSet.mk.injEq]
  tauto

/-- All that `PrintResults` puts. -/
theorem printResults_text (suite : SuiteResult) (os : OStream) :
    suite.printResults os = os.put (path "Reordering tests ran ".toList ++
      (decimal suite.getReorderingCompleted.toNat ++ path " tests with\n".toList ++
        (labelled 10 countLabels suite.reorderingResults.counts ++
          (path "\nTiming tests ran ".toList ++
            (decimal suite.getTimingCompleted.toNat ++ path " tests with\n".toList ++
              (labelled 10 countLabels suite.timingResults.counts ++
                (path "\n\tautomated check_test:\n\t\tfailed: ".toList ++
                  (decimal suite.timingResults.autoCheckFailed.toNat ++ endl ++ endl)))))))) := by
  have hclose (os : OStream) : (os.put endl).put endl = os.put (10 :: [10]) := os.put_put _ _
  have hchecks (os : OStream) :
      ((((os.put (path "\n\n\tautomated check_test:".toList)).put
        (path "\n\t\tfailed: ".toList)).put
        (decimal suite.timingResults.autoCheckFailed.toNat)).put endl).put endl =
      os.put (10 :: (path "\n\tautomated check_test:\n\t\tfailed: ".toList ++
        (decimal suite.timingResults.autoCheckFailed.toNat ++ endl ++ endl))) := by
    simp only [OStream.put_put, List.append_assoc]
    rfl
  simp only [SuiteResult.printResults]
  rw [hchecks, hclose, printCounts_put, printCounts_put, OStream.put_put]
  simp only [List.append_assoc]
  rfl

/-- The number of completed tests of a kind is one of the counters that are printed. -/
theorem completed_of_counts {r r' : ResultSet} (h : r.counts = r'.counts) :
    r.numPassed + r.numPassedFixed + r.fsckRequired + r.numFailed =
      r'.numPassed + r'.numPassedFixed + r'.fsckRequired + r'.numFailed := by
  simp only [ResultSet.counts, List.cons.injEq, UInt32.toNat_inj] at h
  obtain ⟨hpassed, hfixed, hrequired, hfailed, -⟩ := h
  rw [hpassed, hfixed, hrequired, hfailed]

/-- The statistics of two suites are printed alike just when all counters are the same, except for
the failed checks of reordering tests, which are not printed. -/
theorem suites_alike_iff (suite suite' : SuiteResult) (os : OStream) (hos : os.failbit = false) :
    suite.printResults os = suite'.printResults os ↔
      suite.timingResults = suite'.timingResults ∧
        suite.reorderingResults.shown = suite'.reorderingResults.shown := by
  have hspace (n : Nat) : (32 : UInt8) ∉ decimal n := notMem_decimal (.inl (by decide)) n
  have hnewline (n : Nat) : (10 : UInt8) ∉ decimal n := notMem_decimal (.inl (by decide)) n
  have hmark : (path " tests with\n".toList).head? = some 32 := by decide
  rw [printResults_text, printResults_text, OStream.put_injective hos, List.append_cancel_left_eq,
    append_mark_inj hmark (hspace _) (hspace _), labelled_inj (by decide) _ rfl rfl,
    List.append_cancel_left_eq, append_mark_inj hmark (hspace _) (hspace _),
    labelled_inj (by decide) _ rfl rfl, List.append_cancel_left_eq,
    append_mark_inj rfl (hnewline _) (hnewline _), shown_alike_iff, ← counts_alike_iff,
    ← counts_alike_iff, decimal_injective, decimal_injective, decimal_injective, UInt32.toNat_inj,
    UInt32.toNat_inj, UInt32.toNat_inj]
  constructor
  · rintro ⟨-, hreordering, -, htiming, hchecks, -⟩
    exact ⟨⟨htiming, hchecks⟩, hreordering⟩
  · rintro ⟨⟨htiming, hchecks⟩, hreordering⟩
    exact ⟨completed_of_counts hreordering, hreordering, completed_of_counts htiming, htiming,
      hchecks, rfl⟩

/-- A failed check of a reordering test is printed like a failure with no error. -/
theorem suites_alike_unclassified :
    (SuiteResult.tally {} (.reordering, { dataErrors := [.kAutoCheckFailed] })).printResults {} =
      (SuiteResult.tally {} (.reordering, { fsErrors := [.kCheck] })).printResults {} := by
  apply (suites_alike_iff _ _ {} rfl).mpr
  exact ⟨by decide, by decide⟩

end PMTester
