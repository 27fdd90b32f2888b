import PMTester.LogRoundTrip
import PMTester.Phases

/-!
# The verdict of a run

What a run of the program compares and reports when the changes it reads are the
log of some mods, for any disks. A run that returns 0 has made the check of
`check_disk_and_snapshot_contents` on these mods and has counted its result.
-/
namespace PMTester

open Script Transfer

namespace Tester

/-- What a frame leaves out does not matter to the loop of the check. -/
theorem askLoop_wire (segment : List DiskMod) :
    askLoop (segment.map DiskMod.wire) = askLoop segment := by
  induction segment with
  | nil => rfl
  | cons m rest ih =>
    rw [List.map_cons, askLoop, askLoop, ih]
    cases ht : m.modType <;>
      simp [DiskMod.wire, DiskMod.headerOnly, DiskMod.nameOnly, ht]

theorem checkedSegment_wire (mods : List DiskMod) :
    checkedSegment (segments (mods.map DiskMod.wire)) =
      (checkedSegment (segments mods)).map (List.map DiskMod.wire) := by
  simp only [segments_wire, checkedSegment, List.length_map, List.getElem?_map]
  split <;> simp

end Tester

/-- The disks, and what the program has compared on them and has reported. -/
structure Ledger (τ : Type) where
  disks : τ
  compared : List Comparison := []
  reports : List SingleTestInfo := []
  stats : List TestSuiteResult := []
  mountFailed : Bool := false
  /-- Both trees were listed, which is done last before the check. -/
  inspected : Bool := false

/-- Comparisons that may also not come back. -/
structure Comparing {τ : Type} (d : DiskChecks τ) where
  result : Comparison → τ → CompareResult
  ret : ∀ {c s value}, result c s = .ret value → (c.perform d s).1 = value

/-- Comparisons that always come back. -/
def Comparing.total {τ : Type} (d : DiskChecks τ) : Comparing d where
  result c s := .ret (c.perform d s).1
  ret h := CompareResult.ret.inj h

/-- The changes that are read are the log of these mods, however it was written and is read. -/
structure ReadsLog (mods : List DiskMod) (answer : Tester.ReadEnv × Source) : Prop where
  sizes : ∀ n, 8 ≤ answer.1.sizeAnswers n
  bodies : ∀ n, 1 ≤ answer.1.bodyAnswers n
  written : ∃ fresh answers rounds k, (∀ n, 1 ≤ answers n) ∧
    (mods.flatMap DiskMod.format).length < rounds ∧
    RecordCmFsOps.serialize fresh answers rounds mods ⟨[], 0⟩ = some (.ret 0, k) ∧
    answer.2 = ⟨k.written, 0⟩

section

variable {τ : Type} {d : DiskChecks τ} (a : Comparing d)
  (reads : Tester.ReadEnv × Source → Prop) (mods : List DiskMod)

/-- Comparisons and sanity checks are made on the disks, the changes that are read are such, and the
rest is answered as it may be. -/
def ledgerEnv : Env HarnessCall HarnessCall.Answer (Ledger τ) := fun l q answer l' =>
  match q, answer with
  | .compare c, result =>
    result = a.result c l.disks ∧
      l' = { l with disks := (c.perform d l.disks).2, compared := l.compared ++ [c] }
  | .sanityChecks, sane =>
    sane = (d.sanityChecks l.disks).1 ∧ l' = { l with disks := (d.sanityChecks l.disks).2 }
  | .printResults info, _ => l' = { l with reports := l.reports ++ [info] }
  | .printStats suite, _ => l' = { l with stats := l.stats ++ [suite] }
  | .system (.mount _ _ _), status =>
    l' = { l with mountFailed := l.mountFailed || decide (status ≠ 0) }
  | .system .diff, _ => l' = { l with inspected := true }
  | .readChanges _, answer => reads answer ∧ l' = l
  | _, _ => l' = l

/-- What is noted about a test whose check gave this. -/
def checkInfo (equal : Bool) : SingleTestInfo :=
  if !equal then { dataTest := DataTestResult.setError {} .kAutoCheckFailed } else {}

/-- Where the program stands after the check: the devices could not be mounted and nothing was
done, or the check of the mods was made and its result counted. -/
structure Checked (disks : τ) (suite : TestSuiteResult) (l : Ledger τ) : Prop where
  unmounted : l.mountFailed = true →
    l.inspected = false ∧ l.disks = disks ∧ l.compared = [] ∧ l.reports = [] ∧ suite = {}
  checked : l.mountFailed = false → ∃ equal,
    Tester.checkDiskAndSnapshotContents d (segments mods) disks = some (equal, l.disks) ∧
      l.compared = (((Tester.checkedSegment (segments mods)).bind
        (·.find? Tester.stops)).map Tester.comparisonAt).toList ∧
      (∀ c ∈ l.compared, ∃ value, a.result c disks = .ret value) ∧
      l.reports = [checkInfo equal] ∧
      suite = ({} : TestSuiteResult).tallyTimingResult (checkInfo equal)

/-- Nothing was compared or reported. -/
structure Silent (disks : τ) (l : Ledger τ) : Prop where
  disks : l.disks = disks
  compared : l.compared = []
  reports : l.reports = []
  stats : l.stats = []

/-- The comparison of the check did not come back, and nothing was reported. -/
structure Lost (disks : τ) (result : CompareResult) (l : Ledger τ) : Prop where
  compared : ∃ segment first, Tester.checkedSegment (segments mods) = some segment ∧
    segment.find? Tester.stops = some first ∧ l.compared = [Tester.comparisonAt first] ∧
    a.result (Tester.comparisonAt first) disks = result
  reports : l.reports = []
  stats : l.stats = []

/-- What the end of a run says. An exception that nothing catches ends it when the name of the file
system is unknown, when there is no segment to check, or when the comparison throws. -/
def Verdict (s : Settings) (disks : τ) : MainExit → Ledger τ → Prop
  | .returned code, l =>
    if code = 0 then ∃ suite, Checked a mods disks suite l ∧ l.stats = [suite]
    else Silent disks l ∧ l.inspected = false
  | .child _, l => Silent disks l ∧ l.inspected = false
  | .aborted, l =>
    Silent disks l ∧
        (l.inspected = false ∧ getFSCommands s.fs = none ∨
          l.inspected = true ∧ Tester.checkedSegment (segments mods) = none) ∨
      Lost a mods disks .badAlloc l
  | .fault, l => Lost a mods disks .fault l
  | .unfinished, l => l.inspected = true → Tester.checkedSegment (segments mods) ≠ none

variable {a reads mods}

/-- Housekeeping is not noted. -/
theorem ledger_housekeeping (q : HarnessCall) (answer : q.Answer) (l l' : Ledger τ)
    (hq : Housekeeping q) (hstep : ledgerEnv a reads l q answer l') : l' = l := by
  cases q with
  | dlopen _ | dlsym _ _ | dlclose _ | create _ | destroy _ _ | umount _ | usleep _ => exact hstep
  | _ => exact absurd hq id

/-- The ledger after a comparison. -/
def Ledger.after (l : Ledger τ) (compared : List Comparison) (disks : τ) : Ledger τ :=
  { l with disks := disks, compared := l.compared ++ compared }

variable (a) in
/-- A comparison with the sanity checks after it, or one that did not come back. -/
def Answered (c : Comparison) (l : Ledger τ) (result : CompareResult) (l' : Ledger τ) : Prop :=
  ∃ disks, l' = l.after [c] disks ∧
    match result with
    | .ret equal => (∃ value, a.result c l.disks = .ret value) ∧
        Tester.verdict d (c.perform d) l.disks = (equal, disks)
    | thrown => a.result c l.disks = thrown

theorem wp_askVerdict (c : Comparison) (l : Ledger τ) :
    Wp (ledgerEnv a reads) (Answered a c l) (Tester.askVerdict c) l := by
  rintro result l' ⟨hresult, rfl⟩
  cases result with
  | ret equal =>
    have hequal := a.ret hresult.symm
    change Wp _ _ (if _ then _ else _) _
    cases equal with
    | true =>
      rintro sane l' ⟨rfl, rfl⟩
      refine ⟨_, rfl, ⟨_, hresult.symm⟩, ?_⟩
      simp only [Tester.verdict, hequal, if_true]
      split <;> rfl
    | false =>
      refine ⟨_, rfl, ⟨_, hresult.symm⟩, ?_⟩
      simp [Tester.verdict, hequal]
  | badAlloc => exact ⟨_, rfl, hresult.symm⟩
  | fault => exact ⟨_, rfl, hresult.symm⟩

/-- The loop of the check asks for the comparison at the first mod it stops at. -/
theorem wp_askLoop (segment : List DiskMod) (l : Ledger τ) :
    Wp (ledgerEnv a reads)
      (fun result l' => match segment.find? Tester.stops with
        | none => result = .ret false ∧ l' = l
        | some m => Answered a (Tester.comparisonAt m) l result l')
      (Tester.askLoop segment) l := by
  induction segment with
  | nil => exact ⟨rfl, rfl⟩
  | cons m rest ih =>
    rw [List.find?_cons]
    cases ht : m.modType with
    | kFsyncMod | kSyncMod | kDataMod | kSyncFileRangeMod =>
      have hstops : Tester.stops m = true := by simp [Tester.stops, ht]
      have hverdict : Wp (ledgerEnv a reads) _ _ _ := wp_askVerdict (Tester.comparisonAt m) l
      simpa [Tester.askLoop, Tester.comparisonAt, ht, hstops] using hverdict
    | _ =>
      have hstops : Tester.stops m = false := by simp [Tester.stops, ht]
      simpa [Tester.askLoop, ht, hstops] using ih

/-- What the loop returns is what the check returns, and its comparison has come back. -/
theorem wp_askLoop_check (segment : List DiskMod) (l : Ledger τ) :
    Wp (ledgerEnv a reads)
      (fun result l' => ∃ disks,
        l' = l.after ((segment.find? Tester.stops).map Tester.comparisonAt).toList disks ∧
          match result with
          | .ret equal => Tester.checkLoop d segment l.disks = (equal, disks) ∧
              ∀ m ∈ segment.find? Tester.stops,
                ∃ value, a.result (Tester.comparisonAt m) l.disks = .ret value
          | thrown => ∃ m, segment.find? Tester.stops = some m ∧
              a.result (Tester.comparisonAt m) l.disks = thrown)
      (Tester.askLoop segment) l := by
  apply (wp_askLoop segment l).mono
  intro result l' hanswered
  rw [Tester.checkLoop_eq]
  cases hfind : segment.find? Tester.stops with
  | none =>
    rw [hfind] at hanswered
    obtain ⟨rfl, rfl⟩ := hanswered
    refine ⟨_, ?_, rfl, by simp⟩
    simp [Ledger.after]
  | some m =>
    rw [hfind] at hanswered
    obtain ⟨disks, rfl, hresult⟩ := hanswered
    refine ⟨disks, rfl, ?_⟩
    cases result with
    | ret equal => exact ⟨hresult.2, by simpa using hresult.1⟩
    | badAlloc => exact ⟨m, rfl, hresult⟩
    | fault => exact ⟨m, rfl, hresult⟩

section Steps

variable {s : Settings} {disks : τ}

/-- Before the check nothing is noted. -/
def Ledger.fresh (disks : τ) : Ledger τ := { disks := disks }

theorem silent_fresh : Silent disks (Ledger.fresh disks) := ⟨rfl, rfl, rfl, rfl⟩

theorem silent_start : Silent disks (Ledger.fresh disks) ∧ (Ledger.fresh disks).inspected = false :=
  ⟨silent_fresh, rfl⟩

theorem wp_housekeeping {R R' : Type} {post : R → Ledger τ → Prop} {post' : R' → Prop}
    {x : Harness R'} {f : R' → Harness R} {l : Ledger τ} (hx : x.Only Housekeeping post')
    (hf : ∀ r, post' r → Wp (ledgerEnv a reads) post (f r) l) :
    Wp (ledgerEnv a reads) post (x >>= f) l :=
  hx.wp (fun q a l' hq hstep => ledger_housekeeping q a l l' hq hstep) hf

theorem wp_giveUp {l : Ledger τ} (h : Silent disks l ∧ l.inspected = false) (rounds : Nat)
    (t : Tester) :
    Wp (ledgerEnv a reads) (Verdict a mods s disks) (Main.giveUp rounds t) l := by
  apply wp_housekeeping (Tester.only_cleanupHarness rounds t)
  rintro (_ | _) -
  · exact fun hinspected => by cases h.2.symm.trans hinspected
  · exact h

theorem wp_command (sockfd : Nat) (msg : SockMessage) {next : Harness MainExit}
    (hnext : Wp (ledgerEnv a reads) (Verdict a mods s disks) next (.fresh disks)) :
    Wp (ledgerEnv a reads) (Verdict a mods s disks) (Main.command sockfd msg next)
      (.fresh disks) := by
  rintro sent l' rfl
  change Wp _ _ (if _ then _ else _) _
  split
  · exact silent_start
  · rintro err l' rfl
    exact hnext

/-- Nothing was read and nothing counted so far. -/
structure Blank (t : Tester) : Prop where
  mods : t.mods = []
  suite : t.suite = {}

variable {t : Tester} {next : Tester → Harness MainExit}

theorem wp_unmountNova (ht : Blank t) (rounds : Nat)
    (hnext : ∀ t, Blank t →
      Wp (ledgerEnv a reads) (Verdict a mods s disks) (next t) (.fresh disks)) :
    Wp (ledgerEnv a reads) (Verdict a mods s disks) (Main.prepare.unmountNova rounds t next)
      (.fresh disks) := by
  unfold Main.prepare.unmountNova
  split
  · apply wp_housekeeping (Tester.only_umountDevice t)
    rintro ⟨res, err, t⟩ ⟨mounted, rfl⟩
    dsimp only
    split
    · exact wp_giveUp silent_start rounds _
    · exact hnext _ ⟨ht.mods, ht.suite⟩
  · exact hnext t ht

theorem wp_remountNova (ht : Blank t) (rounds : Nat) (c : FSCommands)
    (hnext : ∀ t, Blank t →
      Wp (ledgerEnv a reads) (Verdict a mods s disks) (next t) (.fresh disks)) :
    Wp (ledgerEnv a reads) (Verdict a mods s disks) (Main.prepare.remountNova rounds c t next)
      (.fresh disks) := by
  unfold Main.prepare.remountNova
  split
  · rintro status l' rfl
    change Wp _ _ (if mountDevice status ≠ _ then _ else _) _
    by_cases hstatus : status = 0
    · subst hstatus
      rw [if_neg (by simp [mountDevice, success, Tester.success])]
      exact hnext t ht
    · split
      · refine wp_giveUp ?_ rounds t
        exact ⟨⟨rfl, rfl, rfl, rfl⟩, rfl⟩
      · rename_i hmount
        simp [mountDevice, hstatus, mntErr, Tester.success] at hmount
  · exact hnext t ht

theorem wp_prepare (ht : Blank t) (rounds : Nat) (c : FSCommands)
    (hnext : ∀ t, Blank t →
      Wp (ledgerEnv a reads) (Verdict a mods s disks) (next t) (.fresh disks)) :
    Wp (ledgerEnv a reads) (Verdict a mods s disks) (Main.prepare rounds c t next)
      (.fresh disks) := by
  rintro status l' rfl
  change Wp _ _ (if (if status ≠ 0 then _ else _) ≠ _ then _ else _) _
  split
  · exact wp_giveUp silent_start rounds t
  · apply wp_unmountNova ht
    intro t ht
    rintro status l' rfl
    change Wp _ _ (if (if status ≠ 0 then _ else _) ≠ _ then _ else _) _
    split
    · exact wp_giveUp silent_start rounds t
    · rintro status l' rfl
      change Wp _ _ (if (if status ≠ 0 then _ else _) ≠ _ then _ else _) _
      split
      · exact wp_giveUp silent_start rounds t
      · apply wp_remountNova ht
        intro t ht
        rintro _ l' rfl
        exact hnext t ht

/-- The log that was written is read back. -/
theorem ReadsLog.getChangeData {answer : Tester.ReadEnv × Source} (h : ReadsLog mods answer)
    (hmods : ∀ m ∈ mods, m.Writable) {rounds : Nat}
    (hr : (mods.flatMap DiskMod.format).length < rounds) :
    Tester.getChangeData answer.1 rounds [] answer.2 =
      some (.ret Tester.success, segments (mods.map DiskMod.wire)) := by
  obtain ⟨fresh, answers, rounds', k, hans, hr', hwrite, hfile⟩ := h.written
  obtain ⟨calls, heq⟩ :=
    RecordCmFsOps.serialize_eq fresh answers hans mods hmods rounds' hr' ⟨[], 0⟩
  rw [heq] at hwrite
  cases hwrite
  have hframed : ∀ e ∈ mods.map fun m => (m.format, m.wire), Tester.Framed e.1 e.2 := by
    intro e he
    obtain ⟨m, hm, rfl⟩ := List.mem_map.mp he
    exact (hmods m hm).framed
  have hread := Tester.getChangeData_eq answer.1 h.sizes h.bodies rounds
    (mods.map fun m => (m.format, m.wire)) hframed (by simpa [List.flatMap_map] using hr) [] 0
  rw [hfile, ← Tester.foldl_addMod_nil]
  simpa [List.flatMap_map, List.foldl_map] using hread

theorem wp_runTest (hreads : ∀ answer, reads answer → ReadsLog mods answer)
    (hmods : ∀ m ∈ mods, m.Writable) {rounds : Nat}
    (hr : (mods.flatMap DiskMod.format).length < rounds) (ht : Blank t)
    (hnext : ∀ t : Tester, t.mods = segments (mods.map DiskMod.wire) → t.suite = {} →
      Wp (ledgerEnv a reads) (Verdict a mods s disks) (next t) (.fresh disks)) :
    Wp (ledgerEnv a reads) (Verdict a mods s disks) (Main.runTest rounds t next) (.fresh disks) := by
  rintro _ l' rfl
  intro forked l' hl'
  cases forked with
  | failed =>
    cases hl'
    exact wp_giveUp silent_start rounds t
  | child =>
    cases hl'
    rintro changeFd l' rfl
    change Wp _ _ (if _ then _ else _) _
    split
    · exact silent_start
    · rintro res l' rfl _ l' rfl
      exact silent_start
  | parent =>
    cases hl'
    rintro status l' rfl
    change Wp _ _ (if _ then _ else _) _
    split
    · exact wp_giveUp silent_start rounds t
    · rintro changeFd l' rfl
      change Wp _ _ (if _ then _ else _) _
      split
      · exact wp_giveUp silent_start rounds t
      · rintro offset l' rfl
        change Wp _ _ (if _ then _ else _) _
        split
        · exact wp_giveUp silent_start rounds t
        · rintro ⟨env, file⟩ l' ⟨hfile, rfl⟩
          have hread := (hreads _ hfile).getChangeData hmods hr
          dsimp only [Script.bind]
          rw [ht.mods, hread]
          exact hnext _ rfl ht.suite

/-- A run that has come to the check has a segment to look at, if the check is behind it. -/
theorem Checked.segment {suite : TestSuiteResult} {l : Ledger τ} (h : Checked a mods disks suite l)
    (hinspected : l.inspected = true) : Tester.checkedSegment (segments mods) ≠ none := by
  intro hnone
  cases hmount : l.mountFailed with
  | true => cases (h.unmounted hmount).1.symm.trans hinspected
  | false =>
    obtain ⟨equal, hcheck, -⟩ := h.checked hmount
    rw [Tester.checkDiskAndSnapshotContents, hnone] at hcheck
    cases hcheck

/-- Without a segment to look at, the check ends the program. -/
theorem Verdict.aborted_of_no_segment {e : MainExit} {l : Ledger τ}
    (h : Verdict a mods s disks e l) (hnone : Tester.checkedSegment (segments mods) = none)
    (hinspected : l.inspected = true) : e = .aborted := by
  cases e with
  | returned code =>
    by_cases hcode : code = 0
    · subst hcode
      obtain ⟨suite, hchecked, -⟩ := h
      exact absurd hnone (hchecked.segment hinspected)
    · rw [Verdict, if_neg hcode] at h
      cases h.2.symm.trans hinspected
  | child code => cases h.2.symm.trans hinspected
  | aborted => rfl
  | fault =>
    obtain ⟨segment, first, hsegment, -⟩ := h.compared
    cases hsegment.symm.trans hnone
  | unfinished => exact absurd hnone (h hinspected)

/-- The devices of the check could not be mounted. -/
theorem checked_unmounted {l : Ledger τ} (h : Silent disks l) (hinspected : l.inspected = false)
    (hfailed : l.mountFailed = true) : Checked a mods disks {} l :=
  ⟨fun _ => ⟨hinspected, h.disks, h.compared, h.reports, rfl⟩,
    fun hmounted => by cases hfailed.symm.trans hmounted⟩

/-- A comparison that does not come back is the first thing that is noted. -/
theorem lost_of_thrown {segment : List DiskMod} {m : DiskMod} {l : Ledger τ} {disks' : τ}
    {result : CompareResult} (hl : Silent disks l)
    (hsegment : Tester.checkedSegment (segments mods) = some segment)
    (hfind : segment.find? Tester.stops = some m)
    (hthrown : a.result (Tester.comparisonAt m) disks = result) :
    Lost a mods disks result
      (l.after ((segment.find? Tester.stops).map Tester.comparisonAt).toList disks') :=
  ⟨⟨segment, m, hsegment, hfind, by simp [hfind, Ledger.after, hl.compared], hthrown⟩, hl.reports,
    hl.stats⟩

/-- The check of the mods that were read is the check of the mods that were written. -/
theorem wp_testCheck (htmods : t.mods = segments (mods.map DiskMod.wire)) (hsuite : t.suite = {})
    (c : FSCommands) (devicePath : Path) :
    Wp (ledgerEnv a reads)
      (fun r l => match r with
        | .error e => Verdict a mods s disks e l
        | .ok t => Checked a mods disks t.suite l ∧ l.stats = [])
      (t.testCheck c devicePath) (.fresh disks) := by
  unfold Tester.testCheck
  rintro status l' rfl
  change Wp _ _ (if mountDevice status ≠ _ then _ else _) _
  by_cases hstatus : status = 0
  · subst hstatus
    rw [if_neg (by simp [mountDevice, success, Tester.success])]
    rintro status l' rfl
    change Wp _ _ (if mountDevice status ≠ _ then _ else _) _
    by_cases hstatus : status = 0
    · subst hstatus
      rw [if_neg (by simp [mountDevice, success, Tester.success])]
      rintro _ l' rfl _ l' rfl _ l' rfl _ l' rfl
      dsimp only
      rw [htmods, Tester.checkedSegment_wire]
      cases hsegment : Tester.checkedSegment (segments mods) with
      | none => exact .inl ⟨⟨rfl, rfl, rfl, rfl⟩, .inr ⟨rfl, hsegment⟩⟩
      | some segment =>
        change Wp _ _ (Tester.askLoop (segment.map DiskMod.wire) >>= _) _
        rw [Tester.askLoop_wire, wp_bind]
        apply (wp_askLoop_check segment _).mono
        rintro result l' ⟨disks', rfl, hresult⟩
        cases result with
        | ret equal =>
          obtain ⟨hcheck, hcame⟩ := hresult
          rintro _ l' rfl
          refine ⟨⟨?_, fun _ => ⟨equal, ?_, ?_, ?_, rfl, ?_⟩⟩, rfl⟩
          · intro h
            cases h
          · rw [Tester.checkDiskAndSnapshotContents, hsegment]
            exact congrArg some hcheck
          · rw [hsegment]
            rfl
          · simpa [Ledger.after, Ledger.fresh] using hcame
          · rw [← hsuite]
            rfl
        | badAlloc =>
          obtain ⟨m, hfind, hthrown⟩ := hresult
          exact .inr (lost_of_thrown ⟨rfl, rfl, rfl, rfl⟩ hsegment hfind hthrown)
        | fault =>
          obtain ⟨m, hfind, hthrown⟩ := hresult
          exact lost_of_thrown ⟨rfl, rfl, rfl, rfl⟩ hsegment hfind hthrown
    · rw [if_pos (by simp [mountDevice, hstatus, mntErr, Tester.success])]
      refine ⟨?_, rfl⟩
      rw [hsuite]
      exact checked_unmounted ⟨rfl, rfl, rfl, rfl⟩ rfl (by simp [hstatus])
  · rw [if_pos (by simp [mountDevice, hstatus, mntErr, Tester.success])]
    refine ⟨?_, rfl⟩
    rw [hsuite]
    exact checked_unmounted ⟨rfl, rfl, rfl, rfl⟩ rfl (by simp [hstatus])

theorem wp_finish (htmods : t.mods = segments (mods.map DiskMod.wire)) (hsuite : t.suite = {})
    (rounds : Nat) (c : FSCommands) :
    Wp (ledgerEnv a reads) (Verdict a mods s disks) (Main.finish rounds c s t) (.fresh disks) := by
  unfold Main.finish
  rw [wp_bind]
  apply (wp_testCheck (s := s) htmods hsuite c _).mono
  rintro (e | t) l h
  · exact h
  · obtain ⟨hchecked, hstats⟩ := h
    have hprinted : Checked a mods disks t.suite { l with stats := l.stats ++ [t.suite] } :=
      ⟨hchecked.unmounted, hchecked.checked⟩
    rintro _ l' rfl
    apply wp_housekeeping (Tester.only_cleanupHarness rounds t)
    rintro (_ | _) -
    · exact hprinted.segment
    · rintro _ l' rfl
      exact ⟨t.suite, hprinted, by simp [hstats]⟩

theorem wp_connected (hreads : ∀ answer, reads answer → ReadsLog mods answer)
    (hmods : ∀ m ∈ mods, m.Writable) {rounds : Nat}
    (hr : (mods.flatMap DiskMod.format).length < rounds) (ht : Blank t) (fresh : SockMessage)
    (c : FSCommands) (sockfd : Nat) :
    Wp (ledgerEnv a reads) (Verdict a mods s disks) (Main.connected rounds fresh c s t sockfd)
      (.fresh disks) := by
  apply wp_prepare ht
  intro t ht
  apply wp_command
  apply wp_runTest hreads hmods hr ht
  intro t htmods hsuite
  apply wp_command
  apply wp_housekeeping (Tester.only_umountDevice t)
  rintro ⟨res, err, t⟩ ⟨mounted, rfl⟩
  dsimp only
  split
  · exact wp_giveUp silent_start rounds _
  · apply wp_command
    apply wp_command
    apply wp_finish
    · exact htmods
    · exact hsuite

end Steps

/-- Every run of the program with a log in its changes. -/
theorem wp_main (hreads : ∀ answer, reads answer → ReadsLog mods answer)
    (hmods : ∀ m ∈ mods, m.Writable) {rounds : Nat}
    (hr : (mods.flatMap DiskMod.format).length < rounds) (fresh : SockMessage) {opts : List Opt}
    {s : Settings} (hopts : Settings.parse opts {} = some s) (files : List Path) (disks : τ) :
    Wp (ledgerEnv a reads) (Verdict a mods s disks) (Main.main rounds fresh opts files)
      (.fresh disks) := by
  unfold Main.main
  rw [hopts]
  cases files with
  | nil => exact silent_start
  | cons testCasePath _ =>
    dsimp only
    cases hfs : getFSCommands s.fs with
    | none => exact .inl ⟨silent_fresh, .inl ⟨rfl, hfs⟩⟩
    | some c =>
      apply wp_housekeeping (Tester.only_testLoadClass _ testCasePath)
      rintro ⟨res, t⟩ ⟨l, rfl⟩
      dsimp only
      split
      · exact wp_giveUp silent_start rounds _
      · rintro _ l' rfl sockfd l' rfl
        cases sockfd with
        | none => exact silent_start
        | some sockfd => exact wp_connected hreads hmods hr ⟨rfl, rfl⟩ fresh c sockfd

/-- A run that returns 0 has made the check of the recorded mods and has counted its result once, or
a device could not be mounted and nothing is counted. An exception ends a run only when there is
nothing to check or the comparison throws. A run that ends in another way reports nothing. -/
theorem run_reports_check (d : DiskChecks τ) (a : Comparing d) (mods : List DiskMod)
    (hmods : ∀ m ∈ mods, m.Writable) (rounds : Nat)
    (hr : (mods.flatMap DiskMod.format).length < rounds) (fresh : SockMessage) (opts : List Opt)
    (s : Settings) (hopts : Settings.parse opts {} = some s) (files : List Path) (disks : τ)
    (e : MainExit) (l : Ledger τ)
    (hends : ComesTo (ledgerEnv a (ReadsLog mods)) (Main.main rounds fresh opts files) (.fresh disks)
      e l) : Verdict a mods s disks e l :=
  (wp_main (fun _ h => h) hmods hr fresh hopts files disks).ends hends

end

section

variable {τ : Type} {d : DiskChecks τ} {a : Comparing d} {reads : Tester.ReadEnv × Source → Prop}
  {mods : List DiskMod}

theorem ends_askVerdict {f : CompareResult → Harness MainExit} {e : MainExit} {P : Ledger τ → Prop}
    (c : Comparison) (l : Ledger τ) (hreturns : ∃ value, a.result c l.disks = .ret value)
    (hnext : ∀ equal disks, ∃ l',
      ComesTo (ledgerEnv a reads) (f (.ret equal)) (l.after [c] disks) e l' ∧ P l') :
    ∃ l', ComesTo (ledgerEnv a reads) (Tester.askVerdict c >>= f) l e l' ∧ P l' := by
  obtain ⟨value, hvalue⟩ := hreturns
  refine ends_next (.ret value : CompareResult) ⟨hvalue.symm, rfl⟩ ?_
  cases value with
  | false => exact hnext _ _
  | true => exact ends_next (d.sanityChecks _).1 ⟨rfl, rfl⟩ (hnext _ _)

theorem ends_askLoop {f : CompareResult → Harness MainExit} {e : MainExit} {P : Ledger τ → Prop}
    (segment : List DiskMod) (l : Ledger τ)
    (hreturns : ∀ m ∈ segment.find? Tester.stops,
      ∃ value, a.result (Tester.comparisonAt m) l.disks = .ret value)
    (hnext : ∀ equal disks, ∃ l', ComesTo (ledgerEnv a reads) (f (.ret equal))
      (l.after ((segment.find? Tester.stops).map Tester.comparisonAt).toList disks) e l' ∧ P l') :
    ∃ l', ComesTo (ledgerEnv a reads) (Tester.askLoop segment >>= f) l e l' ∧ P l' := by
  induction segment with
  | nil =>
    have hafter : l.after [] l.disks = l := by simp [Ledger.after]
    have hend := hnext false l.disks
    rwa [List.find?_nil, Option.map_none, Option.toList_none, hafter] at hend
  | cons m rest ih =>
    rw [List.find?_cons] at hnext hreturns
    cases ht : m.modType with
    | kFsyncMod | kSyncMod | kDataMod | kSyncFileRangeMod =>
      have hstops : Tester.stops m = true := by simp [Tester.stops, ht]
      rw [hstops] at hnext hreturns
      have hverdict := ends_askVerdict (Tester.comparisonAt m) l (hreturns m rfl) hnext
      simpa [Tester.askLoop, Tester.comparisonAt, ht] using hverdict
    | _ =>
      have hstops : Tester.stops m = false := by simp [Tester.stops, ht]
      rw [hstops] at hnext hreturns
      simpa [Tester.askLoop, ht] using ih hreturns hnext

/-- The tester before the check, when nothing has failed. -/
def quietTester (mods : List (List DiskMod)) : Tester where
  deviceSize := recordSize
  fs := ({} : Settings).fs
  fsCommands := some .nova
  recordDevicePath := ({} : Settings).recordDevicePath
  replayDevicePath := ({} : Settings).replayDevicePath
  testLoader := ⟨some 1, some 2, some 3, some 4⟩
  mods := mods

theorem finish_ends (mods : List (List DiskMod)) {segment : List DiskMod}
    (hsegment : Tester.checkedSegment mods = some (segment.map DiskMod.wire)) (rounds : Nat) (disks : τ)
    (hreturns : ∀ m ∈ segment.find? Tester.stops,
      ∃ value, a.result (Tester.comparisonAt m) disks = .ret value) :
    ∃ l, ComesTo (ledgerEnv a reads) (Main.finish (rounds + 1) .nova {} (quietTester mods))
      (.fresh disks) (.returned 0) l ∧ l.mountFailed = false := by
  refine ends_next (0 : Int) rfl ?_
  refine ends_next (0 : Int) rfl ?_
  refine ends_next (0 : Int) rfl ?_
  refine ends_next (0 : Int) rfl ?_
  refine ends_next (0 : Int) rfl ?_
  refine ends_next (0 : Int) rfl ?_
  dsimp only [Script.bind, quietTester]
  rw [hsegment]
  dsimp only
  change ∃ l, ComesTo _ ((Tester.askLoop (segment.map DiskMod.wire) >>= _) >>= _) _ _ _ ∧ _
  rw [Tester.askLoop_wire, bind_assoc]
  refine ends_askLoop segment _ hreturns fun equal disks => ?_
  refine ends_next () rfl ?_
  refine ends_next () rfl ?_
  refine ends_next (.ok () : Except Int Unit) rfl ?_
  refine ends_next () rfl ?_
  refine ends_next () rfl ?_
  refine ends_next (0 : Int) rfl ?_
  exact ⟨_, .here _ _, rfl⟩

/-- Whole reads of the log of some mods. -/
def wholeAnswer (mods : List DiskMod) : Tester.ReadEnv × Source :=
  (⟨fun _ => 8, fun _ => 100, fun _ => 0⟩, ⟨mods.flatMap DiskMod.format, 0⟩)

theorem readsLog_whole (hmods : ∀ m ∈ mods, m.Writable) : ReadsLog mods (wholeAnswer mods) := by
  obtain ⟨calls, hwrite⟩ := RecordCmFsOps.serialize_eq (fun _ _ => 0) (fun _ => 1)
    (fun _ => Int.le_refl 1) mods hmods _ (Nat.lt_succ_self _) ⟨[], 0⟩
  exact ⟨fun _ => Int.le_refl 8, fun _ => by simp [wholeAnswer], _, _, _, _,
    fun _ => Int.le_refl 1, Nat.lt_succ_self _, hwrite, rfl⟩

/-- For every log with a segment to check there is a run that returns 0, if its comparison comes
back. -/
theorem quietRun_ends {answer : Tester.ReadEnv × Source} (hreads : reads answer)
    (hlog : ReadsLog mods answer) (hmods : ∀ m ∈ mods, m.Writable) {rounds : Nat}
    (hr : (mods.flatMap DiskMod.format).length < rounds + 1) {segment : List DiskMod}
    (hsegment : Tester.checkedSegment (segments mods) = some segment) (disks : τ)
    (hreturns : ∀ m ∈ segment.find? Tester.stops,
      ∃ value, a.result (Tester.comparisonAt m) disks = .ret value) :
    ∃ l, ComesTo (ledgerEnv a reads) (Main.main (rounds + 1) ClientSocket.newMessage [] [[]])
      (.fresh disks) (.returned 0) l ∧ l.mountFailed = false := by
  have hread := hlog.getChangeData hmods hr
  have hwire : Tester.checkedSegment (segments (mods.map DiskMod.wire)) =
      some (segment.map DiskMod.wire) := by
    rw [Tester.checkedSegment_wire, hsegment, Option.map_some]
  refine ends_next (some 1) rfl ?_
  refine ends_next (some 2) rfl ?_
  refine ends_next (some 3) rfl ?_
  refine ends_next (4 : Nat) rfl ?_
  refine ends_next () rfl ?_
  refine ends_next (some 5) rfl ?_
  refine ends_next (0 : Int) rfl ?_
  refine ends_next (.ok () : Except Int Unit) rfl ?_
  refine ends_next (0 : Int) rfl ?_
  refine ends_next (0 : Int) rfl ?_
  refine ends_next (0 : Int) rfl ?_
  refine ends_next (0 : Int) rfl ?_
  refine ends_next (1 : Int) rfl ?_
  refine ends_next SockError.eNone rfl ?_
  refine ends_next (0 : Int) rfl ?_
  refine ends_next ForkResult.parent rfl ?_
  refine ends_next (0 : Int) rfl ?_
  refine ends_next (3 : Int) rfl ?_
  refine ends_next (0 : Int) rfl ?_
  refine ends_next answer ⟨hreads, rfl⟩ ?_
  dsimp only [Script.bind]
  rw [hread]
  refine ends_next (1 : Int) rfl ?_
  refine ends_next SockError.eNone rfl ?_
  refine ends_next (.ok () : Except Int Unit) rfl ?_
  refine ends_next (1 : Int) rfl ?_
  refine ends_next SockError.eNone rfl ?_
  refine ends_next (1 : Int) rfl ?_
  refine ends_next SockError.eNone rfl ?_
  exact finish_ends _ hwire rounds disks hreturns

end

/-- A file that is created and synced before a checkpoint. -/
def smallMods : List DiskMod :=
  [{ path := path "/mnt/pmem0/A/foo".toList },
    { path := path "/mnt/pmem0/A/foo".toList, modType := .kFsyncMod }, { modType := .kCheckpointMod }]

theorem writable_smallMods : ∀ m ∈ smallMods, m.Writable := by
  simp only [smallMods, List.forall_mem_cons, List.not_mem_nil, false_implies, implies_true,
    and_true]
  exact ⟨⟨⟨by decide, by decide, by decide⟩, by decide, by decide, by decide⟩,
    ⟨⟨by decide, by decide, by decide⟩, by decide, by decide, by decide⟩,
    ⟨⟨by decide, by decide, by decide⟩, by decide, by decide, by decide⟩⟩

theorem length_smallMods : (smallMods.flatMap DiskMod.format).length < 99 + 1 := by decide +kernel

theorem checkedSegment_smallMods :
    Tester.checkedSegment (segments smallMods) = some (smallMods.take 2) := by decide

/-- It compares the file that was synced, and has it counted as passed. -/
theorem run_reports_check_small : ∃ l,
    ComesTo (ledgerEnv (.total Tester.recording) (ReadsLog smallMods))
      (Main.main 100 ClientSocket.newMessage [] [[]]) (.fresh []) (.returned 0) l ∧
    l.compared = [.entriesAtPath (path "/A/foo".toList)] ∧
    ∃ suite, l.stats = [suite] ∧ suite.timingResults.numPassed = 1 := by
  obtain ⟨l, hends, hmounted⟩ := quietRun_ends (a := .total Tester.recording)
    (readsLog_whole writable_smallMods) (readsLog_whole writable_smallMods) writable_smallMods
    length_smallMods checkedSegment_smallMods [] fun _ _ => ⟨_, rfl⟩
  have hverdict := run_reports_check Tester.recording (.total Tester.recording) smallMods
    writable_smallMods 100 length_smallMods ClientSocket.newMessage [] {} rfl [[]] [] (.returned 0) l
    hends
  obtain ⟨suite, hchecked, hstats⟩ := hverdict
  obtain ⟨equal, hcheck, hcompared, -, -, hsuite⟩ := hchecked.checked hmounted
  have hequal : equal = true := by
    have hvalue : Tester.checkDiskAndSnapshotContents Tester.recording (segments smallMods) [] =
        some (true, [.entriesAtPath (path "/A/foo".toList)]) := by decide
    rw [hvalue] at hcheck
    exact (congrArg Prod.fst (Option.some.inj hcheck)).symm
  refine ⟨l, hends, ?_, suite, hstats, ?_⟩
  · rw [hcompared]
    rfl
  · rw [hsuite, hequal]
    rfl

end PMTester
