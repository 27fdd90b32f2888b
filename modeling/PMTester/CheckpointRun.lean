import PMTester.CheckpointRedo
import PMTester.TestRun
import PMTester.Transparency

/-!
# A test that is run up to a checkpoint

`BaseTestCase::Run` records a test when it is asked for no checkpoint, and runs it
up to a checkpoint otherwise. The files that the second run ends with are those
that the segments of the log of the first one tell.
-/
namespace PMTester

open RecordCmFsOps Transfer Memory

namespace Workload

variable {σ : Type}

/-- The calls that a recorded test makes, the one that throws included. -/
def calls (h : Host σ) : Workload σ → World σ → List CmOp
  | .done _, _ => []
  | .call op next, w =>
    let (res, w') := RecordCmFsOps.call h op w
    op :: if res.returns then (next res).calls h w' else []
  | .direct act next, w => (next (act w.fs).1).calls h { w with fs := (act w.fs).2 }

/-- The test does everything through `cm_`, with calls of this kind. -/
def Calls (p : CmOp → Prop) : Workload σ → Prop
  | .done _ => True
  | .call op next => p op ∧ ∀ res, (next res).Calls p
  | .direct _ _ => False

end Workload

/-- The file system behind the last thing that a test did. -/
def TestRun.left {σ : Type} (r : TestRun σ) (fs : σ) : σ := (r.events.getLast?.map (·.2)).getD fs

theorem TestRun.left_after {σ : Type} (e : CmResult × σ) (r : TestRun σ) (fs : σ) :
    (r.after e).left fs = r.left e.2 := by
  cases hlast : r.events.getLast? with
  | none => simp [TestRun.left, TestRun.after, List.getLast?_cons, hlast]
  | some e' => simp [TestRun.left, TestRun.after, List.getLast?_cons, hlast]

section

variable {σ : Type} {h : Host σ} {p : CmOp → Prop}

theorem Workload.calls_call (op : CmOp) (next : CmResult → Workload σ) (w : World σ) :
    (Workload.call op next).calls h w = op :: if (RecordCmFsOps.call h op w).1.returns then
      (next (RecordCmFsOps.call h op w).1).calls h (RecordCmFsOps.call h op w).2 else [] := rfl

theorem Workload.Calls.mem {test : Workload σ} (hcalls : test.Calls p) (w : World σ) :
    ∀ op ∈ test.calls h w, p op := by
  induction test generalizing w with
  | done res => exact nofun
  | call op next ih =>
    intro op' hop'
    obtain rfl | hop' := List.mem_cons.mp (calls_call op next w ▸ hop')
    · exact hcalls.1
    · by_cases hret : (RecordCmFsOps.call h op w).1.returns = true
      · rw [if_pos hret] at hop'
        exact ih _ (hcalls.2 _) _ op' hop'
      · rw [if_neg hret] at hop'
        cases hop'
  | direct act next ih => exact hcalls.elim

theorem Workload.Calls.stopAt {test : Workload σ} (hcalls : test.Calls p) (checkpoint n : Int) :
    (test.stopAt checkpoint n).Calls p := by
  induction test generalizing n with
  | done res => trivial
  | call op next ih =>
    refine ⟨hcalls.1, fun res => ?_⟩
    dsimp only
    split
    · split
      · trivial
      · exact ih res (hcalls.2 res) _
    · exact ih res (hcalls.2 res) _
  | direct act next ih => exact hcalls.elim

/-- The recorded test is the run of its calls. -/
theorem outcome_eq_run {test : Workload σ} (hcalls : test.Calls p) (w : World σ) :
    (test.outcome (recordCmFsOps h) w).2 = run h (test.calls h w) w := by
  induction test generalizing w with
  | done res => rfl
  | call op next ih =>
    have hcall : (recordCmFsOps h).call op w = call h op w := rfl
    simp only [Workload.outcome, Workload.calls, hcall, run_cons]
    split
    · exact ih _ (hcalls.2 _) _
    · rfl
  | direct act next ih => exact hcalls.elim

theorem exec_left {test : Workload σ} (hcalls : test.Calls p) (w : World σ) :
    (test.exec (recordCmFsOps h) w).left w.fs = (run h (test.calls h w) w).fs := by
  induction test generalizing w with
  | done res => rfl
  | call op next ih =>
    have hcall : (recordCmFsOps h).call op w = call h op w := rfl
    simp only [Workload.exec, Workload.calls, hcall, run_cons]
    split
    · rw [TestRun.left_after]
      exact ih _ (hcalls.2 _) _
    · rfl
  | direct act next ih => exact hcalls.elim

/-- A test that is cut off stays clean. -/
theorem CleanRun.stopAt {test : Workload σ} {w : World σ} (hclean : CleanRun h test w)
    (checkpoint n : Int) : CleanRun h (test.stopAt checkpoint n) w := by
  induction test generalizing w n with
  | done res => trivial
  | call op next ih =>
    refine ⟨hclean.1, ?_⟩
    dsimp only
    split
    · split
      · trivial
      · exact ih _ hclean.2 _
    · exact ih _ hclean.2 _
  | direct act next ih => exact ih _ hclean _

/-- A test that gets to the checkpoint it is asked for makes the calls up to it, and no more. -/
theorem stopAt_calls (hmakes : ∀ w, (call h .checkpoint w).1.returns = true ∧
      (call h .checkpoint w).1.failed = false) (test : Workload σ)
    (w : World σ) (checkpoint n : Int) (hn : n < checkpoint)
    (hmade : checkpoint ≤ n + (test.calls h w).count .checkpoint) (hcalls : test.Calls p) :
    ∃ before after, test.calls h w = before ++ .checkpoint :: after ∧
      (test.stopAt checkpoint n).calls h w = before ++ [.checkpoint] ∧
      n + before.count .checkpoint + 1 = checkpoint := by
  induction test generalizing w n with
  | done res =>
    simp only [Workload.calls, List.count_nil] at hmade
    omega
  | direct act next ih => exact hcalls.elim
  | call op next ih =>
    simp only [Workload.calls, Workload.stopAt] at hmade ⊢
    by_cases hop : op = .checkpoint
    · subst hop
      obtain ⟨hreturns, hmade'⟩ := hmakes w
      rw [hreturns] at hmade ⊢
      simp only [if_true, List.count_cons_self, hmade', and_self] at hmade ⊢
      by_cases hlast : n + 1 = checkpoint
      · refine ⟨[], _, rfl, ?_, by simpa using hlast⟩
        rw [if_pos hlast]
        rfl
      · rw [if_neg hlast]
        push_cast at hmade
        obtain ⟨before, after, hbefore, hstop, hcount⟩ := ih (call h .checkpoint w).1
          (call h .checkpoint w).2 (n + 1) (by omega) (by omega) (hcalls.2 _)
        refine ⟨.checkpoint :: before, after, by rw [hbefore]; rfl, by rw [hstop]; rfl, ?_⟩
        rw [List.count_cons_self]
        push_cast
        omega
    · simp only [hop, false_and, if_false] at hmade ⊢
      rw [List.count_cons_of_ne hop] at hmade
      split at hmade
      · rename_i hret
        rw [if_pos hret]
        obtain ⟨before, after, hbefore, hstop, hcount⟩ := ih _ _ n hn hmade (hcalls.2 _)
        refine ⟨op :: before, after, by rw [hbefore]; rfl, by rw [hstop, if_pos hret]; rfl, ?_⟩
        rw [List.count_cons_of_ne hop]
        exact hcount
      · simp only [List.count_nil] at hmade
        omega

end

theorem length_addMod (mods : List (List DiskMod)) (m : DiskMod) :
    (Tester.addMod mods m).length =
      if m.isCheckpoint then mods.length + 1 else max mods.length 1 := by
  cases hm : m.isCheckpoint with
  | true => simp [Tester.addMod_checkpoint _ m hm]
  | false =>
    rcases List.eq_nil_or_concat mods with rfl | ⟨front, last, rfl⟩
    · simp [Tester.addMod_first m hm]
    · rw [List.concat_eq_append, Tester.addMod_other _ _ m hm]
      simp

/-- Every checkpoint opens a segment, and the mods before the first one have one if there are any. -/
theorem length_segments (mods : List DiskMod) :
    (segments mods).length = mods.countP DiskMod.isCheckpoint +
      if mods.head?.all DiskMod.isCheckpoint then 0 else 1 := by
  rw [← Tester.foldl_addMod_nil]
  induction mods using List.reverseRecOn with
  | nil => decide
  | append_singleton mods m ih =>
    rw [List.foldl_append, List.foldl_cons, List.foldl_nil, length_addMod, List.countP_append, ih]
    cases mods with
    | nil => cases hm : m.isCheckpoint <;> simp [hm]
    | cons m' mods =>
      cases hm : m.isCheckpoint <;> cases hm' : m'.isCheckpoint <;> simp [hm, hm']

/-- A log begins with a checkpoint when there is nothing before its first one. -/
theorem head_before (front rest : List DiskMod) (m : DiskMod) (hm : m.isCheckpoint = true) :
    (front ++ m :: rest).head?.any DiskMod.isCheckpoint =
      front.head?.all DiskMod.isCheckpoint := by
  cases front with
  | nil => simp [hm]
  | cons m' front => simp

theorem posix_checkpoint_made (resolve : Path → Name) (w : World PosixFs) :
    (call (posix resolve) .checkpoint w).1.returns = true ∧
      (call (posix resolve) .checkpoint w).1.failed = false := ⟨rfl, rfl⟩

/-- What the test leaves when it is run up to a checkpoint: what the calls before it have left. -/
theorem run_left (resolve : Path → Name) (garbage : Int) {test : Workload PosixFs} {s : PosixFs}
    {p : CmOp → Prop} (hcalls : test.Calls p)
    (hclean : CleanRun (posix resolve) test (World.start s)) {checkpoint : Nat}
    (hpos : 0 < checkpoint) {before : List CmOp}
    (hstop : (test.stopAt checkpoint 0).calls (posix resolve) (World.start s) =
      before ++ [.checkpoint]) :
    (BaseTestCase.run (posix resolve) garbage test checkpoint s).left s =
      (run (posix resolve) before (World.start s)).fs := by
  have hne : (checkpoint : Int) ≠ 0 := by omega
  have hsame := exec_same (posix_quietProbes resolve) garbage _ _ (hclean.stopAt checkpoint 0)
  have hleft := exec_left (h := posix resolve) (hcalls.stopAt checkpoint 0) (World.start s)
  rw [hstop, run_append, ← hsame] at hleft
  rw [BaseTestCase.run, if_neg hne]
  exact hleft

/-- Two writes with a checkpoint behind each, and a close. -/
def twoCheckpoints : Workload PosixFs :=
  .call (.open2 (path ['/', 'f']) (oCreat ||| oRdwr) 0o644#32) fun _ =>
    .call (.write 3 [1, 2, 3]) fun _ =>
      .call .checkpoint fun _ =>
        .call (.pwrite 3 [9] 1) fun _ =>
          .call .checkpoint fun _ => .call (.close 3) fun _ => .done 0

theorem twoCheckpoints_clean :
    CleanRun (posix splitPath) twoCheckpoints (World.start (PosixFs.empty 3)) :=
  ⟨trivial, ⟨path ['/', 'f'], by decide +kernel, by decide +kernel, by decide +kernel⟩, trivial,
    ⟨path ['/', 'f'], by decide +kernel, by decide +kernel, by decide +kernel, by decide +kernel⟩,
    trivial, trivial, trivial⟩

theorem twoCheckpoints_calls :
    twoCheckpoints.calls (posix splitPath) (World.start (PosixFs.empty 3)) =
      [.open2 (path ['/', 'f']) (oCreat ||| oRdwr) 0o644#32, .write 3 [1, 2, 3], .checkpoint,
        .pwrite 3 [9] 1, .checkpoint, .close 3] := by decide +kernel

theorem twoCheckpoints_keeps :
    CloseKeepsRun splitPath (twoCheckpoints.calls (posix splitPath) (World.start (PosixFs.empty 3)))
      (World.start (PosixFs.empty 3)) := by
  rw [twoCheckpoints_calls]
  exact ⟨trivial, trivial, trivial, trivial, trivial, fun hneg => absurd hneg (by decide +kernel),
    trivial⟩

end PMTester
