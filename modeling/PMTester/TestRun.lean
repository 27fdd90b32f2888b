import PMTester.ChangeLog
import PMTester.Passthrough

/-!
# The whole of `BaseTestCase::Run`

A test with the state that it leaves, and the file of changes that is written
behind it.
-/
namespace PMTester

open Transfer Memory

/-- The result of a test, `none` after an exception, and the state that it leaves. -/
def Workload.outcome {σ S : Type} (cm : CmFsOps σ S) : Workload σ → S → Option Int × S
  | .done res, s => (some res, s)
  | .call op next, s =>
    let (res, s') := cm.call op s
    if res.returns then (next res).outcome cm s' else (none, s')
  | .direct act next, s =>
    let (res, fs) := act (cm.fs s)
    (next res).outcome cm (cm.setFs s fs)

theorem Workload.outcome_res {σ S : Type} (cm : CmFsOps σ S) (w : Workload σ) (s : S) :
    (w.outcome cm s).1 = (w.exec cm s).res := by
  induction w generalizing s with
  | done res => rfl
  | call op next ih =>
    simp only [outcome, exec]
    split
    · exact ih _ _
    · rfl
  | direct act next ih => exact ih _ _

/-- `BaseTestCase::Run` with checkpoint 0, on an empty file of changes; the result is `none` after
an exception or a fault. -/
def BaseTestCase.runLogged {σ : Type} (h : Host σ) (fresh : Nat → Mem)
    (answers : Nat → Int) (rounds : Nat) (test : Workload σ) (fs : σ) :
    Option (Option Int × Sink) :=
  match test.outcome (recordCmFsOps h) (World.start fs) with
  | (none, _) => some (none, ⟨[], 0⟩)
  | (some res1, cm) =>
    if res1 < 0 then some (some res1, ⟨[], 0⟩)
    else
      match RecordCmFsOps.serialize fresh answers rounds cm.mods ⟨[], 0⟩ with
      | none => none
      | some (.ret res2, k) => some (some (if res2 < 0 then res2 else res1), k)
      | some (_, k) => some (none, k)

/-- The mods that `Run` writes down. -/
def loggedMods {σ : Type} : Option Int × World σ → List DiskMod
  | (some res1, cm) => if res1 < 0 then [] else cm.mods
  | (none, _) => []

end PMTester
