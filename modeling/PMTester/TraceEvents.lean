import Mathlib.Logic.Function.Basic
import PMTester.Lib.Run
import PMTester.WriteTracker

/-!
# The events of a traced run

The emulator calls `translate_callback` when it translates an instruction and
`exec_callback` when it executes one whose translation returned true. `traceRun`
is the trace that the calls leave, `expected` the one with a record for each
executed fence and each executed flush of the range.
-/
namespace PMTester.WriteTracker

open Run

/-- A recognised flush. The fence encodings come first in the decoder. -/
def isFlush (insn : Insn) : Bool := !isFence insn && (isClflush insn || isClwb insn)

/-- The physical address the plugin takes the operand of a flush to have. -/
def registerOperand (cpu : Cpu) : UInt64 :=
  cpu.virtToPhys (cpu.regs
    (if isClflush cpu.insn then regFromRm (cpu.insn.b2 &&& 7) else regFromRm (cpu.insn.b3 &&& 7)))

inductive Action where
  | translate (cpu : Cpu) (pc : UInt64)
  | execute (cpu : Cpu) (pc : UInt64)

/-- Which instructions have a translation that returned true, and `wt.out` so far. -/
structure Tracing where
  hooked : UInt64 → Bool
  output : List UInt8

def Tracing.start : Tracing := ⟨fun _ => false, []⟩

def traceStep (t : Range) (s : Tracing) : Action → Tracing
  | .translate cpu pc =>
    let checked := translateCallback t cpu pc
    ⟨Function.update s.hooked pc checked.result, s.output ++ checked.output⟩
  | .execute cpu pc =>
    if s.hooked pc then { s with output := s.output ++ (execCallback t cpu pc).output } else s

def traceRun (t : Range) (actions : List Action) (s : Tracing) : Tracing :=
  actions.foldl (traceStep t) s

/-- The records an action should add, `operand` being the operand's physical address. -/
def expected (t : Range) (operand : Cpu → UInt64) : Action → List UInt8
  | .translate _ _ => []
  | .execute cpu pc =>
    if isFence cpu.insn then logOutput pc .fence 0 0 []
    else if isFlush cpu.insn && t.contains (operand cpu) then
      logOutput pc .flush (operand cpu - t.rangeStart) 0 []
    else []

/-- An action whose calls add just the records they should: no translation of a fence or of a
flush that finds its operand in the range, no execution of a flush of the range, and
fences executed with their hook and readable. -/
def Faithful (t : Range) (operand : Cpu → UInt64) (s : Tracing) : Action → Prop
  | .translate cpu _ => cpu.readable = true →
    isFence cpu.insn = false ∧ (isFlush cpu.insn && t.contains (registerOperand cpu)) = false
  | .execute cpu pc =>
    (isFence cpu.insn = true → s.hooked pc = true ∧ cpu.readable = true) ∧
      (isFlush cpu.insn && t.contains (operand cpu)) = false

/-- Every action of a run is faithful in the state it is taken in. -/
def FaithfulRun (t : Range) (operand : Cpu → UInt64) (s : Tracing) (actions : List Action) :
    Prop :=
  Allowed (traceStep t) (Faithful t operand) actions s

theorem logOutput_ne_nil (pc : UInt64) (type : EventType) (offset size : UInt64)
    (data : List UInt8) : logOutput pc type offset size data ≠ [] := by
  intro h
  have hlen := congrArg List.length h
  simp [logOutput] at hlen

/-- An unmapped address is in no range. -/
theorem not_contains_unmapped (t : Range) : t.contains unmapped = false := by
  have hlt := t.rangeEnd.toNat_lt
  have hu : unmapped.toNat = 2 ^ 64 - 1 := rfl
  simp only [Range.contains, Bool.and_eq_false_imp, decide_eq_false_iff_not, UInt64.lt_iff_toNat_lt]
  omega

theorem lfence_modrm : ∀ n : Fin 256, 0xE8 ≤ UInt8.ofNat n → UInt8.ofNat n ≤ 0xEF →
    ¬ 0xF0 ≤ UInt8.ofNat n ∧ (UInt8.ofNat n >>> 3) &&& 7 ≠ 7 := by decide +kernel

/-- The decoder's first test takes nothing away from the others. -/
theorem isLfence_not_fence (insn : Insn) (h : isLfence insn = true) :
    isFence insn = false ∧ isFlush insn = false := by
  simp only [isLfence, Bool.and_eq_true, beq_iff_eq, decide_eq_true_eq] at h
  obtain ⟨⟨⟨h0, h1⟩, hlo⟩, hhi⟩ := h
  have hmodrm := lfence_modrm ⟨insn.b2.toNat, insn.b2.toNat_lt⟩
  simp only [UInt8.ofNat_toNat] at hmodrm
  obtain ⟨hfence, hreg⟩ := hmodrm hlo hhi
  simp [isFence, isFlush, isClflush, isClwb, h0, hfence, hreg]

theorem checkOperand_output (t : Range) (cpu : Cpu) (pc : UInt64) (isTranslate : Bool) (reg : Int)
    (regs : List Int) :
    (checkOperand t cpu pc isTranslate reg regs).output =
      if !isTranslate && t.contains (cpu.virtToPhys (cpu.regs reg)) then
        logOutput pc .flush (cpu.virtToPhys (cpu.regs reg) - t.rangeStart) 0 []
      else [] := by
  cases isTranslate with
  | true => rfl
  | false =>
    by_cases hu : cpu.virtToPhys (cpu.regs reg) = unmapped
    · simp [checkOperand, hu, not_contains_unmapped]
    · simp [checkOperand, hu]

/-- The decoder logs every fence, and flushes of the range when it is not told to translate. -/
theorem checkFlush_output (t : Range) (cpu : Cpu) (pc : UInt64) (isTranslate : Bool) :
    (checkFlush t cpu pc isTranslate).output =
      if !cpu.readable then []
      else if isFence cpu.insn then logOutput pc .fence 0 0 []
      else if !isTranslate && (isFlush cpu.insn && t.contains (registerOperand cpu)) then
        logOutput pc .flush (registerOperand cpu - t.rangeStart) 0 []
      else [] := by
  unfold checkFlush
  cases hread : cpu.readable with
  | false => rfl
  | true =>
    cases hl : isLfence cpu.insn with
    | true =>
      obtain ⟨hfence, hflush⟩ := isLfence_not_fence cpu.insn hl
      simp [hl, hfence, hflush]
    | false =>
      cases hfence : isFence cpu.insn with
      | true => simp [hl, hfence]
      | false =>
        cases hcl : isClflush cpu.insn with
        | true => simp [hl, hfence, hcl, checkOperand_output, isFlush, registerOperand]
        | false =>
          cases hwb : isClwb cpu.insn with
          | true => simp [hl, hfence, hcl, hwb, checkOperand_output, isFlush, registerOperand]
          | false => simp [hl, hfence, hcl, hwb, isFlush]

/-- One action adds the records it should exactly when it is faithful. -/
theorem traceStep_output_iff (t : Range) (operand : Cpu → UInt64) (s : Tracing) (a : Action) :
    (traceStep t s a).output = s.output ++ expected t operand a ↔ Faithful t operand s a := by
  cases a with
  | translate cpu pc =>
    simp only [traceStep, translateCallback, checkFlush_output, expected, Faithful,
      List.append_cancel_left_eq]
    cases cpu.readable <;> cases isFence cpu.insn <;>
      cases isFlush cpu.insn && t.contains (registerOperand cpu) <;> simp [logOutput_ne_nil]
  | execute cpu pc =>
    simp only [traceStep, expected, Faithful]
    cases hfence : isFence cpu.insn with
    | true =>
      have hflush : isFlush cpu.insn = false := by simp [isFlush, hfence]
      cases s.hooked pc <;> cases hread : cpu.readable <;>
        simp [execCallback, checkFlush_output, hfence, hflush, hread, logOutput_ne_nil]
    | false =>
      cases hflush : isFlush cpu.insn && t.contains (operand cpu) <;> cases s.hooked pc <;>
        simp [execCallback, checkFlush_output, hfence, logOutput_ne_nil]

/-- In a run from the start, at every moment, `wt.out` holds one record for each executed fence
and each executed flush of the range, in order, and nothing else, exactly when
every action is faithful. -/
theorem one_record_per_event (t : Range) (operand : Cpu → UInt64) (actions : List Action) :
    (∀ n, (traceRun t (actions.take n) .start).output =
      (actions.take n).flatMap (expected t operand)) ↔
      FaithfulRun t operand .start actions := by
  simpa [Tracing.start, traceRun, FaithfulRun] using outputs_iff Tracing.output (expected t operand)
    (traceStep_output_iff t operand) actions .start

/-- A machine about to run `mfence`. -/
def mfenceCpu : Cpu := ⟨⟨0x0F, 0xAE, 0xF0, 0x90⟩, true, fun _ => 0, fun va => va⟩

/-- Translating an `mfence` that is never executed leaves a record. -/
theorem translation_logs_fence :
    ¬ ∀ n, (traceRun ⟨0x40000000, 0x48000000⟩ ([.translate mfenceCpu 0x1000].take n) .start).output =
      ([.translate mfenceCpu 0x1000].take n).flatMap
        (expected ⟨0x40000000, 0x48000000⟩ registerOperand) := by
  intro h
  exact absurd (h 1) (by decide +kernel)

end PMTester.WriteTracker
