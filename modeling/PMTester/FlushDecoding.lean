import PMTester.Lib.ModRM
import PMTester.TraceEvents

/-!
# The decoder of the tracker against the instruction set

The decoder takes the operand of a flush to be the bare register of the ModRM
byte. Its two passes see the same instruction bytes at different times, with
other registers and another page mapping.
-/
namespace PMTester.WriteTracker

open ModRM

theorem checkOperand_result (t : Range) (cpu : Cpu) (pc : UInt64) (isTranslate : Bool) (reg : Int)
    (regs : List Int) :
    (checkOperand t cpu pc isTranslate reg regs).result =
      (isTranslate || cpu.virtToPhys (cpu.regs reg) != unmapped) := by
  cases isTranslate with
  | true => rfl
  | false => by_cases hu : cpu.virtToPhys (cpu.regs reg) = unmapped <;> simp [checkOperand, hu]

theorem checkOperand_regsUsed (t : Range) (cpu : Cpu) (pc : UInt64) (isTranslate : Bool) (reg : Int)
    (regs : List Int) :
    (checkOperand t cpu pc isTranslate reg regs).regsUsed =
      regs ++ if isTranslate then [] else [reg] := by
  cases isTranslate with
  | true => simp [checkOperand]
  | false => by_cases hu : cpu.virtToPhys (cpu.regs reg) = unmapped <;> simp [checkOperand, hu]

/-- The ModRM byte of the flush that the decoder recognises, by its place in the window. -/
def operandByte (insn : Insn) : Nat := if isClflush insn then 2 else 3

/-- The register that the decoder takes for the address of the operand. -/
def operandReg (insn : Insn) : Int :=
  if isClflush insn then regFromRm (insn.b2 &&& 7) else regFromRm (insn.b3 &&& 7)

/-- A call succeeds on fences, and on flushes unless it looks their address up and finds none. -/
theorem checkFlush_result (t : Range) (cpu : Cpu) (pc : UInt64) (isTranslate : Bool) :
    (checkFlush t cpu pc isTranslate).result =
      (cpu.readable && (isFence cpu.insn ||
        (isFlush cpu.insn && (isTranslate || registerOperand cpu != unmapped)))) := by
  unfold checkFlush
  cases hread : cpu.readable with
  | false => rfl
  | true =>
    cases hl : isLfence cpu.insn with
    | true =>
      obtain ⟨hfence, hflush⟩ := isLfence_not_fence cpu.insn hl
      simp [hl, hfence, hflush]
    | false =>
      cases hfence : isFence cpu.insn with
      | true => simp [hl, hfence]
      | false =>
        cases hcl : isClflush cpu.insn with
        | true => simp [hl, hfence, hcl, checkOperand_result, isFlush, registerOperand]
        | false =>
          cases hwb : isClwb cpu.insn with
          | true => simp [hl, hfence, hcl, hwb, checkOperand_result, isFlush, registerOperand]
          | false => simp [hl, hfence, hcl, hwb, isFlush]

/-- The registers of the diagnostic lines, and the operand where its address is looked up. -/
theorem checkFlush_regsUsed (t : Range) (cpu : Cpu) (pc : UInt64) (isTranslate : Bool) :
    (checkFlush t cpu pc isTranslate).regsUsed =
      if !cpu.readable then []
      else diagnosticRegs cpu.insn ++
        if isFlush cpu.insn && !isTranslate then [operandReg cpu.insn] else [] := by
  unfold checkFlush
  cases hread : cpu.readable with
  | false => rfl
  | true =>
    cases hl : isLfence cpu.insn with
    | true =>
      obtain ⟨hfence, hflush⟩ := isLfence_not_fence cpu.insn hl
      simp [hl, hflush]
    | false =>
      cases hfence : isFence cpu.insn with
      | true => simp [hl, hfence, isFlush]
      | false =>
        cases hcl : isClflush cpu.insn with
        | true => cases isTranslate <;>
            simp [hl, hfence, hcl, checkOperand_regsUsed, isFlush, operandReg]
        | false =>
          cases hwb : isClwb cpu.insn with
          | true => cases isTranslate <;>
              simp [hl, hfence, hcl, hwb, checkOperand_regsUsed, isFlush, operandReg]
          | false => simp [hl, hfence, hcl, hwb, isFlush]

/-- `exec_callback` prints its warning about an instruction that is no flush. -/
def warnsNonFlush (t : Range) (cpu : Cpu) (pc : UInt64) : Bool := !(execCallback t cpu pc).result

/-- An instruction that was hooked at its translation never meets the warning at an execution,
whatever the registers and the mapping are by then. -/
theorem hooked_never_warns (t : Range) (insn : Insn) (readable : Bool)
    (regs regs' : Int → UInt64) (virtToPhys virtToPhys' : UInt64 → UInt64) (pc pc' : UInt64)
    (h : (translateCallback t ⟨insn, readable, regs, virtToPhys⟩ pc).result = true) :
    warnsNonFlush t ⟨insn, true, regs', virtToPhys'⟩ pc' = false := by
  rw [translateCallback, checkFlush_result, Bool.and_eq_true, Bool.or_eq_true] at h
  rw [warnsNonFlush, execCallback, checkFlush_result, Bool.not_eq_false']
  cases h.2 with
  | inl hfence => simp [hfence]
  | inr hflush =>
    rw [Bool.and_eq_true] at hflush
    simp [hflush.1]

/-- A `clflush` of a page that is gone when it is executed. -/
theorem hooked_never_warns_unmapped :
    warnsNonFlush ⟨0x40000000, 0x48000000⟩
      ⟨⟨0x0F, 0xAE, 0x38, 0x90⟩, true, fun _ => 0x1000, fun _ => unmapped⟩ 0x1000 = false :=
  hooked_never_warns ⟨0x40000000, 0x48000000⟩ ⟨0x0F, 0xAE, 0x38, 0x90⟩ true (fun _ => 0x1000)
    (fun _ => 0x1000) (fun va => va) (fun _ => unmapped) 0x1000 0x1000 (by decide)

/-- The bytes from the program counter on: the window and what follows it. -/
def codeAt (insn : Insn) (following : Nat → UInt8) : Nat → UInt8
  | 0 => insn.b0
  | 1 => insn.b1
  | 2 => insn.b2
  | 3 => insn.b3
  | i + 4 => following i

/-- Where the ModRM byte of a `clflush`, `clflushopt` or `clwb` is, by the instruction set. -/
def flushModrm (insn : Insn) : Option Nat :=
  if insn.b0 = 0x0F ∧ insn.b1 = 0xAE ∧ reg insn.b2 = 7 ∧ mod insn.b2 ≠ 3 then some 2
  else if insn.b0 = 0x66 ∧ insn.b1 = 0x0F ∧ insn.b2 = 0xAE ∧
    (reg insn.b3 = 6 ∨ reg insn.b3 = 7) ∧ mod insn.b3 ≠ 3 then some 3
  else none

/-- The instruction flushes the cache line of this address. -/
def Flushes (cpu : Cpu) (pc : UInt64) (following : Nat → UInt8) (address : UInt64) : Prop :=
  ∃ i, flushModrm cpu.insn = some i ∧
    effectiveAddress (fun r => cpu.regs r.toNat) pc (codeAt cpu.insn following) i = some address

/-- The call uses only registers that were resolved, and a flush that it logs is one, at the place
that is logged. -/
structure SoundCall (t : Range) (cpu : Cpu) (pc : UInt64) (isTranslate : Bool)
    (following : Nat → UInt8) : Prop where
  resolved : ∀ r ∈ (checkFlush t cpu pc isTranslate).regsUsed, ∃ rm, r = regFromRm rm ∧ r ≠ -1
  logged : ∀ offset, (checkFlush t cpu pc isTranslate).output = logOutput pc .flush offset 0 [] →
    ∃ address, Flushes cpu pc following address ∧ offset = cpu.virtToPhys address - t.rangeStart

/-- No diagnostic line is about an operand the decoder does not know, and where a flush is logged the
operand is in memory and its displacement does not change the physical address. -/
structure PlainOperand (t : Range) (cpu : Cpu) (isTranslate : Bool) (following : Nat → UInt8) :
    Prop where
  diagnostic : cpu.readable = true → cpu.insn.b0 = 0x0F → rm cpu.insn.b2 ≠ 4 ∧ rm cpu.insn.b2 ≠ 5
  operand : cpu.readable = true → isTranslate = false → isFlush cpu.insn = true →
    t.contains (registerOperand cpu) = true →
    mod (codeAt cpu.insn following (operandByte cpu.insn)) ≠ 3 ∧
      cpu.virtToPhys (cpu.regs (operandReg cpu.insn) +
        displacement (mod (codeAt cpu.insn following (operandByte cpu.insn)))
          (codeAt cpu.insn following) (operandByte cpu.insn + 1)) = registerOperand cpu

theorem regFromRm_bytes : ∀ n : Fin 256,
    (regFromRm (rm (UInt8.ofNat n)) = -1 ↔ rm (UInt8.ofNat n) = 4 ∨ rm (UInt8.ofNat n) = 5) ∧
      (regFromRm (rm (UInt8.ofNat n)) ≠ -1 →
        regFromRm (rm (UInt8.ofNat n)) = (rm (UInt8.ofNat n)).toNat ∧
          -1 < regFromRm (rm (UInt8.ofNat n))) := by
  decide +kernel

/-- The operands that are not resolved need a SIB byte or are relative to the program counter. -/
theorem regFromRm_eq_neg_one (b : UInt8) : regFromRm (rm b) = -1 ↔ rm b = 4 ∨ rm b = 5 := by
  have h := (regFromRm_bytes ⟨b.toNat, b.toNat_lt⟩).1
  rwa [UInt8.ofNat_toNat] at h

theorem regFromRm_resolved {b : UInt8} (hb : regFromRm (rm b) ≠ -1) :
    regFromRm (rm b) = (rm b).toNat ∧ -1 < regFromRm (rm b) := by
  have h := (regFromRm_bytes ⟨b.toNat, b.toNat_lt⟩).2
  rw [UInt8.ofNat_toNat] at h
  exact h hb

/-- A flush that the decoder recognises has an operand that it resolves. -/
theorem operand_of_isFlush {insn : Insn} (h : isFlush insn = true) (following : Nat → UInt8) :
    operandReg insn = regFromRm (rm (codeAt insn following (operandByte insn))) ∧
      regFromRm (rm (codeAt insn following (operandByte insn))) ≠ -1 := by
  simp only [isFlush, Bool.and_eq_true, Bool.or_eq_true] at h
  cases hcl : isClflush insn with
  | true =>
    have hreg : -1 < regFromRm (insn.b2 &&& 7) := by
      simp only [isClflush, Bool.and_eq_true, decide_eq_true_eq] at hcl
      exact hcl.2
    simp only [operandReg, operandByte, hcl, if_true]
    exact ⟨rfl, Int.ne_of_gt hreg⟩
  | false =>
    have hwb : isClwb insn = true := by simpa [hcl] using h.2
    have hreg : -1 < regFromRm (insn.b3 &&& 7) := by
      simp only [isClwb, Bool.and_eq_true, decide_eq_true_eq] at hwb
      exact hwb.2
    simp only [operandReg, operandByte, hcl, Bool.false_eq_true, if_false]
    exact ⟨rfl, Int.ne_of_gt hreg⟩

/-- What the decoder recognises is a flush by the instruction set where its operand is in memory. -/
theorem flushModrm_of_isFlush {insn : Insn} (h : isFlush insn = true) (following : Nat → UInt8) :
    flushModrm insn =
      if mod (codeAt insn following (operandByte insn)) = 3 then none else some (operandByte insn) := by
  simp only [isFlush, Bool.and_eq_true, Bool.or_eq_true] at h
  cases hcl : isClflush insn with
  | true =>
    have hplace : operandByte insn = 2 := by simp [operandByte, hcl]
    simp only [isClflush, Bool.and_eq_true, beq_iff_eq, decide_eq_true_eq] at hcl
    obtain ⟨⟨⟨h0, h1⟩, hreg⟩, -⟩ := hcl
    have hreg : reg insn.b2 = 7 := hreg
    by_cases hmod : mod insn.b2 = 3 <;> simp [flushModrm, hplace, codeAt, h0, h1, hreg, hmod]
  | false =>
    have hplace : operandByte insn = 3 := by simp [operandByte, hcl]
    have hwb : isClwb insn = true := by simpa [hcl] using h.2
    simp only [isClwb, Bool.and_eq_true, Bool.or_eq_true, beq_iff_eq, decide_eq_true_eq] at hwb
    obtain ⟨⟨⟨⟨h0, h1⟩, h2⟩, hreg⟩, -⟩ := hwb
    have hreg : reg insn.b3 = 6 ∨ reg insn.b3 = 7 := hreg
    by_cases hmod : mod insn.b3 = 3 <;> simp [flushModrm, hplace, codeAt, h0, h1, h2, hreg, hmod]

/-- The instruction set gives the operand of a recognised flush a displacement, unless it is a
register. -/
theorem flushes_iff {cpu : Cpu} (h : isFlush cpu.insn = true) (pc : UInt64)
    (following : Nat → UInt8) (address : UInt64) :
    Flushes cpu pc following address ↔
      mod (codeAt cpu.insn following (operandByte cpu.insn)) ≠ 3 ∧
        address = cpu.regs (operandReg cpu.insn) +
          displacement (mod (codeAt cpu.insn following (operandByte cpu.insn)))
            (codeAt cpu.insn following) (operandByte cpu.insn + 1) := by
  obtain ⟨hoperand, hresolved⟩ := operand_of_isFlush h following
  have hknown := (not_congr (regFromRm_eq_neg_one _)).mp hresolved
  rw [not_or] at hknown
  have hbase : cpu.regs (operandReg cpu.insn) =
      cpu.regs (rm (codeAt cpu.insn following (operandByte cpu.insn))).toNat := by
    rw [hoperand, (regFromRm_resolved hresolved).1]
  rw [Flushes, flushModrm_of_isFlush h following, hbase]
  constructor
  · rintro ⟨i, hi, haddress⟩
    split at hi
    · cases hi
    · next hmod =>
      obtain rfl := Option.some.inj hi
      rw [effectiveAddress_base _ _ hmod hknown.1 hknown.2] at haddress
      exact ⟨hmod, (Option.some.inj haddress).symm⟩
  · rintro ⟨hmod, rfl⟩
    exact ⟨_, if_neg hmod, effectiveAddress_base _ _ hmod hknown.1 hknown.2⟩

theorem logOutput_flush_inj {pc offset offset' : UInt64}
    (h : logOutput pc .flush offset 0 [] = logOutput pc .flush offset' 0 []) : offset = offset' := by
  have hle : Bytes.le 8 offset.toNat = Bytes.le 8 offset'.toNat := List.append_cancel_left h
  have hmod := congrArg Bytes.ofLe hle
  rw [Bytes.ofLe_le, Bytes.ofLe_le, Nat.mod_eq_of_lt (show _ < 256 ^ 8 from offset.toNat_lt),
    Nat.mod_eq_of_lt (show _ < 256 ^ 8 from offset'.toNat_lt)] at hmod
  exact UInt64.toNat_inj.mp hmod

theorem logOutput_fence_ne_flush (pc offset : UInt64) :
    logOutput pc .fence 0 0 [] ≠ logOutput pc .flush offset 0 [] := by
  intro h
  have hlen := congrArg List.length h
  simp [logOutput] at hlen

/-- A flush is logged by a call that looks the operand up and finds it in the range. -/
theorem flush_logged_iff (t : Range) (cpu : Cpu) (pc : UInt64) (isTranslate : Bool)
    (offset : UInt64) :
    (checkFlush t cpu pc isTranslate).output = logOutput pc .flush offset 0 [] ↔
      (cpu.readable = true ∧ isTranslate = false ∧ isFlush cpu.insn = true ∧
        t.contains (registerOperand cpu) = true) ∧ offset = registerOperand cpu - t.rangeStart := by
  rw [checkFlush_output]
  cases cpu.readable with
  | false => simp [(logOutput_ne_nil _ _ _ _ _).symm]
  | true =>
    cases hfence : isFence cpu.insn with
    | true =>
      have hflush : isFlush cpu.insn = false := by simp [isFlush, hfence]
      simp [logOutput_fence_ne_flush, hflush]
    | false =>
      by_cases hlogs : (!isTranslate && (isFlush cpu.insn && t.contains (registerOperand cpu))) = true
      · have hparts : isTranslate = false ∧ isFlush cpu.insn = true ∧
            t.contains (registerOperand cpu) = true := by simpa using hlogs
        simp only [hparts.1, hparts.2.1, hparts.2.2, Bool.not_true, Bool.not_false,
          Bool.false_eq_true, if_false, Bool.and_true, if_true, true_and]
        exact ⟨fun h => (logOutput_flush_inj h).symm, fun h => by rw [h]⟩
      · have hnot : ¬ (isTranslate = false ∧ isFlush cpu.insn = true ∧
            t.contains (registerOperand cpu) = true) := by simpa using hlogs
        simp [hlogs, hnot, (logOutput_ne_nil _ _ _ _ _).symm]

/-- The diagnostic lines use a register that is not resolved only behind `0F`. -/
theorem diagnosticRegs_resolved (insn : Insn) :
    (∀ r ∈ diagnosticRegs insn, r ≠ -1) ↔ (insn.b0 = 0x0F → rm insn.b2 ≠ 4 ∧ rm insn.b2 ≠ 5) := by
  have hstore : ∀ r ∈ (if 0x88 ≤ insn.b0 && insn.b0 ≤ 0x8F && (insn.b1 == 0x06 || insn.b1 == 0x07) then
      [regFromRm (insn.b1 &&& 7)] else []), r ≠ -1 := by
    intro r hr
    split at hr
    · next h =>
      simp only [Bool.and_eq_true, Bool.or_eq_true, beq_iff_eq] at h
      rw [List.mem_singleton.mp hr]
      rcases h.2 with hb | hb <;> rw [hb] <;> decide
    · cases hr
  rw [← not_or, ← regFromRm_eq_neg_one]
  constructor
  · intro h h0
    exact h _ (List.mem_append_right _ (by simp [h0, rm]))
  · intro h r hr
    rcases List.mem_append.mp hr with hr | hr
    · exact hstore r hr
    · split at hr
      · next h0 =>
        rw [List.mem_singleton.mp hr]
        exact h (beq_iff_eq.mp h0)
      · cases hr

theorem mem_diagnosticRegs {insn : Insn} {r : Int} (h : r ∈ diagnosticRegs insn) :
    ∃ rm, r = regFromRm rm := by
  rcases List.mem_append.mp h with h | h
  · split at h
    · exact ⟨_, List.mem_singleton.mp h⟩
    · cases h
  · split at h
    · exact ⟨_, List.mem_singleton.mp h⟩
    · cases h

/-- The decoder is sound for a call exactly where the operand is a plain one. -/
theorem flush_decoding_sound_iff (t : Range) (cpu : Cpu) (pc : UInt64) (isTranslate : Bool)
    (following : Nat → UInt8) :
    SoundCall t cpu pc isTranslate following ↔ PlainOperand t cpu isTranslate following := by
  constructor
  · intro h
    constructor
    · intro hread
      apply (diagnosticRegs_resolved cpu.insn).mp
      intro r hr
      obtain ⟨-, -, hne⟩ := h.resolved r (by
        rw [checkFlush_regsUsed, hread]
        exact List.mem_append_left _ hr)
      exact hne
    · intro hread htranslate hflush hin
      obtain ⟨address, hflushes, hoffset⟩ := h.logged _
        ((flush_logged_iff t cpu pc isTranslate _).mpr ⟨⟨hread, htranslate, hflush, hin⟩, rfl⟩)
      obtain ⟨hmod, rfl⟩ := (flushes_iff hflush pc following address).mp hflushes
      exact ⟨hmod, ((UInt64.sub_left_inj t.rangeStart).mp hoffset).symm⟩
  · intro h
    constructor
    · intro r hr
      rw [checkFlush_regsUsed] at hr
      cases hread : cpu.readable with
      | false =>
        rw [hread] at hr
        cases hr
      | true =>
        rw [hread] at hr
        rcases List.mem_append.mp hr with hr | hr
        · obtain ⟨rm, hrm⟩ := mem_diagnosticRegs hr
          exact ⟨rm, hrm, (diagnosticRegs_resolved cpu.insn).mpr (h.diagnostic hread) r hr⟩
        · split at hr
          · next hflush =>
            rw [Bool.and_eq_true] at hflush
            obtain ⟨hoperand, hresolved⟩ := operand_of_isFlush hflush.1 following
            rw [List.mem_singleton.mp hr, hoperand]
            exact ⟨_, rfl, hresolved⟩
          · cases hr
    · intro offset hlogged
      obtain ⟨⟨hread, htranslate, hflush, hin⟩, rfl⟩ :=
        (flush_logged_iff t cpu pc isTranslate offset).mp hlogged
      obtain ⟨hmod, hsame⟩ := h.operand hread htranslate hflush hin
      exact ⟨_, (flushes_iff hflush pc following _).mpr ⟨hmod, rfl⟩, by rw [hsame]⟩

/-- A machine about to run `clflush [rdi]`. -/
def clflushCpu : Cpu := ⟨⟨0x0F, 0xAE, 0x3F, 0x90⟩, true, fun _ => 0x40000040, fun va => va⟩

/-- `clflush [rdi + 0x40]`: the operand is a cache line further on. -/
theorem displacement_ignored : ¬ ∀ (t : Range) (cpu : Cpu) (pc : UInt64) (isTranslate : Bool)
    (following : Nat → UInt8), SoundCall t cpu pc isTranslate following := by
  intro h
  have hsound := h ⟨0x40000000, 0x48000000⟩ { clflushCpu with insn := ⟨0x0F, 0xAE, 0x7F, 0x40⟩ }
    0x1000 false fun _ => 0x90
  obtain ⟨address, hflushes, hoffset⟩ := hsound.logged 0x40 (by decide)
  obtain ⟨-, rfl⟩ := (flushes_iff (by decide) 0x1000 (fun _ => 0x90) address).mp hflushes
  exact absurd hoffset (by decide)

end PMTester.WriteTracker
