import PMTester.Lib.Bytes
import PMTester.Lib.Memory

/-!
# The writetracker plugin

Its callbacks, as the bytes that each call appends to `wt.out`. The text log
`out.log` is left out, apart from the registers that its lines read. The target
is a 64-bit one, and writes to the output stream succeed.
-/
namespace PMTester

open Bytes Memory

namespace WriteTracker

inductive EventType where
  | write | flush | fence
  deriving DecidableEq, Repr

def EventType.code : EventType → Nat
  | .write => 0
  | .flush => 1
  | .fence => 2

def logOutput (pc : UInt64) (type : EventType) (offset writeSize : UInt64)
    (writeData : List UInt8) : List UInt8 :=
  le 8 pc.toNat ++ le 4 type.code ++
    match type with
    | .write => le 8 offset.toNat ++ le 8 writeSize.toNat ++ writeData.take writeSize.toNat
    | .flush => le 8 offset.toNat
    | .fence => []

/-- The tracked physical range; the end is exclusive. -/
structure Range where
  rangeStart : UInt64
  rangeEnd : UInt64
  deriving DecidableEq, Repr

def Range.contains (t : Range) (pa : UInt64) : Bool := t.rangeStart ≤ pa && pa < t.rangeEnd

def memWriteCallback (t : Range) (pc pa size : UInt64) (buf : List UInt8) : List UInt8 :=
  if t.contains pa then logOutput pc .write (pa - t.rangeStart) size buf else []

/-- Register indices of the emulator. -/
def regFromRm (rm : UInt8) : Int :=
  if rm = 0 then 0
  else if rm = 1 then 1
  else if rm = 2 then 2
  else if rm = 3 then 3
  else if rm = 6 then 6
  else if rm = 7 then 7
  else -1

/-- The four bytes at a program counter. -/
structure Insn where
  b0 : UInt8
  b1 : UInt8
  b2 : UInt8
  b3 : UInt8
  deriving DecidableEq, Repr

/-- What a callback sees of the machine: the instruction bytes at its program
counter, whether reading them succeeds, the registers and the page mapping. -/
structure Cpu where
  insn : Insn
  readable : Bool
  regs : Int → UInt64
  virtToPhys : UInt64 → UInt64

/-- A call of `check_flush`: its result, what it appends to `wt.out`, and the
register indices it used. -/
structure Checked where
  result : Bool
  output : List UInt8
  regsUsed : List Int
  deriving DecidableEq, Repr

/-- `(panda_physaddr) -1`, the address of an unmapped page. -/
def unmapped : UInt64 := UInt64.ofNat (2 ^ 64 - 1)

/-- Registers read for the diagnostic lines about stores and `movnti`. -/
def diagnosticRegs (insn : Insn) : List Int :=
  (if 0x88 ≤ insn.b0 && insn.b0 ≤ 0x8F && (insn.b1 == 0x06 || insn.b1 == 0x07) then
    [regFromRm (insn.b1 &&& 7)] else []) ++
  if insn.b0 == 0x0F then [regFromRm (insn.b2 &&& 7)] else []

/-- The common end of both flush encodings, for an operand in `targetReg`. -/
def checkOperand (t : Range) (cpu : Cpu) (pc : UInt64) (isTranslate : Bool) (targetReg : Int)
    (regs : List Int) : Checked :=
  if !isTranslate then
    let va := cpu.regs targetReg
    let pa := cpu.virtToPhys va
    if pa = unmapped then ⟨false, [], regs ++ [targetReg]⟩
    else
      ⟨true, if t.contains pa then logOutput pc .flush (pa - t.rangeStart) 0 [] else [],
        regs ++ [targetReg]⟩
  else ⟨true, [], regs⟩

def isFence (insn : Insn) : Bool := insn.b0 == 0x0F && insn.b1 == 0xAE && 0xF0 ≤ insn.b2

def isLfence (insn : Insn) : Bool :=
  insn.b0 == 0x0F && insn.b1 == 0xAE && 0xE8 ≤ insn.b2 && insn.b2 ≤ 0xEF

/-- `clflush` with an operand the decoder knows: `0f ae`, `modrm.reg` 7. -/
def isClflush (insn : Insn) : Bool :=
  insn.b0 == 0x0F && insn.b1 == 0xAE && (insn.b2 >>> 3) &&& 7 == 7 &&
    decide (-1 < regFromRm (insn.b2 &&& 7))

/-- `clwb` and `clflushopt` with an operand the decoder knows: `66 0f ae`, `modrm.reg` 6 or 7. -/
def isClwb (insn : Insn) : Bool :=
  insn.b0 == 0x66 && insn.b1 == 0x0F && insn.b2 == 0xAE &&
    ((insn.b3 >>> 3) &&& 7 == 6 || (insn.b3 >>> 3) &&& 7 == 7) &&
    decide (-1 < regFromRm (insn.b3 &&& 7))

/-- For an `sfence` the test of `is_translate` is commented out in the source. -/
def checkFlush (t : Range) (cpu : Cpu) (pc : UInt64) (isTranslate : Bool) : Checked :=
  let insn := cpu.insn
  if !cpu.readable then ⟨false, [], []⟩
  else
    let regs := diagnosticRegs insn
    if isLfence insn then ⟨false, [], regs⟩
    else if isFence insn then ⟨true, logOutput pc .fence 0 0 [], regs⟩
    else if isClflush insn then
      checkOperand t cpu pc isTranslate (regFromRm (insn.b2 &&& 7)) regs
    else if isClwb insn then
      checkOperand t cpu pc isTranslate (regFromRm (insn.b3 &&& 7)) regs
    else ⟨false, [], regs⟩

def translateCallback (t : Range) (cpu : Cpu) (pc : UInt64) : Checked := checkFlush t cpu pc false

def execCallback (t : Range) (cpu : Cpu) (pc : UInt64) : Checked := checkFlush t cpu pc true

end WriteTracker

end PMTester
