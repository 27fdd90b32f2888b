import Mathlib.Logic.Basic

/-!
Memory operands of x86-64 instructions without prefixes that change the address
size, the segment or the register numbers. The ModRM byte says how the address is
formed; a SIB byte and a displacement may come behind it.
-/
namespace PMTester.ModRM

def mod (modrm : UInt8) : UInt8 := modrm >>> 6

def reg (modrm : UInt8) : UInt8 := (modrm >>> 3) &&& 7

def rm (modrm : UInt8) : UInt8 := modrm &&& 7

/-- A displacement of one byte, sign-extended. -/
def disp8 (code : Nat → UInt8) (i : Nat) : UInt64 :=
  UInt64.ofBitVec ((code i).toBitVec.signExtend 64)

/-- A displacement of four bytes, sign-extended. -/
def disp32 (code : Nat → UInt8) (i : Nat) : UInt64 :=
  UInt64.ofBitVec (((code (i + 3)).toBitVec ++ (code (i + 2)).toBitVec ++ (code (i + 1)).toBitVec ++
    (code i).toBitVec).signExtend 64)

/-- The displacement that a mode puts at position `i`. -/
def displacement (mode : UInt8) (code : Nat → UInt8) (i : Nat) : UInt64 :=
  if mode = 1 then disp8 code i else if mode = 2 then disp32 code i else 0

/-- The address that the SIB byte at `i` forms. Its fields lie where those of the ModRM byte lie. -/
def sibAddress (regs : UInt8 → UInt64) (mode : UInt8) (code : Nat → UInt8) (i : Nat) : UInt64 :=
  let sib := code i
  let index := if reg sib = 4 then 0 else regs (reg sib) <<< (mod sib).toUInt64
  let base := if rm sib = 5 ∧ mode = 0 then disp32 code (i + 1)
    else regs (rm sib) + displacement mode code (i + 1)
  base + index

/-- The address of the operand whose ModRM byte is the byte `i` of an instruction without immediate
at `pc`; `none` for a register. -/
def effectiveAddress (regs : UInt8 → UInt64) (pc : UInt64) (code : Nat → UInt8) (i : Nat) :
    Option UInt64 :=
  let modrm := code i
  if mod modrm = 3 then none
  else if rm modrm = 4 then some (sibAddress regs (mod modrm) code (i + 1))
  else if rm modrm = 5 ∧ mod modrm = 0 then
    some (pc + UInt64.ofNat (i + 5) + disp32 code (i + 1))
  else some (regs (rm modrm) + displacement (mod modrm) code (i + 1))

/-- Most operands are a register and a displacement. -/
theorem effectiveAddress_base (regs : UInt8 → UInt64) (pc : UInt64) {code : Nat → UInt8} {i : Nat}
    (hmod : mod (code i) ≠ 3) (hsib : rm (code i) ≠ 4) (hrip : rm (code i) ≠ 5) :
    effectiveAddress regs pc code i =
      some (regs (rm (code i)) + displacement (mod (code i)) code (i + 1)) := by
  simp [effectiveAddress, hmod, hsib, hrip]

end PMTester.ModRM
