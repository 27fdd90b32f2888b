import PMTester.WriteTracker
import PMTester.Lib.IStream
import PMTester.Lib.Loop

/-!
# The replayer plugin

The decode loop of the replayer, with its uninitialised locals as parameters.
Physical memory is written through `panda_physical_memory_rw`, a function of the
emulator that is a parameter here.
-/
namespace PMTester

open Bytes Memory Loop

namespace Replayer

def write : UInt32 := 0
def flush : UInt32 := 1
def fence : UInt32 := 2

/-- The locals of `init_plugin` that the loop reads into. -/
structure Locals where
  pc : UInt64
  type : UInt32
  offset : UInt64
  writeSize : UInt64
  writeData : List UInt8
  deriving DecidableEq, Repr

/-- `std::vector::resize`. -/
def resize (data : List UInt8) (size : Nat) : List UInt8 :=
  data.take size ++ List.replicate (size - data.length) 0

/-- The reads of one round of the loop; `none` when `resize` throws `std::length_error`. -/
def decode (l : Locals) (input : IStream) : Option (Locals × IStream) :=
  let (pc, input) := input.readUint 8 l.pc.toNat
  let (type, input) := input.readUint 4 l.type.toNat
  let l := { l with pc := UInt64.ofNat pc, type := UInt32.ofNat type }
  if l.type = write then
    let (offset, input) := input.readUint 8 l.offset.toNat
    let (writeSize, input) := input.readUint 8 l.writeSize.toNat
    if 2 ^ 63 ≤ writeSize then none
    else
      let (writeData, input) := input.readInto (resize l.writeData writeSize)
      some ({ l with
        offset := UInt64.ofNat offset, writeSize := UInt64.ofNat writeSize,
        writeData := writeData }, input)
  else if l.type = flush then
    let (offset, input) := input.readUint 8 l.offset.toNat
    some ({ l with offset := UInt64.ofNat offset }, input)
  else some (l, input)

structure State where
  locals : Locals
  input : IStream
  memory : Mem

inductive Result where
  | done (memory : Mem)
  | lengthError (memory : Mem)

/-- One round of the loop over the trace. -/
def body (physicalMemoryRw : Nat → List UInt8 → Mem → Mem) (base : UInt64) :
    State → Result ⊕ State
  | ⟨l, input, m⟩ =>
    if input.good then
      match decode l input with
      | none => .inl (.lengthError m)
      | some (l, input) =>
        .inr ⟨l, input,
          if l.type = write then physicalMemoryRw (base + l.offset).toNat l.writeData m else m⟩
    else .inl (.done m)

end Replayer

end PMTester
