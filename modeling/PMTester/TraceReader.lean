import PMTester.CutTrace
import PMTester.Types

/-!
# The trace reader

`scripts/reader.cpp` prints a trace. Its loop is that of the replayer with a line
of output in place of the write to memory, and it too looks for the end of the
file before it reads.
-/
namespace PMTester

open Bytes Loop

namespace Reader

def text (s : String) : List UInt8 := path s.toList

/-- A number as `std::hex` prints it. -/
def hex (n : Nat) : List UInt8 := path (Nat.toDigits 16 n)

/-- `std::endl`. -/
def endl : List UInt8 := [10]

/-- What a round prints. The reader calls `addr` what the replayer calls `offset`. -/
def printed (l : Replayer.Locals) : List UInt8 :=
  if l.type = Replayer.write then
    text "[pc 0x" ++ hex l.pc.toNat ++ text "] write to VA " ++ hex l.offset.toNat ++
      text ", size " ++ hex l.writeSize.toNat ++ text ", Data : " ++ l.writeData ++ endl
  else if l.type = Replayer.flush then
    text "[pc 0x" ++ hex l.pc.toNat ++ text "] flush at VA " ++ hex l.offset.toNat ++ endl
  else if l.type = Replayer.fence then
    text "[pc 0x" ++ hex l.pc.toNat ++ text "] mfence or sfence" ++ endl
  else []

def finalMessage : List UInt8 := text "done?" ++ endl

structure State where
  locals : Replayer.Locals
  input : IStream
  output : List UInt8

inductive Result where
  | done (output : List UInt8)
  | lengthError (output : List UInt8)

/-- One round of the loop of `main`. The reads are those of the replayer. -/
def body : State → Result ⊕ State
  | ⟨l, input, output⟩ =>
    if input.good then
      match Replayer.decode l input with
      | none => .inl (.lengthError output)
      | some (l, input) => .inr ⟨l, input, output ++ printed l⟩
    else .inl (.done (output ++ finalMessage))

/-- The line that reports an event. -/
def line : Record → List UInt8
  | .write pc offset data =>
    text "[pc 0x" ++ hex pc.toNat ++ text "] write to VA " ++ hex offset.toNat ++
      text ", size " ++ hex data.val.length ++ text ", Data : " ++ data.val ++ endl
  | .flush pc offset =>
    text "[pc 0x" ++ hex pc.toNat ++ text "] flush at VA " ++ hex offset.toNat ++ endl
  | .fence pc => text "[pc 0x" ++ hex pc.toNat ++ text "] mfence or sfence" ++ endl

/-- The reader prints one line for each event, in order, then the final message, and nothing else. -/
def ReportsOnce (l : Replayer.Locals) (events : List Record) : Prop :=
  Exits body ⟨l, ⟨events.flatMap Record.encode, true⟩, []⟩
    (.done (events.flatMap line ++ finalMessage))

/-- A round that has read a record prints its line. -/
theorem printed_load (r : Record) (l : Replayer.Locals) : printed (r.load l) = line r := by
  cases r with
  | write pc offset data => simp [printed, line, Record.load, Record.size_toNat]
  | flush pc offset => simp [printed, line, Record.load, Replayer.flush, Replayer.write]
  | fence pc =>
    simp [printed, line, Record.load, Replayer.fence, Replayer.flush, Replayer.write]

theorem line_ne_nil (r : Record) : line r ≠ [] := by
  cases r <;> simp [line, endl]

/-- A round on a whole record prints the line of the event. -/
theorem body_record (r : Record) (l : Replayer.Locals) (rest output : List UInt8) :
    body ⟨l, ⟨r.encode ++ rest, true⟩, output⟩ =
      .inr ⟨r.load l, ⟨rest, true⟩, output ++ line r⟩ := by
  simp only [body, if_true, r.decode_encode, printed_load]

theorem exits_records (events : List Record) (rest : List UInt8) (l : Replayer.Locals)
    (output : List UInt8) {result : Result}
    (h : Exits body ⟨loadAll events l, ⟨rest, true⟩, output ++ events.flatMap line⟩ result) :
    Exits body ⟨l, ⟨events.flatMap Record.encode ++ rest, true⟩, output⟩ result := by
  induction events generalizing l output with
  | nil => simpa [loadAll] using h
  | cons r events ih =>
    rw [List.flatMap_cons, List.append_assoc]
    rw [List.flatMap_cons, ← List.append_assoc] at h
    exact Exits.next (body_record r l _ output) (ih (r.load l) _ h)

/-- At the end of the file the line of the last event is printed once more. -/
theorem exits_last (r : Record) (l : Replayer.Locals) (output : List UInt8) :
    Exits body ⟨r.load l, ⟨[], true⟩, output⟩ (.done (output ++ line r ++ finalMessage)) := by
  have hround : body ⟨r.load l, ⟨[], true⟩, output⟩ =
      .inr ⟨r.load l, ⟨[], false⟩, output ++ line r⟩ := by
    simp only [body, if_true, r.decode_end _ (r.held_load l), printed_load]
  exact Exits.next hround (Exits.done (by simp [body]))

/-- What the reader prints for a trace: the line of the last event stands there twice. -/
theorem reader_output (front : List Record) (r : Record) (l : Replayer.Locals) :
    Exits body ⟨l, ⟨(front ++ [r]).flatMap Record.encode, true⟩, []⟩
      (.done ((front ++ [r]).flatMap line ++ line r ++ finalMessage)) := by
  have hlast := exits_last r (loadAll front l) ((front ++ [r]).flatMap line)
  rw [← loadAll_append] at hlast
  simpa using exits_records (front ++ [r]) [] l [] (by simpa using hlast)

theorem not_reportsOnce (front : List Record) (r : Record) (l : Replayer.Locals) :
    ¬ ReportsOnce l (front ++ [r]) := by
  intro h
  have hsame := (reader_output front r l).unique h
  simp only [Result.done.injEq, List.append_assoc, List.append_cancel_left_eq] at hsame
  exact line_ne_nil r (List.append_left_eq_self.mp hsame)

/-- The reader reports no trace right: there is always one line too many. -/
theorem reader_never_once (events : List Record) (hne : events ≠ []) (l : Replayer.Locals) :
    ¬ ReportsOnce l events := by
  obtain ⟨front, r, hevents⟩ := List.eq_nil_or_concat events |>.resolve_left hne
  rw [hevents, List.concat_eq_append]
  exact not_reportsOnce front r l

theorem reader_never_once_flush :
    ¬ ReportsOnce ⟨0, 0, 0, 0, []⟩ [.fence 0x1000, .flush 0x1004 0x40] :=
  reader_never_once _ (by simp) _

/-- The line of a single fence is printed twice. -/
theorem reader_repeats_fence :
    ¬ ∀ events : List Record, events ≠ [] → ∀ l, ReportsOnce l events := by
  intro h
  exact not_reportsOnce [] (.fence 0x1000) ⟨0, 0, 0, 0, []⟩ (h _ (by simp) _)

end Reader

end PMTester
