import PMTester.Lib.Bytes

/-!
Binary input streams with a fail state. A read that cannot be served in full
delivers what is left and puts the stream into the fail state; a read from a
failed stream delivers nothing. The bytes of the destination that a read does
not deliver keep their value.
-/
namespace PMTester

open Bytes

structure IStream where
  unread : List UInt8
  good : Bool
  deriving DecidableEq, Repr

namespace IStream

def read (n : Nat) (s : IStream) : List UInt8 × IStream :=
  if !s.good then ([], s)
  else if n ≤ s.unread.length then (s.unread.take n, { s with unread := s.unread.drop n })
  else (s.unread, ⟨[], false⟩)

/-- A stream on `data`, positioned from its beginning. No file has a negative offset. -/
def seekg (data : List UInt8) (offset : Int) : IStream :=
  if offset < 0 then ⟨data, false⟩ else ⟨data.drop offset.toNat, true⟩

/-- A read over a destination that holds `old`. -/
def readInto (old : List UInt8) (s : IStream) : List UInt8 × IStream :=
  let (bytes, s) := s.read old.length
  (bytes ++ old.drop bytes.length, s)

/-- A read over a little-endian integer variable of `width` bytes. -/
def readUint (width old : Nat) (s : IStream) : Nat × IStream :=
  let (bytes, s) := s.readInto (le width old)
  (ofLe bytes, s)

theorem readInto_append (old front rest : List UInt8) (h : front.length = old.length) :
    readInto old ⟨front ++ rest, true⟩ = (front, ⟨rest, true⟩) := by
  simp [readInto, read, ← h]

@[simp] theorem readInto_failed (old unread : List UInt8) :
    readInto old ⟨unread, false⟩ = (old, ⟨unread, false⟩) := by
  simp [readInto, read]

theorem readInto_end (old : List UInt8) (h : old ≠ []) :
    readInto old ⟨[], true⟩ = (old, ⟨[], false⟩) := by
  simp [readInto, read, h]

theorem readUint_append (width old value : Nat) (rest : List UInt8) :
    readUint width old ⟨le width value ++ rest, true⟩ = (value % 256 ^ width, ⟨rest, true⟩) := by
  simp [readUint, readInto_append, ofLe_le]

@[simp] theorem readUint_failed (width old : Nat) (unread : List UInt8) :
    readUint width old ⟨unread, false⟩ = (old % 256 ^ width, ⟨unread, false⟩) := by
  simp [readUint, ofLe_le]

theorem readUint_end (width old : Nat) (h : 0 < width) :
    readUint width old ⟨[], true⟩ = (old % 256 ^ width, ⟨[], false⟩) := by
  have hne : le width old ≠ [] := List.ne_nil_of_length_pos (by rw [length_le]; exact h)
  simp [readUint, readInto_end _ hne, ofLe_le]

/-- A read over a destination of `length` bytes from a stream that ends inside or behind them. -/
theorem readInto_cut (old front rest : List UInt8) (k : Nat) (h : front.length = old.length) :
    readInto old ⟨(front ++ rest).take k, true⟩ =
      (front.take k ++ old.drop k, ⟨rest.take (k - front.length), decide (front.length ≤ k)⟩) := by
  by_cases hk : front.length ≤ k
  · have hrest : (front ++ rest).take k = front ++ rest.take (k - front.length) := by
      rw [List.take_append, List.take_of_length_le hk]
    rw [hrest, readInto_append _ _ _ h, List.take_of_length_le hk,
      List.drop_eq_nil_of_le (by omega), List.append_nil, decide_eq_true hk]
  · have hfront : (front ++ rest).take k = front.take k := List.take_append_of_le_length (by omega)
    have hlen : (front.take k).length = k := by
      rw [List.length_take]
      omega
    have hshort : ¬ old.length ≤ (front.take k).length := by omega
    have hbehind : k - front.length = 0 := by omega
    rw [hfront, readInto, read, if_neg (by simp), if_neg hshort, hbehind, List.take_zero,
      decide_eq_false hk]
    simp [hlen]

/-- A read of an integer from a file that ends inside or behind it, or that ended before it: the
bytes that are not there keep their value. -/
theorem readUint_cut {width old k : Nat} {good : Bool} (new : Nat) (rest : List UInt8)
    (hgood : good = false → k = 0) (hold : old < 256 ^ width) :
    readUint width old ⟨(le width new ++ rest).take k, good⟩ =
      (mix (min k width) new old, ⟨rest.take (k - width), good && decide (width ≤ k)⟩) := by
  cases good with
  | false =>
    obtain rfl := hgood rfl
    simp [Nat.mod_eq_of_lt hold]
  | true =>
    have hcut := readInto_cut (le width old) (le width new) rest k (by simp)
    have htake : (le width new).take k = (le width new).take (min k width) := by
      rw [List.take_eq_take_iff, length_le, Nat.min_assoc, Nat.min_self]
    have hdrop : (le width old).drop k = (le width old).drop (min k width) := by
      by_cases hk : k ≤ width
      · rw [Nat.min_eq_left hk]
      · rw [List.drop_eq_nil_of_le (by simp; omega), List.drop_eq_nil_of_le (by simp; omega)]
    rw [length_le, htake, hdrop] at hcut
    rw [readUint, hcut]
    simp only [ofLe_mix (Nat.min_le_right k width) new hold, Bool.true_and]

end IStream

end PMTester
