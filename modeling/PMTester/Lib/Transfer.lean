import Mathlib.Data.List.Basic

/-!
Partial `read` and `write` calls. The environment answers each call with a
count or a negative error; a positive answer is cut to what was asked for, to
what is there, and to the most bytes the kernel moves in one call. `answers`
gives the environment's answer to every call in turn, so a theorem for all
`answers` is a theorem for all patterns of short transfers.
-/
namespace PMTester.Transfer

/-- What a call that could move `available` bytes returns. -/
def granted (cap available : Nat) (answer : Int) : Int :=
  if answer < 0 then answer else min answer (min available cap : Nat)

/-- A file being written: its bytes so far and the number of calls made. -/
structure Sink where
  written : List UInt8
  calls : Nat
  deriving DecidableEq, Repr

def write (cap : Nat) (answers : Nat → Int) (bytes : List UInt8) (k : Sink) : Int × Sink :=
  let res := granted cap bytes.length (answers k.calls)
  (res, ⟨k.written ++ bytes.take res.toNat, k.calls + 1⟩)

/-- A file being read: the bytes not read yet and the number of calls made. -/
structure Source where
  unread : List UInt8
  calls : Nat
  deriving DecidableEq, Repr

/-- One `read` of at most `want` bytes: its result, the bytes delivered, the file after it. -/
def read (cap : Nat) (answers : Nat → Int) (want : Nat) (f : Source) :
    Int × List UInt8 × Source :=
  let res := granted cap (min want f.unread.length) (answers f.calls)
  (res, f.unread.take res.toNat, ⟨f.unread.drop res.toNat, f.calls + 1⟩)

/-- A call that can make progress moves at least one byte and at most what it may. -/
theorem granted_progress (cap available : Nat) (answer : Int) (hcap : 0 < cap)
    (hav : 0 < available) (hans : 1 ≤ answer) :
    ∃ n : Nat, granted cap available answer = n ∧ 0 < n ∧ n ≤ available ∧ n ≤ cap := by
  refine ⟨(granted cap available answer).toNat, ?_⟩
  unfold granted
  rw [if_neg (by omega)]
  omega

/-- A write of a nonempty block appends a nonempty prefix of it. -/
theorem write_progress (cap : Nat) (answers : Nat → Int) (bytes : List UInt8) (k : Sink)
    (hcap : 0 < cap) (hb : bytes ≠ []) (hans : 1 ≤ answers k.calls) :
    ∃ n : Nat, 0 < n ∧ n ≤ bytes.length ∧ n ≤ cap ∧
      write cap answers bytes k = ((n : Int), ⟨k.written ++ bytes.take n, k.calls + 1⟩) := by
  obtain ⟨n, hn, hpos, hle, hlecap⟩ := granted_progress cap bytes.length (answers k.calls) hcap
    (List.length_pos_iff.mpr hb) hans
  exact ⟨n, hpos, hle, hlecap, by simp [write, hn]⟩

/-- A read of at least one byte from a nonempty rest delivers a nonempty prefix of it. -/
theorem read_progress (cap : Nat) (answers : Nat → Int) (want : Nat) (f : Source)
    (hcap : 0 < cap) (hw : 0 < want) (hf : f.unread ≠ []) (hans : 1 ≤ answers f.calls) :
    ∃ n : Nat, 0 < n ∧ n ≤ want ∧ n ≤ f.unread.length ∧ n ≤ cap ∧
      read cap answers want f = ((n : Int), f.unread.take n, ⟨f.unread.drop n, f.calls + 1⟩) := by
  have hlen : 0 < f.unread.length := List.length_pos_iff.mpr hf
  obtain ⟨n, hn, hpos, hle, hlecap⟩ := granted_progress cap (min want f.unread.length)
    (answers f.calls) hcap (by omega) hans
  exact ⟨n, hpos, by omega, by omega, hlecap, by simp [read, hn]⟩

end PMTester.Transfer
