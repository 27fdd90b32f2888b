import Mathlib.Data.Nat.BitIndices

/-!
The bits of a word as a set of flags, and the loop that shifts a word out and
does something at each of its bits.
-/
namespace PMTester.Bits

variable {α ι : Type} {w : Nat}

/-- `for (; n != 0; n >>= 1, ++shift) if (n & 1) f(shift);` -/
def forBits (f : Nat → α → α) (n : BitVec w) (shift : Nat) (a : α) : α :=
  if n = 0#w then a
  else forBits f (n >>> 1) (shift + 1) (if n.getLsbD 0 then f shift a else a)
termination_by n.toNat
decreasing_by
  have hpos : n.toNat ≠ 0 := by
    intro h
    apply_assumption
    exact BitVec.eq_of_toNat_eq (by simpa using h)
  simp only [BitVec.toNat_ushiftRight, Nat.shiftRight_one]
  omega

/-- It visits the bits that are set, from the lowest on. -/
theorem forBits_eq (f : Nat → α → α) (n : BitVec w) (shift : Nat) (a : α) :
    forBits f n shift a = (n.toNat.bitIndices.map (· + shift)).foldl (fun a i => f i a) a := by
  induction n, shift, a using forBits.induct (f := f) with
  | case1 shift a => simp [forBits]
  | case2 n shift a hn ih =>
    simp only [dite_eq_ite] at ih
    rw [forBits, if_neg hn, ih, BitVec.toNat_ushiftRight, Nat.shiftRight_one]
    have hshift : ((n.toNat / 2).bitIndices.map (· + 1)).map (· + shift) =
        (n.toNat / 2).bitIndices.map (· + (shift + 1)) := by
      rw [List.map_map]
      congr 1
      funext i
      simp only [Function.comp_apply]
      omega
    have hbit : n.getLsbD 0 = decide (n.toNat % 2 = 1) := by
      simp [← BitVec.testBit_toNat, Nat.testBit_zero]
    rcases Nat.mod_two_eq_zero_or_one n.toNat with hmod | hmod
    · have heven : n.toNat = 2 * (n.toNat / 2) := by omega
      rw [hbit, hmod]
      conv_rhs => rw [heven, Nat.bitIndices_two_mul, hshift]
      simp
    · have hodd : n.toNat = 2 * (n.toNat / 2) + 1 := by omega
      rw [hbit, hmod]
      conv_rhs => rw [hodd, Nat.bitIndices_two_mul_add_one, List.map_cons, hshift]
      simp

theorem bitIndices_one_shift {i : Nat} (hi : i < w) : (1#w <<< i).toNat.bitIndices = [i] := by
  have hone : 1 < 2 ^ w := Nat.one_lt_two_pow (by omega)
  have hpow : 2 ^ i < 2 ^ w := Nat.pow_lt_pow_right (by omega) hi
  rw [BitVec.toNat_shiftLeft, BitVec.toNat_ofNat, Nat.mod_eq_of_lt hone, Nat.shiftLeft_eq,
    Nat.one_mul, Nat.mod_eq_of_lt hpow, Nat.bitIndices_two_pow]

/-- The flags of all these. -/
def union (flag : ι → BitVec w) (xs : List ι) : BitVec w := xs.foldl (fun acc x => acc ||| flag x) 0#w

theorem getLsbD_foldl (flag : ι → BitVec w) (xs : List ι) (start : BitVec w) (i : Nat) :
    (xs.foldl (fun acc x => acc ||| flag x) start).getLsbD i = true ↔
      start.getLsbD i = true ∨ ∃ x ∈ xs, (flag x).getLsbD i = true := by
  induction xs generalizing start with
  | nil => simp
  | cons x rest ih =>
    rw [List.foldl_cons, ih]
    simp [or_assoc]

theorem mem_union (flag : ι → BitVec w) (xs : List ι) (i : Nat) :
    i ∈ (union flag xs).toNat.bitIndices ↔ ∃ x ∈ xs, i ∈ (flag x).toNat.bitIndices := by
  simp only [Nat.mem_bitIndices, BitVec.testBit_toNat, union, getLsbD_foldl]
  simp

/-- Words with the same bits are the same. -/
theorem eq_of_bitIndices {n m : BitVec w} (h : ∀ i, i ∈ n.toNat.bitIndices ↔ i ∈ m.toNat.bitIndices) :
    n = m := by
  apply BitVec.eq_of_getLsbD_eq
  intro i _
  have hi := h i
  simp only [Nat.mem_bitIndices, BitVec.testBit_toNat] at hi
  exact Bool.eq_iff_iff.mpr hi

/-- The bits of some flags, in the order of a list that has them in the order of their bits. -/
theorem bitIndices_union (flag : ι → BitVec w) (bit : ι → Nat) (all xs : List ι)
    [DecidableEq ι] (hall : (all.map bit).SortedLT)
    (hflag : ∀ x ∈ all, (flag x).toNat.bitIndices = [bit x])
    (hnone : ∀ x ∉ all, (flag x).toNat.bitIndices = []) :
    (union flag xs).toNat.bitIndices = (all.filter (· ∈ xs)).map bit := by
  have hsub : ((all.filter (· ∈ xs)).map bit).SortedLT :=
    (hall.pairwise.sublist (List.filter_sublist.map bit)).sortedLT
  apply List.SortedLT.eq_of_mem_iff Nat.bitIndices_sorted hsub
  intro i
  rw [mem_union]
  constructor
  · rintro ⟨x, hx, hi⟩
    by_cases hmem : x ∈ all
    · rw [hflag x hmem, List.mem_singleton] at hi
      exact List.mem_map.mpr ⟨x, by simp [hmem, hx], hi.symm⟩
    · simp [hnone x hmem] at hi
  · intro hi
    obtain ⟨x, hx, rfl⟩ := List.mem_map.mp hi
    obtain ⟨hmem, hin⟩ := List.mem_filter.mp hx
    exact ⟨x, by simpa using hin, by simp [hflag x hmem]⟩

end PMTester.Bits
