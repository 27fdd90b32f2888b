import Mathlib.Algebra.Ring.Nat
import Mathlib.Algebra.Ring.Int.Defs

/-!
Conversions between C integer types, on unbounded integers. Each keeps the low
bits of its argument; the lemmas say when nothing is lost.
-/
namespace PMTester.Word

/-- Conversion to a 32-bit signed `int`. -/
def toInt (x : Int) : Int := (x + 2 ^ 31) % 2 ^ 32 - 2 ^ 31

/-- Conversion to a 32-bit `unsigned int`. -/
def toUnsigned (n : Nat) : Nat := n % 2 ^ 32

/-- Conversion to a 64-bit unsigned type (`uint64_t`, `size_t`, `target_ulong`). -/
def toUlong (n : Nat) : Nat := n % 2 ^ 64

/-- A signed value stored into a 64-bit unsigned field. -/
def intToUlong (x : Int) : UInt64 := UInt64.ofNat (x % 2 ^ 64).toNat

theorem toInt_of_fits (x : Int) (hlo : -2 ^ 31 ≤ x) (hhi : x < 2 ^ 31) : toInt x = x := by
  unfold toInt
  omega

theorem toInt_lt (x : Int) : toInt x < 2 ^ 31 := by
  unfold toInt
  omega

theorem toUnsigned_of_lt (n : Nat) (h : n < 2 ^ 32) : toUnsigned n = n := Nat.mod_eq_of_lt h

theorem toUlong_of_lt (n : Nat) (h : n < 2 ^ 64) : toUlong n = n := Nat.mod_eq_of_lt h

/-- A nonnegative value below `2 ^ 64` survives the conversion. -/
theorem intToUlong_natCast (n : Nat) (h : n < 2 ^ 64) : (intToUlong n).toNat = n := by
  have hmod : ((n : Int) % 2 ^ 64).toNat = n := by omega
  simp only [intToUlong, hmod, UInt64.toNat_ofNat']
  omega

/-- The low `k` bits of a word. -/
theorem toNat_and_mask (x mask : UInt32) (k : Nat) (hmask : mask.toNat = 2 ^ k - 1) :
    (x &&& mask).toNat = x.toNat % 2 ^ k := by
  rw [UInt32.toNat_and, hmask, Nat.and_two_pow_sub_one_eq_mod]

/-- A word without its low `k` bits. -/
theorem toNat_and_not_mask (x mask : UInt32) (k : Nat) (hmask : mask.toNat = 2 ^ k - 1) :
    (x &&& ~~~mask).toNat = x.toNat / 2 ^ k * 2 ^ k := by
  have hx := x.toNat_lt
  apply Nat.eq_of_testBit_eq
  intro i
  have hnot : (~~~mask).toNat.testBit i = (decide (i < 32) && !mask.toNat.testBit i) := by
    change (~~~mask.toBitVec).toNat.testBit i = (decide (i < 32) && !mask.toBitVec.toNat.testBit i)
    rw [BitVec.testBit_toNat, BitVec.getLsbD_not, BitVec.testBit_toNat]
  rw [UInt32.toNat_and, Nat.testBit_and, hnot, hmask, Nat.testBit_two_pow_sub_one,
    Nat.testBit_mul_two_pow, Nat.testBit_div_two_pow]
  by_cases hk : i < k
  · simp [hk, Nat.not_le_of_lt hk]
  · have hi : i - k + k = i := by omega
    by_cases h32 : i < 32
    · simp [hk, h32, hi, Nat.le_of_not_lt hk]
    · have hout : x.toNat.testBit i = false := by
        apply Nat.testBit_lt_two_pow
        calc x.toNat < 2 ^ 32 := hx
          _ ≤ 2 ^ i := Nat.pow_le_pow_right (by omega) (by omega)
      simp [hout, hi]

/-- A count added to a word counter is not changed by the conversion. -/
theorem toNat_ofInt_natCast (n : Nat) (h : n < 2 ^ 32) : (UInt32.ofInt n).toNat = n := by
  have hmod : ((n : Int) % 2 ^ 32).toNat = n := by omega
  rw [UInt32.ofInt, hmod, UInt32.toNat_ofNat_of_lt' h]

/-- A word counter that some steps of a run count up. -/
theorem foldl_count {σ ι : Type} (step : σ → ι → σ) (count : σ → UInt32) (counts : ι → Bool)
    (hstep : ∀ s i, count (step s i) = count s + if counts i then 1 else 0) (is : List ι) (s : σ) :
    count (is.foldl step s) = count s + UInt32.ofNat (is.countP counts) := by
  induction is generalizing s with
  | nil => simp
  | cons i is ih =>
    rw [List.foldl_cons, ih, hstep, List.countP_cons]
    cases counts i with
    | false => simp
    | true =>
      have hadd : UInt32.ofNat (is.countP counts + 1) = UInt32.ofNat (is.countP counts) + 1 :=
        UInt32.ofNat_add _ _
      rw [if_pos rfl, if_pos rfl, hadd, UInt32.add_assoc, UInt32.add_comm 1]

end PMTester.Word
