import Mathlib.Algebra.Ring.Nat
import Mathlib.Algebra.Ring.Int.Defs
import Mathlib.Data.List.Basic

/-!
Fixed-width unsigned integers as byte lists. `le` is the memory image of an
integer on a little-endian host, `be` the image after `htobe16`/`htobe64`. Both
round trips are exact modulo the width, so no bound on the value is assumed.
-/
namespace PMTester.Bytes

/-- The `width` low bytes of `value`, least significant first. -/
def le : Nat → Nat → List UInt8
  | 0, _ => []
  | width + 1, value => UInt8.ofNat value :: le width (value / 256)

def ofLe : List UInt8 → Nat
  | [] => 0
  | b :: rest => b.toNat + 256 * ofLe rest

/-- The `width` low bytes of `value`, most significant first. -/
def be (width value : Nat) : List UInt8 := (le width value).reverse

def ofBe (bytes : List UInt8) : Nat := ofLe bytes.reverse

@[simp] theorem length_le (width value : Nat) : (le width value).length = width := by
  induction width generalizing value with
  | zero => rfl
  | succ width ih => simp [le, ih]

@[simp] theorem length_be (width value : Nat) : (be width value).length = width := by
  simp [be]

/-- Decoding keeps exactly the bits that fit in the width. -/
theorem ofLe_le (width value : Nat) : ofLe (le width value) = value % 256 ^ width := by
  induction width generalizing value with
  | zero => simp [le, ofLe, Nat.mod_one]
  | succ width ih =>
    have hb : (UInt8.ofNat value).toNat = value % 256 := by simp
    rw [le, ofLe, ih, hb, Nat.pow_succ, Nat.mul_comm (256 ^ width) 256, Nat.mod_mul]

/-- Bytes are the image of the integer they encode. -/
theorem le_ofLe (bytes : List UInt8) : le bytes.length (ofLe bytes) = bytes := by
  induction bytes with
  | nil => rfl
  | cons b bytes ih =>
    have hb := b.toNat_lt
    have hhead : UInt8.ofNat (b.toNat + 256 * ofLe bytes) = b := by
      rw [← UInt8.toNat_inj, UInt8.toNat_ofNat']
      omega
    have htail : (b.toNat + 256 * ofLe bytes) / 256 = ofLe bytes := by omega
    rw [List.length_cons, le, ofLe, hhead, htail, ih]

theorem be_ofBe (bytes : List UInt8) : be bytes.length (ofBe bytes) = bytes := by
  rw [be, ofBe, ← List.length_reverse, le_ofLe, List.reverse_reverse]

theorem ofBe_be (width value : Nat) : ofBe (be width value) = value % 256 ^ width := by
  simp [ofBe, be, ofLe_le]

/-- The low bytes of an integer are those of its remainder, the others those of its quotient. -/
theorem le_add (low high value : Nat) :
    le (low + high) value = le low value ++ le high (value / 256 ^ low) := by
  induction low generalizing value with
  | zero => simp [le]
  | succ low ih =>
    have hpow : value / 256 / 256 ^ low = value / 256 ^ (low + 1) := by
      rw [Nat.div_div_eq_div_mul, Nat.pow_succ']
    rw [Nat.add_right_comm, le, le, ih, hpow, List.cons_append]

/-- The first bytes of a big-endian integer are the integer without its low bytes. -/
theorem be_add (high low value : Nat) :
    be (high + low) value = be high (value / 256 ^ low) ++ be low value := by
  rw [be, Nat.add_comm, le_add, List.reverse_append, be, be]

theorem le_zero (width : Nat) : le width 0 = List.replicate width 0 := by
  induction width with
  | zero => rfl
  | succ width ih => simp [le, ih, List.replicate_succ]

/-- Zero bytes, in either order. -/
theorem ofBe_le_zero (width : Nat) : ofBe (le width 0) = 0 := by
  rw [ofBe, le_zero, List.reverse_replicate, ← le_zero, ofLe_le, Nat.zero_mod]

theorem ofLe_append (xs ys : List UInt8) :
    ofLe (xs ++ ys) = ofLe xs + 256 ^ xs.length * ofLe ys := by
  induction xs with
  | nil => simp [ofLe]
  | cons b xs ih =>
    rw [List.cons_append, ofLe, ofLe, ih, List.length_cons, Nat.pow_succ']
    rw [Nat.mul_add, Nat.add_assoc, Nat.mul_assoc]

theorem ofLe_lt (xs : List UInt8) : ofLe xs < 256 ^ xs.length := by
  induction xs with
  | nil => simp [ofLe]
  | cons b xs ih =>
    have hb := b.toNat_lt
    rw [ofLe, List.length_cons, Nat.pow_succ']
    omega

theorem take_le {count width : Nat} (h : count ≤ width) (value : Nat) :
    (le width value).take count = le count value := by
  obtain ⟨rest, rfl⟩ := Nat.exists_eq_add_of_le h
  rw [le_add, List.take_left' (length_le _ _)]

theorem drop_le {count width : Nat} (h : count ≤ width) (value : Nat) :
    (le width value).drop count = le (width - count) (value / 256 ^ count) := by
  obtain ⟨rest, rfl⟩ := Nat.exists_eq_add_of_le h
  rw [le_add, List.drop_left' (length_le _ _), Nat.add_sub_cancel_left]

/-- The integer whose first `count` bytes are those of `new` and the others those of `old`. -/
def mix (count new old : Nat) : Nat := new % 256 ^ count + old / 256 ^ count * 256 ^ count

@[simp] theorem mix_zero (new old : Nat) : mix 0 new old = old := by
  simp [mix, Nat.mod_one]

theorem mix_full {count new old : Nat} (hnew : new < 256 ^ count) (hold : old < 256 ^ count) :
    mix count new old = new := by
  rw [mix, Nat.mod_eq_of_lt hnew, Nat.div_eq_of_lt hold, Nat.zero_mul, Nat.add_zero]

/-- The low bytes come from the new value. -/
theorem mix_mod (count new old : Nat) : mix count new old % 256 ^ count = new % 256 ^ count := by
  rw [mix, Nat.add_mul_mod_self_right, Nat.mod_mod]

theorem mix_lt {count bound new old : Nat} (hdvd : 256 ^ count ∣ bound) (hold : old < bound) :
    mix count new old < bound := by
  obtain ⟨n, rfl⟩ := hdvd
  have hpos : 0 < 256 ^ count := Nat.pow_pos (by decide)
  have hlow := Nat.mod_lt new hpos
  have hhigh : old / 256 ^ count < n := Nat.div_lt_of_lt_mul hold
  calc mix count new old < 256 ^ count + old / 256 ^ count * 256 ^ count := by unfold mix; omega
    _ = (old / 256 ^ count + 1) * 256 ^ count := by rw [Nat.succ_mul, Nat.add_comm]
    _ ≤ n * 256 ^ count := Nat.mul_le_mul_right _ hhigh
    _ = 256 ^ count * n := Nat.mul_comm _ _

theorem ofLe_mix {count width : Nat} (h : count ≤ width) (new : Nat) {old : Nat}
    (hold : old < 256 ^ width) :
    ofLe ((le width new).take count ++ (le width old).drop count) = mix count new old := by
  have hhigh : old / 256 ^ count < 256 ^ (width - count) := by
    apply Nat.div_lt_of_lt_mul
    rwa [← Nat.pow_add, Nat.add_sub_cancel' h]
  rw [take_le h, drop_le h, ofLe_append, ofLe_le, ofLe_le, length_le, Nat.mod_eq_of_lt hhigh, mix,
    Nat.mul_comm]

theorem ofBe_append (xs ys : List UInt8) :
    ofBe (xs ++ ys) = ofBe xs * 256 ^ ys.length + ofBe ys := by
  rw [ofBe, List.reverse_append, ofLe_append, List.length_reverse, Nat.add_comm, Nat.mul_comm]
  rfl

theorem ofBe_lt (xs : List UInt8) : ofBe xs < 256 ^ xs.length := by
  simpa [ofBe] using ofLe_lt xs.reverse

end PMTester.Bytes
