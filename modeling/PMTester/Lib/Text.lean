import Mathlib.Data.List.Basic

/-!
Text that is written to an output stream, and texts that can be told apart: a
word that is closed by a byte it does not hold, a number in decimal, a list of
labelled numbers.
-/
namespace PMTester.Text

/-- An output stream: what is written while no output has failed. -/
structure OStream where
  text : List UInt8 := []
  failbit : Bool := false
  deriving DecidableEq

namespace OStream

def put (os : OStream) (s : List UInt8) : OStream :=
  if os.failbit then os else { os with text := os.text ++ s }

def fail (os : OStream) : OStream := { os with failbit := true }

theorem put_put (os : OStream) (s t : List UInt8) : (os.put s).put t = os.put (s ++ t) := by
  cases hfail : os.failbit <;> simp [put, hfail]

theorem put_nil (os : OStream) : os.put [] = os := by
  unfold put
  split
  · rfl
  · rw [List.append_nil]

theorem put_injective {os : OStream} (h : os.failbit = false) {s t : List UInt8} :
    os.put s = os.put t ↔ s = t := by
  simp [put, h]

/-- Texts that are put one after the other. -/
theorem foldl_put {α : Type} (f : α → List UInt8) (xs : List α) (os : OStream) :
    xs.foldl (fun os x => os.put (f x)) os = os.put (xs.flatMap f) := by
  induction xs generalizing os with
  | nil => exact os.put_nil.symm
  | cons x rest ih => rw [List.foldl_cons, ih, put_put, List.flatMap_cons]

end OStream

/-- A byte that closes a word, and is not in it, ends it. -/
theorem append_stop_inj {α : Type} {stop : α} {x y s t : List α} (hx : stop ∉ x) (hy : stop ∉ y) :
    x ++ stop :: s = y ++ stop :: t ↔ x = y ∧ s = t := by
  constructor
  · intro h
    induction x generalizing y with
    | nil =>
      cases y with
      | nil => simpa using h
      | cons b y =>
        obtain ⟨rfl, -⟩ := List.cons.inj h
        exact absurd List.mem_cons_self hy
    | cons a x ih =>
      cases y with
      | nil =>
        obtain ⟨rfl, -⟩ := List.cons.inj h
        exact absurd List.mem_cons_self hx
      | cons b y =>
        obtain ⟨rfl, hrest⟩ := List.cons.inj h
        obtain ⟨rfl, rfl⟩ := ih (fun hin => hx (by simp [hin])) (fun hin => hy (by simp [hin])) hrest
        exact ⟨rfl, rfl⟩
  · rintro ⟨rfl, rfl⟩
    rfl

/-- A word is ended by what begins with a byte that is not in it. -/
theorem append_mark_inj {α : Type} {mark : List α} {stop : α} (hmark : mark.head? = some stop)
    {x y s t : List α} (hx : stop ∉ x) (hy : stop ∉ y) :
    x ++ mark ++ s = y ++ mark ++ t ↔ x = y ∧ s = t := by
  obtain ⟨tail, rfl⟩ := List.head?_eq_some_iff.mp hmark
  rw [List.append_assoc, List.append_assoc, List.cons_append, List.cons_append,
    append_stop_inj hx hy, List.append_cancel_left_eq]

/-- Words that are each closed by a byte that none of them holds. -/
theorem closed_inj {α : Type} {stop : α} {xs ys : List (List α)} (hx : ∀ x ∈ xs, stop ∉ x)
    (hy : ∀ y ∈ ys, stop ∉ y) : xs.flatMap (· ++ [stop]) = ys.flatMap (· ++ [stop]) ↔ xs = ys := by
  induction xs generalizing ys with
  | nil =>
    cases ys with
    | nil => simp
    | cons y ys => simp
  | cons x xs ih =>
    cases ys with
    | nil => simp
    | cons y ys =>
      have hrest : xs.flatMap (· ++ [stop]) = ys.flatMap (· ++ [stop]) ↔ xs = ys :=
        ih (fun x hin => hx x (by simp [hin])) fun y hin => hy y (by simp [hin])
      simp only [List.flatMap_cons, List.append_assoc, List.singleton_append]
      rw [append_stop_inj (hx x (by simp)) (hy y (by simp)), hrest, List.cons.injEq]

def decimal (n : Nat) : List UInt8 := (Nat.toDigits 10 n).map fun c => UInt8.ofNat c.toNat

/-- The number that digits tell. -/
def value (digits : List UInt8) : Nat := digits.foldl (fun n b => 10 * n + (b.toNat - 48)) 0

theorem digit_byte : ∀ d < 10, (UInt8.ofNat (Nat.digitChar d).toNat).toNat = 48 + d := by decide

theorem digits_decimal (n : Nat) {b : UInt8} (hb : b ∈ decimal n) : 48 ≤ b.toNat ∧ b.toNat ≤ 57 := by
  induction n using Nat.strongRecOn with
  | ind n ih =>
    rw [decimal, Nat.toDigits_eq_if (by omega)] at hb
    split at hb
    · rename_i hn
      have hdigit := digit_byte n hn
      simp only [List.map_cons, List.map_nil, List.mem_singleton] at hb
      rw [hb]
      omega
    · rename_i hn
      have hdigit := digit_byte (n % 10) (by omega)
      simp only [List.map_append, List.map_cons, List.map_nil, List.mem_append,
        List.mem_singleton] at hb
      rcases hb with hb | rfl
      · exact ih (n / 10) (by omega) hb
      · omega

theorem value_decimal (n : Nat) : value (decimal n) = n := by
  induction n using Nat.strongRecOn with
  | ind n ih =>
    rw [decimal, Nat.toDigits_eq_if (by omega)]
    split
    · rename_i hn
      simp [value, digit_byte n hn]
    · have hvalue := ih (n / 10) (by omega)
      rw [value, decimal] at hvalue
      rw [value, List.map_append, List.foldl_append, hvalue]
      simp only [List.map_cons, List.map_nil, List.foldl_cons, List.foldl_nil,
        digit_byte (n % 10) (by omega)]
      omega

theorem decimal_injective {n m : Nat} : decimal n = decimal m ↔ n = m := by
  constructor
  · intro h
    rw [← value_decimal n, h, value_decimal]
  · rintro rfl
    rfl

/-- A byte that is no digit is not in a number. -/
theorem notMem_decimal {b : UInt8} (hb : b.toNat < 48 ∨ 57 < b.toNat) (n : Nat) : b ∉ decimal n := by
  intro hin
  have hdigit := digits_decimal n hin
  omega

/-- Each number behind its label, closed by a byte. -/
def labelled (stop : UInt8) (labels : List (List UInt8)) (numbers : List Nat) : List UInt8 :=
  (labels.zip numbers).flatMap fun x => x.1 ++ decimal x.2 ++ [stop]

/-- The numbers can be read off. -/
theorem labelled_inj {stop : UInt8} (hstop : stop.toNat < 48) (labels : List (List UInt8))
    {numbers numbers' : List Nat} (hlen : numbers.length = labels.length)
    (hlen' : numbers'.length = labels.length) {s t : List UInt8} :
    labelled stop labels numbers ++ s = labelled stop labels numbers' ++ t ↔
      numbers = numbers' ∧ s = t := by
  induction labels generalizing numbers numbers' with
  | nil =>
    obtain rfl := List.length_eq_zero_iff.mp hlen
    obtain rfl := List.length_eq_zero_iff.mp hlen'
    simp [labelled]
  | cons label labels ih =>
    obtain ⟨n, numbers, rfl⟩ := List.exists_cons_of_length_eq_add_one hlen
    obtain ⟨m, numbers', rfl⟩ := List.exists_cons_of_length_eq_add_one hlen'
    have hrest : labelled stop labels numbers ++ s = labelled stop labels numbers' ++ t ↔
        numbers = numbers' ∧ s = t := ih (by simpa using hlen) (by simpa using hlen')
    simp only [labelled, List.zip_cons_cons, List.flatMap_cons, List.append_assoc,
      List.append_cancel_left_eq, List.cons_append, List.nil_append] at hrest ⊢
    rw [append_stop_inj (notMem_decimal (.inl hstop) n) (notMem_decimal (.inl hstop) m),
      decimal_injective, hrest, List.cons.injEq, and_assoc]

end PMTester.Text
