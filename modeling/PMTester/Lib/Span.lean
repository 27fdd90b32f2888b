import Mathlib.Order.Basic

/-!
Half-open ranges of addresses, and searches whose outcome does not depend on
the order of what is searched.
-/
namespace PMTester

structure Span where
  start : Nat
  size : Nat
  deriving DecidableEq, Repr

namespace Span

def Holds (s : Span) (a : Nat) : Prop := s.start ≤ a ∧ a < s.start + s.size

instance (s : Span) (a : Nat) : Decidable (s.Holds a) := inferInstanceAs (Decidable (_ ∧ _))

/-- One range ends before the other begins. -/
def Apart (s t : Span) : Prop := s.start + s.size ≤ t.start ∨ t.start + t.size ≤ s.start

def Within (s t : Span) : Prop := t.start ≤ s.start ∧ s.start + s.size ≤ t.start + t.size

theorem Apart.symm {s t : Span} (h : s.Apart t) : t.Apart s := Or.symm h

theorem Apart.of_within {s s' t t' : Span} (h : s'.Apart t') (hs : s.Within s')
    (ht : t.Within t') : s.Apart t := by
  unfold Within at hs ht
  cases h with
  | inl h => exact Or.inl (by omega)
  | inr h => exact Or.inr (by omega)

theorem Apart.not_both {s t : Span} (h : s.Apart t) (a : Nat) (hs : s.Holds a) : ¬ t.Holds a := by
  unfold Holds at hs ⊢
  rcases h with h | h <;> omega

theorem Within.holds {s t : Span} (h : s.Within t) (a : Nat) (ha : s.Holds a) : t.Holds a := by
  unfold Within at h
  unfold Holds at ha ⊢
  omega

end Span

/-- A search that at most one element answers finds the same in every order. -/
theorem find?_of_perm {α : Type} (p : α → Bool) {l l' : List α} (hperm : l.Perm l')
    (hone : ∀ a ∈ l, ∀ b ∈ l, p a = true → p b = true → a = b) : l.find? p = l'.find? p := by
  cases hl : l.find? p with
  | none =>
    symm
    rw [List.find?_eq_none] at hl ⊢
    exact fun a ha => hl a (hperm.mem_iff.mpr ha)
  | some a =>
    have ha := List.mem_of_find?_eq_some hl
    cases hl' : l'.find? p with
    | none => exact absurd (List.find?_some hl) (List.find?_eq_none.mp hl' a (hperm.mem_iff.mp ha))
    | some b =>
      have hb := hperm.mem_iff.mpr (List.mem_of_find?_eq_some hl')
      rw [hone a ha b hb (List.find?_some hl) (List.find?_some hl')]

end PMTester
