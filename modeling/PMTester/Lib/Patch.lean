import Mathlib.Logic.Nontrivial.Basic
import Mathlib.Data.List.GetD
import PMTester.Lib.Memory

/-!
Writes as partial maps. A patch says what a write puts where; applying it changes
a total map there and leaves the rest alone. `last` is what a list of patches
leaves behind, and a further patch makes no difference, whatever was there
before them, exactly when it repeats what they leave.
-/
namespace PMTester.Patch

variable {α β : Type}

def apply (p : α → Option β) (m : α → β) : α → β := fun a => (p a).getD (m a)

def applyAll (ps : List (α → Option β)) (m : α → β) : α → β := ps.foldl (fun m p => apply p m) m

/-- What the last patch to reach a place puts there. -/
def last (ps : List (α → Option β)) (a : α) : Option β := (ps.filterMap (· a)).getLast?

/-- Everything the patch puts somewhere is what the list leaves there. -/
def Repeats (ps : List (α → Option β)) (p : α → Option β) : Prop :=
  ∀ a b, p a = some b → last ps a = some b

/-- The patch that changes nothing. -/
def skip : α → Option β := fun _ => none

@[simp] theorem apply_skip (m : α → β) : apply skip m = m := rfl

theorem applyAll_append (ps : List (α → Option β)) (p : α → Option β) (m : α → β) :
    applyAll (ps ++ [p]) m = apply p (applyAll ps m) := by
  simp [applyAll]

theorem applyAll_apply (ps : List (α → Option β)) (m : α → β) (a : α) :
    applyAll ps m a = (last ps a).getD (m a) := by
  induction ps using List.reverseRecOn with
  | nil => rfl
  | append_singleton ps p ih =>
    rw [applyAll_append, apply, ih]
    cases h : p a <;> simp [last, h]

theorem last_append_self (ps : List (α → Option β)) (p : α → Option β) (a : α) (b : β)
    (h : p a = some b) : last (ps ++ [p]) a = some b := by
  simp [last, h]

/-- A list of patches repeats its last one. -/
theorem repeats_last (ps : List (α → Option β)) (p : α → Option β) : Repeats (ps ++ [p]) p := by
  intro a b h
  exact last_append_self ps p a b h

theorem apply_of_repeats {ps : List (α → Option β)} {p : α → Option β} (h : Repeats ps p)
    (m : α → β) : apply p (applyAll ps m) = applyAll ps m := by
  funext a
  cases hp : p a with
  | none => simp [apply, hp]
  | some b => simp [apply, hp, applyAll_apply, h a b hp]

/-- A patch makes no difference to what a list leaves exactly when the list repeats it. -/
theorem apply_eq_iff [Nontrivial β] (ps : List (α → Option β)) (p : α → Option β) :
    (∀ m, apply p (applyAll ps m) = applyAll ps m) ↔ Repeats ps p := by
  constructor
  · intro h a b hp
    obtain ⟨other, hother⟩ := exists_ne b
    have ha := congrFun (h fun _ => other) a
    rw [apply, hp, applyAll_apply, Option.getD_some] at ha
    cases hlast : last ps a with
    | none =>
      rw [hlast] at ha
      exact absurd ha.symm hother
    | some b' =>
      rw [hlast] at ha
      rw [ha, Option.getD_some]
  · intro h m
    exact apply_of_repeats h m

/-- Some patch of the list puts something there. -/
def Reached (ps : List (α → Option β)) (a : α) : Prop := ∃ p ∈ ps, p a ≠ none

theorem last_eq_none_iff (ps : List (α → Option β)) (a : α) : last ps a = none ↔ ¬ Reached ps a := by
  simp [last, Reached]

/-- What was patched before cannot be seen behind a list exactly when the list reaches all of it. -/
theorem applyAll_absorbs_iff [Nontrivial β] (qs ps : List (α → Option β)) :
    (∀ m, applyAll ps (applyAll qs m) = applyAll ps m) ↔ ∀ a, Reached qs a → Reached ps a := by
  constructor
  · intro h a hq
    by_contra hp
    cases hlast : last qs a with
    | none => exact (last_eq_none_iff qs a).mp hlast hq
    | some b =>
      obtain ⟨other, hother⟩ := exists_ne b
      have ha := congrFun (h fun _ => other) a
      rw [applyAll_apply, applyAll_apply, applyAll_apply, (last_eq_none_iff ps a).mpr hp, hlast] at ha
      exact hother ha.symm
  · intro h m
    funext a
    rw [applyAll_apply, applyAll_apply, applyAll_apply]
    cases hlast : last ps a with
    | some b => rfl
    | none =>
      have hq := mt (h a) ((last_eq_none_iff ps a).mp hlast)
      rw [(last_eq_none_iff qs a).mpr hq]
      rfl

/-- A block of consecutive cells, around the end of the address space. -/
def block (size address : Nat) (cells : List β) : Nat → Option β :=
  fun a => if a < size then cells[(a + (size - address % size)) % size]? else none

theorem block_first (size address : Nat) (hsize : 0 < size) (b : β) (cells : List β) :
    block size address (b :: cells) (address % size) = some b := by
  have hlt := Nat.mod_lt address hsize
  have hround : (address % size + (size - address % size)) % size = 0 := by
    rw [Nat.add_sub_cancel' (by omega), Nat.mod_self]
  rw [block, if_pos hlt, hround, List.getElem?_cons_zero]

end PMTester.Patch
