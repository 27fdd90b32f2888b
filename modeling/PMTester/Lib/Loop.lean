import Mathlib.Order.Basic

/-!
Loops with an exit value. The body either leaves the loop with a result or goes
on from a new state; `loop` runs at most a given number of rounds. `Exits` says
that the loop really ends: some number of rounds is enough.
-/
namespace PMTester.Loop

variable {σ τ ρ : Type}

/-- Run the body for at most `rounds` rounds; `none` when it has not left by then. -/
def loop (body : σ → ρ ⊕ σ) : Nat → σ → Option ρ
  | 0, _ => none
  | rounds + 1, s =>
    match body s with
    | .inl r => some r
    | .inr s' => loop body rounds s'

theorem loop_done {body : σ → ρ ⊕ σ} {s : σ} {r : ρ} (h : body s = .inl r) (rounds : Nat) :
    loop body (rounds + 1) s = some r := by
  simp [loop, h]

theorem loop_next {body : σ → ρ ⊕ σ} {s s' : σ} (h : body s = .inr s') (rounds : Nat) :
    loop body (rounds + 1) s = loop body rounds s' := by
  simp [loop, h]

/-- The loop ends, with this result. -/
def Exits (body : σ → ρ ⊕ σ) (s : σ) (r : ρ) : Prop := ∃ rounds, loop body rounds s = some r

theorem Exits.done {body : σ → ρ ⊕ σ} {s : σ} {r : ρ} (h : body s = .inl r) : Exits body s r :=
  ⟨1, loop_done h 0⟩

theorem Exits.next {body : σ → ρ ⊕ σ} {s s' : σ} {r : ρ} (h : body s = .inr s')
    (hexit : Exits body s' r) : Exits body s r := by
  obtain ⟨n, hn⟩ := hexit
  exact ⟨n + 1, by rw [loop_next h, hn]⟩

/-- More rounds do not change a result. -/
theorem loop_more {body : σ → ρ ⊕ σ} {rounds : Nat} {s : σ} {r : ρ}
    (h : loop body rounds s = some r) (more : Nat) : loop body (rounds + more) s = some r := by
  induction rounds generalizing s with
  | zero => cases h
  | succ rounds ih =>
    rw [Nat.succ_add]
    cases hbody : body s with
    | inl r' => rwa [loop_done hbody] at h ⊢
    | inr s' =>
      rw [loop_next hbody] at h ⊢
      exact ih h

theorem Exits.unique {body : σ → ρ ⊕ σ} {s : σ} {r r' : ρ} (h : Exits body s r)
    (h' : Exits body s r') : r = r' := by
  obtain ⟨n, hn⟩ := h
  obtain ⟨n', hn'⟩ := h'
  have hsame := (loop_more hn n').symm.trans (Nat.add_comm n' n ▸ loop_more hn' n)
  exact Option.some.inj hsame

end PMTester.Loop
