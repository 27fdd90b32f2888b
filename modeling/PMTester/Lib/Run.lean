import Mathlib.Order.Basic

/-!
Runs of a deterministic step function, and logs that only grow. `Allowed` says
that every step of a run is taken where a side condition holds; `outputs_iff`
splits a statement about all that a run puts out into its steps. `Replays` says
that what was appended to the log takes a view of the earlier state to that of
the later one: it composes, so a run replays when its steps do, and the log
then determines the view.
-/
namespace PMTester.Run

variable {σ ι ε α : Type}

/-- The side condition holds at every step, in the state in which it is taken. -/
def Allowed (step : σ → ι → σ) (ok : σ → ι → Prop) : List ι → σ → Prop
  | [], _ => True
  | i :: is, s => ok s i ∧ Allowed step ok is (step s i)

theorem allowed_of_forall (step : σ → ι → σ) (p : ι → Prop) (is : List ι) (h : ∀ i ∈ is, p i)
    (s : σ) : Allowed step (fun _ i => p i) is s := by
  induction is generalizing s with
  | nil => trivial
  | cons i is ih => exact ⟨h i (by simp), ih (fun j hj => h j (by simp [hj])) _⟩

/-- A side condition on a part of the state, when the part takes steps of its own. -/
theorem allowed_part {τ : Type} {step : σ → ι → σ} {step' : τ → ι → τ} {ok : τ → ι → Prop}
    (part : σ → τ) (hpart : ∀ s i, part (step s i) = step' (part s) i) (is : List ι) (s : σ) :
    Allowed step (fun s i => ok (part s) i) is s ↔ Allowed step' ok is (part s) := by
  induction is generalizing s with
  | nil => exact Iff.rfl
  | cons i is ih => rw [Allowed, Allowed, ih, hpart]

/-- Two side conditions that agree wherever an invariant holds allow the same runs. -/
theorem allowed_congr {step : σ → ι → σ} {ok p q : σ → ι → Prop} (inv : σ → Prop)
    (hstep : ∀ s i, inv s → ok s i → inv (step s i))
    (hpq : ∀ s i, inv s → ok s i → (p s i ↔ q s i)) (is : List ι) (s : σ) (hs : inv s)
    (hok : Allowed step ok is s) : Allowed step p is s ↔ Allowed step q is s := by
  induction is generalizing s with
  | nil => exact Iff.rfl
  | cons i is ih => rw [Allowed, Allowed, hpq s i hs hok.1, ih _ (hstep s i hs hok.1) hok.2]

theorem allowed_append {step : σ → ι → σ} {ok : σ → ι → Prop} (is js : List ι) (s : σ) :
    Allowed step ok (is ++ js) s ↔ Allowed step ok is s ∧ Allowed step ok js (is.foldl step s) := by
  induction is generalizing s with
  | nil => simp [Allowed]
  | cons i is ih => rw [List.cons_append, Allowed, Allowed, ih, List.foldl_cons, and_assoc]

theorem Allowed.and {step : σ → ι → σ} {p q : σ → ι → Prop} {is : List ι} {s : σ}
    (hp : Allowed step p is s) (hq : Allowed step q is s) :
    Allowed step (fun s i => p s i ∧ q s i) is s := by
  induction is generalizing s with
  | nil => trivial
  | cons i is ih => exact ⟨⟨hp.1, hq.1⟩, ih hp.2 hq.2⟩

theorem foldl_part {τ : Type} {step : σ → ι → σ} {step' : τ → ι → τ} (part : σ → τ)
    (hpart : ∀ s i, part (step s i) = step' (part s) i) (is : List ι) (s : σ) :
    part (is.foldl step s) = is.foldl step' (part s) := by
  induction is generalizing s with
  | nil => rfl
  | cons i is ih => rw [List.foldl_cons, List.foldl_cons, ih, hpart]

/-- A run keeps what its allowed steps keep. -/
theorem invariant {step : σ → ι → σ} {ok : σ → ι → Prop} (inv : σ → Prop)
    (hstep : ∀ s i, inv s → ok s i → inv (step s i)) (is : List ι) (s : σ) (hs : inv s)
    (hok : Allowed step ok is s) : inv (is.foldl step s) := by
  induction is generalizing s with
  | nil => exact hs
  | cons i is ih => exact ih _ (hstep s i hs hok.1) hok.2

/-- At every moment of a run the output is what the steps so far should add to it, exactly
when every step adds what it should. -/
theorem outputs_iff (output : σ → List ε) (expected : ι → List ε) {step : σ → ι → σ}
    {ok : σ → ι → Prop} (hok : ∀ s i, output (step s i) = output s ++ expected i ↔ ok s i)
    (is : List ι) (s : σ) :
    (∀ n, output ((is.take n).foldl step s) = output s ++ (is.take n).flatMap expected) ↔
      Allowed step ok is s := by
  induction is generalizing s with
  | nil => simp [Allowed]
  | cons i is ih =>
    simp only [Allowed, ← hok, ← ih]
    constructor
    · intro h
      have hstep : output (step s i) = output s ++ expected i := by simpa using h 1
      refine ⟨hstep, fun n => ?_⟩
      have hrest := h (n + 1)
      rw [List.take_succ_cons, List.flatMap_cons, ← List.append_assoc, ← hstep] at hrest
      exact hrest
    · rintro ⟨hstep, hrest⟩ n
      cases n with
      | zero => simp
      | succ n =>
        rw [List.take_succ_cons, List.flatMap_cons, ← List.append_assoc, ← hstep]
        exact hrest n

/-- What was appended to the log says how the view changed. -/
def Replays (log : σ → List ε) (view : σ → α) (replay : α → ε → α) (s s' : σ) : Prop :=
  ∃ es, log s' = log s ++ es ∧ es.foldl replay (view s) = view s'

section

variable {log : σ → List ε} {view : σ → α} {replay : α → ε → α} {s s' s'' : σ}

theorem Replays.same (hlog : log s' = log s) (hview : view s' = view s) :
    Replays log view replay s s' := ⟨[], by simp [hlog], hview.symm⟩

theorem Replays.push {e : ε} (hlog : log s' = log s ++ [e])
    (hview : replay (view s) e = view s') : Replays log view replay s s' := ⟨[e], hlog, hview⟩

theorem Replays.trans (h : Replays log view replay s s') (h' : Replays log view replay s' s'') :
    Replays log view replay s s'' := by
  obtain ⟨es, hlog, hview⟩ := h
  obtain ⟨es', hlog', hview'⟩ := h'
  exact ⟨es ++ es', by rw [hlog', hlog, List.append_assoc],
    by rw [List.foldl_append, hview, hview']⟩

/-- Steps that keep an invariant and replay make a run that keeps it and replays. -/
theorem replays_run {step : σ → ι → σ} (ok : σ → ι → Prop) (inv : σ → Prop)
    (hstep : ∀ s i, inv s → ok s i → inv (step s i) ∧ Replays log view replay s (step s i))
    (is : List ι) (s : σ) (hs : inv s) (hok : Allowed step ok is s) :
    inv (is.foldl step s) ∧ Replays log view replay s (is.foldl step s) := by
  refine invariant (fun t => inv t ∧ Replays log view replay s t) ?_ is s
    ⟨hs, Replays.same rfl rfl⟩ hok
  intro t i ht hi
  obtain ⟨hinv, hreplay⟩ := hstep t i ht.1 hi
  exact ⟨hinv, ht.2.trans hreplay⟩

/-- Two stretches that start alike and leave the same log end alike. -/
theorem Replays.determined {t t' : σ} (h : Replays log view replay s s')
    (ht : Replays log view replay t t') (hlog : log s = log t) (hview : view s = view t)
    (hlog' : log s' = log t') : view s' = view t' := by
  obtain ⟨es, he, hv⟩ := h
  obtain ⟨es', he', hv'⟩ := ht
  have hes : es = es' := by
    rw [he, he', hlog] at hlog'
    exact List.append_cancel_left hlog'
  rw [← hv, ← hv', hes, hview]

end

end PMTester.Run
