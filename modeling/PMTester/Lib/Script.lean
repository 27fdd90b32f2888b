import Mathlib.Logic.Basic

/-!
Programs that ask an environment. A script gives a result, or asks a question
and goes on with the answer. An environment says which answers may come and how
its state changes with them. A protocol says which questions may come in which
phase, and in which phase they leave the program; a script that keeps to it
keeps to it whatever the answers are, and an invariant of phases and states then
needs to be shown for the protocol only.
-/
namespace PMTester

inductive Script (Q : Type) (A : Q → Type) (R : Type) where
  | ret (r : R)
  | ask (q : Q) (next : A q → Script Q A R)

namespace Script

variable {Q : Type} {A : Q → Type} {R R' σ τ φ : Type}

def bind : Script Q A R → (R → Script Q A R') → Script Q A R'
  | .ret r, f => f r
  | .ask q next, f => .ask q fun a => (next a).bind f

instance : Monad (Script Q A) where
  pure := .ret
  bind := bind

theorem bind_ret (x : Script Q A R) : x.bind .ret = x := by
  induction x with
  | ret r => rfl
  | ask q next ih =>
    rw [bind]
    congr 1
    funext a
    exact ih a

theorem bind_bind {R'' : Type} (x : Script Q A R) (f : R → Script Q A R') (g : R' → Script Q A R'') :
    (x.bind f).bind g = x.bind fun r => (f r).bind g := by
  induction x with
  | ret r => rfl
  | ask q next ih =>
    rw [bind, bind, bind]
    congr 1
    funext a
    exact ih a

instance : LawfulMonad (Script Q A) :=
  LawfulMonad.mk' _ bind_ret (fun _ _ => rfl) bind_bind

/-- One question, its answer as the result. -/
def call (q : Q) : Script Q A (A q) := .ask q .ret

/-- What the environment may do when it is asked something: its answer and its next state. -/
abbrev Env (Q : Type) (A : Q → Type) (σ : Type) := σ → (q : Q) → A q → σ → Prop

/-- What is left of a script, and the state, at some moment of a run. -/
inductive Reaches (env : Env Q A σ) : Script Q A R → σ → Script Q A R → σ → Prop
  | here (p : Script Q A R) (s : σ) : Reaches env p s p s
  | step {q : Q} {next : A q → Script Q A R} {a : A q} {s s' s'' : σ} {p : Script Q A R}
      (hstep : env s q a s') (hrest : Reaches env (next a) s' p s'') :
      Reaches env (.ask q next) s p s''

/-- In some run the script asks this question in this state. -/
def Asks (env : Env Q A σ) (p : Script Q A R) (s : σ) (q : Q) (s' : σ) : Prop :=
  ∃ next, Reaches env p s (.ask q next) s'

/-- Some run of the script ends with this result in this state. -/
def ComesTo (env : Env Q A σ) (p : Script Q A R) (s : σ) (r : R) (s' : σ) : Prop :=
  Reaches env p s (.ret r) s'

/-- A run that begins with this answer. -/
theorem asks_next {env : Env Q A σ} {q q' : Q} {next : A q → Script Q A R} {s s' : σ}
    {P : σ → Prop} (a : A q) (hstep : env s q a s')
    (hrest : ∃ s'', Asks env (next a) s' q' s'' ∧ P s'') :
    ∃ s'', Asks env (.ask q next) s q' s'' ∧ P s'' := by
  obtain ⟨s'', ⟨next', hreach⟩, hs''⟩ := hrest
  exact ⟨s'', ⟨next', .step hstep hreach⟩, hs''⟩

theorem asks_here {env : Env Q A σ} {q : Q} {next : A q → Script Q A R} {s : σ} {P : σ → Prop}
    (h : P s) : ∃ s'', Asks env (.ask q next) s q s'' ∧ P s'' :=
  ⟨s, ⟨next, .here _ _⟩, h⟩

/-- Every run ends, if it ends, in a state of the postcondition. -/
def Wp (env : Env Q A σ) (post : R → σ → Prop) : Script Q A R → σ → Prop
  | .ret r, s => post r s
  | .ask q next, s => ∀ a s', env s q a s' → Wp env post (next a) s'

section

variable {env : Env Q A σ} {post : R → σ → Prop}

@[simp] theorem wp_pure (r : R) (s : σ) : Wp env post (pure r : Script Q A R) s ↔ post r s := Iff.rfl

theorem wp_bind (x : Script Q A R') (f : R' → Script Q A R) (s : σ) :
    Wp env post (x >>= f) s ↔ Wp env (fun r s' => Wp env post (f r) s') x s := by
  change Wp env post (x.bind f) s ↔ _
  induction x generalizing s with
  | ret r => exact Iff.rfl
  | ask q next ih =>
    simp only [bind, Wp]
    apply forall_congr'
    intro a
    apply forall_congr'
    intro s'
    rw [ih a s']

theorem Wp.mono {post' : R → σ → Prop} {x : Script Q A R} {s : σ} (h : Wp env post x s)
    (hpost : ∀ r s', post r s' → post' r s') : Wp env post' x s := by
  induction x generalizing s with
  | ret r => exact hpost r s h
  | ask q next ih => exact fun a s' hstep => ih a (h a s' hstep)

theorem Wp.ends {x : Script Q A R} {s s' : σ} {r : R} (h : Wp env post x s)
    (hends : ComesTo env x s r s') : post r s' := by
  unfold ComesTo at hends
  generalize hy : (.ret r : Script Q A R) = y at hends
  induction hends with
  | here x s =>
    subst hy
    exact h
  | step hstep _ ih => exact ih (h _ _ hstep) hy

end

/-- A run to the end that begins with this answer. -/
theorem ends_next {env : Env Q A σ} {q : Q} {next : A q → Script Q A R} {r : R} {s s' : σ}
    {P : σ → Prop} (a : A q) (hstep : env s q a s')
    (hrest : ∃ s'', ComesTo env (next a) s' r s'' ∧ P s'') :
    ∃ s'', ComesTo env (.ask q next) s r s'' ∧ P s'' := by
  obtain ⟨s'', hreach, hs''⟩ := hrest
  exact ⟨s'', .step hstep hreach, hs''⟩

/-- Which questions may be asked in a phase, and the phase after an answer. -/
abbrev Protocol (Q : Type) (A : Q → Type) (φ : Type) := φ → (q : Q) → A q → φ → Prop

/-- Every question has a place in the protocol, whatever is answered, and so has the end. -/
def Follows (proto : Protocol Q A φ) (done : R → φ → Prop) : Script Q A R → φ → Prop
  | .ret r, p => done r p
  | .ask q next, p => ∀ a, ∃ p', proto p q a p' ∧ Follows proto done (next a) p'

section

variable {proto : Protocol Q A φ} {done : R → φ → Prop}

@[simp] theorem follows_pure (r : R) (p : φ) :
    Follows proto done (pure r : Script Q A R) p ↔ done r p := Iff.rfl

theorem follows_bind (x : Script Q A R') (f : R' → Script Q A R) (p : φ) :
    Follows proto done (x >>= f) p ↔
      Follows proto (fun r p' => Follows proto done (f r) p') x p := by
  change Follows proto done (x.bind f) p ↔ _
  induction x generalizing p with
  | ret r => exact Iff.rfl
  | ask q next ih =>
    simp only [bind, Follows]
    apply forall_congr'
    intro a
    apply exists_congr
    intro p'
    rw [ih a p']

theorem Follows.mono {done' : R → φ → Prop} {x : Script Q A R} {p : φ}
    (h : Follows proto done x p) (hdone : ∀ r p', done r p' → done' r p') :
    Follows proto done' x p := by
  induction x generalizing p with
  | ret r => exact hdone r p h
  | ask q next ih =>
    intro a
    obtain ⟨p', hp, hrest⟩ := h a
    exact ⟨p', hp, ih a hrest⟩

/-- What a script may ask, and what its result satisfies, whatever the answers are. -/
def Only (ok : Q → Prop) (post : R → Prop) : Script Q A R → Prop
  | .ret r => post r
  | .ask q next => ok q ∧ ∀ a, (next a).Only ok post

theorem only_pure {ok : Q → Prop} {post : R → Prop} {r : R} (h : post r) :
    (pure r : Script Q A R).Only ok post := h

theorem only_bind {ok : Q → Prop} {post' : R' → Prop} {post : R → Prop} {x : Script Q A R'}
    {f : R' → Script Q A R} (hx : x.Only ok post') (hf : ∀ r, post' r → (f r).Only ok post) :
    (x >>= f).Only ok post := by
  change (x.bind f).Only ok post
  induction x with
  | ret r => exact hf r hx
  | ask q next ih => exact ⟨hx.1, fun a => ih a (hx.2 a)⟩

theorem only_call {ok : Q → Prop} {q : Q} (hq : ok q) :
    (call q : Script Q A (A q)).Only ok fun _ => True :=
  ⟨hq, fun _ => trivial⟩

theorem Only.mono {ok ok' : Q → Prop} {post : R → Prop} {x : Script Q A R} (h : x.Only ok post)
    (hok : ∀ q, ok q → ok' q) : x.Only ok' post := by
  induction x with
  | ret r => exact h
  | ask q next ih => exact ⟨hok q h.1, fun a => ih a (h.2 a)⟩

/-- Two environments that are asked together and give one answer, which is tied to where it leaves
them. -/
def Env.both (env : Env Q A σ) (env' : Env Q A τ) (tied : (q : Q) → A q → σ × τ → Prop) :
    Env Q A (σ × τ) :=
  fun x q a x' => env x.1 q a x'.1 ∧ env' x.2 q a x'.2 ∧ tied q a x'

theorem only_any (x : Script Q A R) : x.Only (fun _ => True) fun _ => True := by
  induction x with
  | ret r => trivial
  | ask q next ih => exact ⟨trivial, ih⟩

/-- A run that another environment follows, as far as the questions of the script go. -/
theorem Only.ends {env : Env Q A σ} {env' : Env Q A τ} {ok : Q → Prop} {post : R → Prop}
    {S : σ → τ → Prop} {x : Script Q A R} {r : R} {s s' : σ} {t : τ} (hx : x.Only ok post)
    (hstep : ∀ q a s s' t, ok q → env s q a s' → S s t → ∃ t', env' t q a t' ∧ S s' t')
    (hrel : S s t) (hends : ComesTo env x s r s') :
    ∃ t', ComesTo env' x t r t' ∧ S s' t' := by
  unfold ComesTo at hends
  generalize hy : (.ret r : Script Q A R) = y at hends
  induction hends generalizing t with
  | here x s =>
    subst hy
    exact ⟨t, .here _ _, hrel⟩
  | step henv _ ih =>
    obtain ⟨t₁, henv', hrel'⟩ := hstep _ _ _ _ _ hx.1 henv hrel
    obtain ⟨t', hreach, hend⟩ := ih (hx.2 _) hrel' hy
    exact ⟨t', .step henv' hreach, hend⟩

/-- A run of two environments is a run of the second one. -/
theorem ComesTo.right {env : Env Q A σ} {env' : Env Q A τ} {tied : (q : Q) → A q → σ × τ → Prop}
    {x : Script Q A R} {r : R} {s s' : σ × τ} (h : ComesTo (env.both env' tied) x s r s') :
    ComesTo env' x s.2 r s'.2 := by
  obtain ⟨t, hends, rfl⟩ := (only_any x).ends (S := fun s t => s.2 = t)
    (fun q a s s' t _ henv hrel => ⟨s'.2, hrel ▸ henv.2.1, rfl⟩) rfl h
  exact hends

/-- Questions that leave the phase as it is can be asked in it. -/
theorem Only.follows {ok : Q → Prop} {post : R' → Prop} {x : Script Q A R'}
    {f : R' → Script Q A R} {p : φ} (hx : x.Only ok post) (hok : ∀ q a, ok q → proto p q a p)
    (hf : ∀ r, post r → Follows proto done (f r) p) : Follows proto done (x >>= f) p := by
  rw [follows_bind]
  induction x with
  | ret r => exact hf r hx
  | ask q next ih => exact fun a => ⟨p, hok q a hx.1, ih a (hx.2 a)⟩

/-- Questions that leave the state as it is. -/
theorem Only.wp {env : Env Q A σ} {post : R → σ → Prop} {ok : Q → Prop} {post' : R' → Prop}
    {x : Script Q A R'} {f : R' → Script Q A R} {s : σ} (hx : x.Only ok post')
    (hok : ∀ q a s', ok q → env s q a s' → s' = s) (hf : ∀ r, post' r → Wp env post (f r) s) :
    Wp env post (x >>= f) s := by
  rw [wp_bind]
  induction x with
  | ret r => exact hf r hx
  | ask q next ih =>
    intro a s' hstep
    rw [hok q a s' hx.1 hstep]
    exact ih a (hx.2 a)

/-- An invariant that the steps of the protocol keep holds at every moment of a run. -/
theorem Follows.invariant {env : Env Q A σ} {inv : φ → σ → Prop} {x y : Script Q A R} {p : φ}
    {s s' : σ} (h : Follows proto done x p) (hinv : inv p s)
    (hkeep : ∀ p q a p' s s', proto p q a p' → env s q a s' → inv p s → inv p' s')
    (hreach : Reaches env x s y s') : ∃ p', Follows proto done y p' ∧ inv p' s' := by
  induction hreach generalizing p with
  | here x s => exact ⟨p, h, hinv⟩
  | step hstep _ ih =>
    obtain ⟨p', hp, hrest⟩ := h _
    exact ih hrest (hkeep _ _ _ _ _ _ hp hstep hinv)

/-- What the protocol says about a question that is asked. -/
theorem Follows.asks {env : Env Q A σ} {inv : φ → σ → Prop} {x : Script Q A R} {p : φ} {q : Q}
    {s s' : σ} (h : Follows proto done x p) (hinv : inv p s)
    (hkeep : ∀ p q a p' s s', proto p q a p' → env s q a s' → inv p s → inv p' s')
    (hasks : Asks env x s q s') : ∃ p', inv p' s' ∧ ∀ a, ∃ p'', proto p' q a p'' := by
  obtain ⟨next, hreach⟩ := hasks
  obtain ⟨p', hfollows, hinv'⟩ := h.invariant hinv hkeep hreach
  exact ⟨p', hinv', fun a => (hfollows a).imp fun _ hp => hp.1⟩

/-- What the protocol says about the end of a run. -/
theorem Follows.ends {env : Env Q A σ} {inv : φ → σ → Prop} {x : Script Q A R} {p : φ} {r : R}
    {s s' : σ} (h : Follows proto done x p) (hinv : inv p s)
    (hkeep : ∀ p q a p' s s', proto p q a p' → env s q a s' → inv p s → inv p' s')
    (hends : ComesTo env x s r s') : ∃ p', inv p' s' ∧ done r p' := by
  obtain ⟨p', hdone, hinv'⟩ := h.invariant hinv hkeep hends
  exact ⟨p', hinv', hdone⟩

end

end Script

end PMTester
