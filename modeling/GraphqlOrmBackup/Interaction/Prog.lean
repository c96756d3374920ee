import Mathlib.Logic.Relation

/-!
# Interaction programs

A program that performs calls on an environment and continues with the
responses.  The environment is a relation on its states, so that a call may
have several outcomes, and a program may be stopped between any two calls.

`Reaches` is the small-step semantics and `wp` a weakest precondition with a
second assertion, the *crash condition*, that has to hold in every state in
which the program can stop.  `Reaches.wp` connects the two.
-/

namespace Interaction

/-- A program over calls `c : C` with responses of type `R c`. -/
inductive Prog {C : Type} (R : C → Type) (α : Type) where
  | ret (value : α)
  | call (c : C) (next : R c → Prog R α)

variable {C : Type} {R : C → Type} {α β ε σ : Type}

namespace Prog

def bind : Prog R α → (α → Prog R β) → Prog R β
  | .ret value, f => f value
  | .call c next, f => .call c fun r => (next r).bind f

instance : Monad (Prog R) where
  pure := .ret
  bind := bind

/-- The program that performs one call and returns its response. -/
def perform (c : C) : Prog R (R c) := .call c .ret

@[simp] theorem call_bind (c : C) (next : R c → Prog R α) (f : α → Prog R β) :
    (Prog.call c next).bind f = .call c fun r => (next r).bind f := rfl

end Prog

/-! ## Small steps -/

section Semantics

variable (H : (c : C) → σ → R c → σ → Prop)

/-- One call: the environment moves from `s` to `s'` and answers `r`. -/
inductive Step : σ × Prog R α → σ × Prog R α → Prop where
  | call {c : C} {next : R c → Prog R α} {s s' : σ} {r : R c} (h : H c s r s') :
      Step (s, .call c next) (s', next r)

/-- `Reaches H s p s' p'`: started in `s`, the program `p` can be stopped in
    `s'` with `p'` left to run. -/
def Reaches (s : σ) (p : Prog R α) (s' : σ) (p' : Prog R α) : Prop :=
  Relation.ReflTransGen (Step H) (s, p) (s', p')

/-- `Returns H s p a s'`: started in `s`, the program `p` can return `a` in
    the state `s'`. -/
def Returns (s : σ) (p : Prog R α) (a : α) (s' : σ) : Prop :=
  Reaches H s p s' (.ret a)

variable {H}

theorem Reaches.refl (s : σ) (p : Prog R α) : Reaches H s p s p :=
  Relation.ReflTransGen.refl

theorem Reaches.head {c : C} {next : R c → Prog R α} {s s₁ s' : σ} {r : R c}
    {p' : Prog R α} (h : H c s r s₁) (hrest : Reaches H s₁ (next r) s' p') :
    Reaches H s (.call c next) s' p' :=
  Relation.ReflTransGen.head (Step.call h) hrest

theorem Reaches.trans {s s₁ s₂ : σ} {p p₁ p₂ : Prog R α}
    (h : Reaches H s p s₁ p₁) (h' : Reaches H s₁ p₁ s₂ p₂) : Reaches H s p s₂ p₂ :=
  Relation.ReflTransGen.trans h h'

/-- A program at a call has not moved, or has performed that call. -/
theorem Reaches.cases_call {c : C} {next : R c → Prog R α} {s s' : σ} {p' : Prog R α}
    (h : Reaches H s (.call c next) s' p') :
    (s' = s ∧ p' = .call c next) ∨
      ∃ r s₁, H c s r s₁ ∧ Reaches H s₁ (next r) s' p' := by
  rcases Relation.ReflTransGen.cases_head h with heq | ⟨mid, hstep, hrest⟩
  · cases heq
    exact Or.inl ⟨rfl, rfl⟩
  · cases hstep with
    | call hcall => exact Or.inr ⟨_, _, hcall, hrest⟩

theorem Reaches.cases_ret {s s' : σ} {a : α} {p' : Prog R α}
    (h : Reaches H s (.ret a) s' p') : s' = s ∧ p' = .ret a := by
  rcases Relation.ReflTransGen.cases_head h with heq | ⟨mid, hstep, _⟩
  · cases heq
    exact ⟨rfl, rfl⟩
  · cases hstep

theorem Reaches.bind {s s₁ : σ} {p p₁ : Prog R α} (h : Reaches H s p s₁ p₁)
    (f : α → Prog R β) : Reaches H s (p.bind f) s₁ (p₁.bind f) := by
  induction p generalizing s with
  | ret value =>
    obtain ⟨rfl, rfl⟩ := h.cases_ret
    exact Reaches.refl _ _
  | call c next ih =>
    rcases h.cases_call with ⟨rfl, rfl⟩ | ⟨r, s₂, hcall, hrest⟩
    · exact Reaches.refl _ _
    · exact Reaches.head hcall (ih r hrest)

theorem Returns.bind {s s₁ s₂ : σ} {p : Prog R α} {f : α → Prog R β} {a : α} {b : β}
    (h : Returns H s p a s₁) (h' : Returns H s₁ (f a) b s₂) :
    Returns H s (p.bind f) b s₂ :=
  Reaches.trans (Reaches.bind h f) h'

/-- An environment that can do more has more runs. -/
theorem Reaches.weaken {H' : (c : C) → σ → R c → σ → Prop}
    (hH : ∀ c s r s', H c s r s' → H' c s r s') {s s' : σ} {p p' : Prog R α}
    (h : Reaches H s p s' p') : Reaches H' s p s' p' := by
  refine Relation.ReflTransGen.mono (fun _ _ hstep => ?_) _ _ h
  cases hstep with
  | call hcall => exact .call (hH _ _ _ _ hcall)

/-! ## Weakest preconditions with a crash condition -/

variable (H)

/-- `wp H I p Q s`: in every run of `p` from `s`, `I` holds in each state in
    which the run can be stopped, and `Q` holds of the result and the state in
    which it returns. -/
def wp (I : σ → Prop) : Prog R α → (α → σ → Prop) → σ → Prop
  | .ret a, Q, s => I s ∧ Q a s
  | .call c next, Q, s => I s ∧ ∀ r s', H c s r s' → wp I (next r) Q s'

variable {H} {I J : σ → Prop}

theorem wp.now {p : Prog R α} {Q : α → σ → Prop} {s : σ} (h : wp H I p Q s) : I s := by
  cases p with
  | ret value => exact h.1
  | call c next => exact h.1

theorem wp.mono {p : Prog R α} {Q Q' : α → σ → Prop} {s : σ} (h : wp H I p Q s)
    (hI : ∀ s, I s → J s) (hQ : ∀ a s, I s → Q a s → Q' a s) : wp H J p Q' s := by
  induction p generalizing s with
  | ret value => exact ⟨hI s h.1, hQ value s h.1 h.2⟩
  | call c next ih => exact ⟨hI s h.1, fun r s' hcall => ih r (h.2 r s' hcall)⟩

theorem wp_true (H : (c : C) → σ → R c → σ → Prop) (p : Prog R α) (s : σ) :
    wp H (fun _ => True) p (fun _ _ => True) s := by
  induction p generalizing s with
  | ret value => exact ⟨trivial, trivial⟩
  | call c next ih => exact ⟨trivial, fun r s' _ => ih r s'⟩

theorem wp.and {p : Prog R α} {Q Q' : α → σ → Prop} {s : σ} (h : wp H I p Q s)
    (h' : wp H J p Q' s) :
    wp H (fun s => I s ∧ J s) p (fun a s => Q a s ∧ Q' a s) s := by
  induction p generalizing s with
  | ret value => exact ⟨⟨h.1, h'.1⟩, h.2, h'.2⟩
  | call c next ih =>
    exact ⟨⟨h.1, h'.1⟩, fun r s' hcall => ih r (h.2 r s' hcall) (h'.2 r s' hcall)⟩

theorem wp.bind {p : Prog R α} {f : α → Prog R β} {Q : β → σ → Prop} {s : σ}
    (h : wp H I p (fun a s => wp H I (f a) Q s) s) : wp H I (p.bind f) Q s := by
  induction p generalizing s with
  | ret value => exact h.2
  | call c next ih => exact ⟨h.1, fun r s' hcall => ih r (h.2 r s' hcall)⟩

/-- The calls of a weaker environment are among those of a stronger one. -/
theorem wp.weaken {H' : (c : C) → σ → R c → σ → Prop}
    (hH : ∀ c s r s', H' c s r s' → H c s r s') {p : Prog R α} {Q : α → σ → Prop} {s : σ}
    (h : wp H I p Q s) : wp H' I p Q s := by
  induction p generalizing s with
  | ret value => exact h
  | call c next ih => exact ⟨h.1, fun r s' hcall => ih r (h.2 r s' (hH c s r s' hcall))⟩

/-- **Adequacy.**  What `wp` asserts holds in every reachable configuration. -/
theorem Reaches.wp {p p' : Prog R α} {Q : α → σ → Prop} {s s' : σ}
    (hreach : Reaches H s p s' p') (h : wp H I p Q s) : wp H I p' Q s' := by
  induction p generalizing s with
  | ret value =>
    obtain ⟨rfl, rfl⟩ := hreach.cases_ret
    exact h
  | call c next ih =>
    rcases hreach.cases_call with ⟨rfl, rfl⟩ | ⟨r, s₁, hcall, hrest⟩
    · exact h
    · exact ih r hrest (h.2 r s₁ hcall)

theorem Reaches.crash {p p' : Prog R α} {Q : α → σ → Prop} {s s' : σ}
    (hreach : Reaches H s p s' p') (h : Interaction.wp H I p Q s) : I s' :=
  (hreach.wp h).now

theorem Returns.post {p : Prog R α} {Q : α → σ → Prop} {s s' : σ} {a : α}
    (hret : Returns H s p a s') (h : wp H I p Q s) : Q a s' :=
  (Reaches.wp hret h).2

end Semantics

/-! ## Runs that exist -/

/-- Every call of the program is of the kind. -/
def Prog.Uses (K : C → Prop) : Prog R α → Prop
  | .ret _ => True
  | .call c next => K c ∧ ∀ r, (next r).Uses K

theorem Prog.Uses.bind {K : C → Prop} {p : Prog R α} {f : α → Prog R β} (h : p.Uses K)
    (hf : ∀ a, (f a).Uses K) : (p.bind f).Uses K := by
  induction p with
  | ret value => exact hf value
  | call c next ih => exact ⟨h.1, fun r => ih r (h.2 r)⟩

/-- A program returns if the environment answers its kind of calls. -/
theorem Prog.Uses.exists_returns {H : (c : C) → σ → R c → σ → Prop} {K : C → Prop}
    (hK : ∀ c s, K c → ∃ r s', H c s r s') {p : Prog R α} (h : p.Uses K) (s : σ) :
    ∃ a s', Returns H s p a s' := by
  induction p generalizing s with
  | ret value => exact ⟨value, s, Reaches.refl _ _⟩
  | call c next ih =>
    obtain ⟨r, s₁, hcall⟩ := hK c s h.1
    obtain ⟨a, s', hrest⟩ := ih r (h.2 r) s₁
    exact ⟨a, s', Reaches.head hcall hrest⟩

/-! ## Runs that are determined -/

theorem returns_ret_iff {H : (c : C) → σ → R c → σ → Prop} {s s' : σ} {a b : α} :
    Returns H s (.ret a : Prog R α) b s' ↔ b = a ∧ s' = s := by
  refine ⟨fun h => ?_, ?_⟩
  · obtain ⟨rfl, hret⟩ := h.cases_ret
    cases hret
    exact ⟨rfl, rfl⟩
  · rintro ⟨rfl, rfl⟩
    exact Reaches.refl _ _

/-- A call with a single answer is performed. -/
theorem returns_call_iff {H : (c : C) → σ → R c → σ → Prop} {c : C} {next : R c → Prog R α}
    {s s₁ s' : σ} {r : R c} {b : α} (h : ∀ r' s₂, H c s r' s₂ ↔ r' = r ∧ s₂ = s₁) :
    Returns H s (.call c next) b s' ↔ Returns H s₁ (next r) b s' := by
  refine ⟨fun hret => ?_, fun hret => Reaches.head ((h r s₁).mpr ⟨rfl, rfl⟩) hret⟩
  rcases Reaches.cases_call hret with ⟨-, heq⟩ | ⟨r', s₂, hcall, hrest⟩
  · cases heq
  · obtain ⟨rfl, rfl⟩ := (h r' s₂).mp hcall
    exact hrest

/-! ## Running a program against a functional environment -/

/-- The outcome of a program in an environment that answers every call. -/
def Prog.run (h : (c : C) → σ → R c × σ) : Prog R α → σ → α × σ
  | .ret a, s => (a, s)
  | .call c next, s => (next (h c s).1).run h (h c s).2

theorem Prog.returns_run {H : (c : C) → σ → R c → σ → Prop} {h : (c : C) → σ → R c × σ}
    (hH : ∀ c s, H c s (h c s).1 (h c s).2) (p : Prog R α) (s : σ) :
    Returns H s p (p.run h s).1 (p.run h s).2 := by
  induction p generalizing s with
  | ret a => exact Reaches.refl _ _
  | call c next ih => exact Reaches.head (hH c s) (ih (h c s).1 (h c s).2)

end Interaction
