import GraphqlOrmBackup.Interaction.Prog

/-!
# Fallible interaction programs

Programs that may stop with an error, as `ExceptT ε (Prog R)`, so that they can
be written in `do` notation.  `wpE` is `wp` with one postcondition for results
and one for errors; its rules follow the syntax of a program.
-/

namespace Interaction

variable {C : Type} {R : C → Type} {α β ε σ : Type}

/-- A program that returns a value or stops with an error. -/
abbrev Fallible (R : C → Type) (ε α : Type) := ExceptT ε (Prog R) α

/-- Run a fallible program to its end and hand its outcome on as a value. -/
def Fallible.attempt (x : Fallible R ε α) : Fallible R ε (Except ε α) :=
  ExceptT.mk (Prog.bind x.run fun r => .ret (.ok r))

/-- The outcome of a computation that performs no call. -/
def Fallible.ofExcept (r : Except ε α) : Fallible R ε α := ExceptT.mk (.ret r)

variable (H : (c : C) → σ → R c → σ → Prop) (I : σ → Prop)

/-- One assertion for results and one for errors. -/
def outcome (P : α → σ → Prop) (E : ε → σ → Prop) : Except ε α → σ → Prop
  | .ok a, s => P a s
  | .error e, s => E e s

@[simp] theorem outcome_ok {P : α → σ → Prop} {E : ε → σ → Prop} {a : α} {s : σ} :
    outcome P E (.ok a) s ↔ P a s := Iff.rfl

/-- Weakest precondition of a fallible program. -/
def wpE (x : Fallible R ε α) (P : α → σ → Prop) (E : ε → σ → Prop) (s : σ) : Prop :=
  wp H I x.run (outcome P E) s

variable {H I} {P : α → σ → Prop} {E : ε → σ → Prop} {s : σ}

theorem wpE.mono {P' : α → σ → Prop} {E' : ε → σ → Prop} {x : Fallible R ε α}
    (h : wpE H I x P E s) (hP : ∀ a s, I s → P a s → P' a s)
    (hE : ∀ e s, I s → E e s → E' e s) : wpE H I x P' E' s := by
  apply wp.mono h (fun _ hs => hs)
  intro r s' hI hr
  cases r with
  | ok a => exact hP a s' hI hr
  | error e => exact hE e s' hI hr

/-- Under a weaker crash condition the stronger one is kept as a fact. -/
theorem wpE.relax {J : σ → Prop} {E' : ε → σ → Prop} {x : Fallible R ε α}
    (h : wpE H I x P E s) (hJ : ∀ s, I s → J s) (hE : ∀ e s, I s → E e s → E' e s) :
    wpE H J x (fun a s => I s ∧ P a s) E' s := by
  apply wp.mono h hJ
  intro r s' hI hr
  cases r with
  | ok a => exact ⟨hI, hr⟩
  | error e => exact hE e s' hI hr

theorem wpE.and {J : σ → Prop} {P' : α → σ → Prop} {E' : ε → σ → Prop} {x : Fallible R ε α}
    (h : wpE H I x P E s) (h' : wpE H J x P' E' s) :
    wpE H (fun s => I s ∧ J s) x (fun a s => P a s ∧ P' a s) (fun e s => E e s ∧ E' e s) s := by
  apply wp.mono (wp.and h h') (fun _ hs => hs)
  intro r s' _ hr
  cases r with
  | ok a => exact hr
  | error e => exact hr

theorem wpE_ofExcept {r : Except ε α} :
    wpE H I (Fallible.ofExcept r : Fallible R ε α) P E s ↔ I s ∧ outcome P E r s := Iff.rfl

/-- Sequencing: an error of the first part is an error of the whole. -/
theorem wpE.bind {P' : β → σ → Prop} {x : Fallible R ε α} {f : α → Fallible R ε β}
    (h : wpE H I x (fun a s => wpE H I (f a) P' E s) E s) : wpE H I (x >>= f) P' E s := by
  refine wp.bind (wp.mono h (fun _ hs => hs) ?_)
  intro r s' hI hr
  cases r with
  | ok a => exact hr
  | error e => exact ⟨hI, hr⟩

/-- Sequencing with an intermediate assertion. -/
theorem wpE.seq {P' : β → σ → Prop} {x : Fallible R ε α} {f : α → Fallible R ε β}
    (hx : wpE H I x P E s) (hf : ∀ a s, I s → P a s → wpE H I (f a) P' E s) :
    wpE H I (x >>= f) P' E s :=
  wpE.bind (hx.mono hf fun _ _ _ h => h)

theorem wpE_attempt {x : Fallible R ε α} {P : Except ε α → σ → Prop}
    (h : wpE H I x (fun a s => P (.ok a) s) (fun e s => P (.error e) s) s) :
    wpE H I x.attempt P E s := by
  refine wp.bind (wp.mono h (fun _ hs => hs) ?_)
  intro r s' hI hr
  cases r with
  | ok a => exact ⟨hI, hr⟩
  | error e => exact ⟨hI, hr⟩

/-- A loop without a result keeps what every round keeps. -/
theorem wpE_forM {γ : Type} {P : List γ → σ → Prop} {f : γ → Fallible R ε PUnit}
    (l : List γ) (hP : P l s) (hI : I s)
    (hbody : ∀ x rest s, (∃ pre, pre ++ x :: rest = l) → I s → P (x :: rest) s →
      wpE H I (f x) (fun _ s => P rest s) E s) :
    wpE H I (forM l f) (fun _ s => P [] s) E s := by
  induction l generalizing s with
  | nil => exact ⟨hI, hP⟩
  | cons x rest ih =>
    rw [List.forM_cons]
    apply wpE.seq (hbody x rest s ⟨[], rfl⟩ hI hP)
    intro _ s' hI' hP'
    apply ih hP' hI'
    rintro y rest' s'' ⟨pre, hpre⟩
    exact hbody y rest' s'' ⟨x :: pre, by rw [List.cons_append, hpre]⟩

/-- A loop that collects results: `P done rest s` relates the results so far,
    the items to come and the state. -/
theorem wpE_mapM' {γ : Type} {P : List α → List γ → σ → Prop} {f : γ → Fallible R ε α}
    (l : List γ) (done : List α) (hP : P done l s) (hI : I s)
    (hbody : ∀ x done rest s, (∃ pre, pre ++ x :: rest = l) → I s → P done (x :: rest) s →
      wpE H I (f x) (fun a s => P (done ++ [a]) rest s) E s) :
    wpE H I (l.mapM' f) (fun as s => P (done ++ as) [] s) E s := by
  induction l generalizing s done with
  | nil => exact ⟨hI, by simpa using hP⟩
  | cons x rest ih =>
    rw [List.mapM'_cons]
    apply wpE.seq (hbody x done rest s ⟨[], rfl⟩ hI hP)
    intro a s' hI' hP'
    have hrest := ih (done ++ [a]) hP' hI' (by
      rintro y done' rest' s'' ⟨pre, hpre⟩
      exact hbody y done' rest' s'' ⟨x :: pre, by rw [List.cons_append, hpre]⟩)
    apply wpE.seq hrest
    intro as s'' hI'' hP''
    exact ⟨hI'', by simpa using hP''⟩

/-! ## Runs that exist -/

/-- Runs one after the other. -/
theorem Fallible.returns_bind {s s₁ s₂ : σ} {x : Fallible R ε α} {f : α → Fallible R ε β} {a : α}
    {r : Except ε β} (hx : Returns H s x.run (.ok a) s₁) (hf : Returns H s₁ (f a).run r s₂) :
    Returns H s (x >>= f).run r s₂ :=
  Returns.bind hx hf

theorem Fallible.returns_ofExcept {s : σ} {a : α} {r : Except ε α} (h : r = .ok a) :
    Returns H s (Fallible.ofExcept r : Fallible R ε α).run (.ok a) s :=
  h ▸ Reaches.refl _ _

theorem Fallible.returns_attempt {s s' : σ} {x : Fallible R ε α} {r : Except ε α}
    (h : Returns H s x.run r s') : Returns H s x.attempt.run (.ok r) s' :=
  Returns.bind h (Reaches.refl _ _)

theorem Fallible.uses_bind {K : C → Prop} {x : Fallible R ε α} {f : α → Fallible R ε β}
    (hx : x.run.Uses K) (hf : ∀ a, (f a).run.Uses K) : (x >>= f).run.Uses K := by
  refine hx.bind fun r => ?_
  cases r with
  | ok a => exact hf a
  | error e => trivial

theorem Fallible.uses_mapM' {γ : Type} {K : C → Prop} {f : γ → Fallible R ε α}
    (hf : ∀ x, (f x).run.Uses K) (l : List γ) : (l.mapM' f).run.Uses K := by
  induction l with
  | nil => trivial
  | cons x l ih =>
    rw [List.mapM'_cons]
    exact uses_bind (hf x) fun a => uses_bind ih fun as => trivial

end Interaction
