import GraphqlOrmBackup.Interaction.Within

/-!
# Simulation of programs

`Simulates H' H S P p' p`: from related states, whatever `p'` returns in its
environment `p` can return in its own, in states that are related again.  The
rules follow the syntax of the programs, so that two programs that differ in
some of their parts are related by relating these parts.

A part that only reads may be cut into several calls.  It `Yields` a value when
it can return nothing else, unless a call fails, and is then related to the one
call that reads everything at once.
-/

namespace Interaction

section Simulates

variable {C C' : Type} {R : C → Type} {R' : C' → Type} {α β ε σ σ' : Type}

/-- A run of a sequence is a run of its first part and one of the rest. -/
theorem Returns.cases_bind {H : (c : C) → σ → R c → σ → Prop} {p : Prog R α} {f : α → Prog R β}
    {s s' : σ} {b : β} (h : Returns H s (p.bind f) b s') :
    ∃ a s₁, Returns H s p a s₁ ∧ Returns H s₁ (f a) b s' := by
  induction p generalizing s with
  | ret a => exact ⟨a, s, Reaches.refl _ _, h⟩
  | call c next ih =>
    rcases Reaches.cases_call h with ⟨-, heq⟩ | ⟨r, s₁, hcall, hrest⟩
    · cases heq
    · obtain ⟨a, s₂, hfirst, hsecond⟩ := ih r hrest
      exact ⟨a, s₂, Reaches.head hcall hfirst, hsecond⟩

variable (H' : (c : C') → σ' → R' c → σ' → Prop) (H : (c : C) → σ → R c → σ → Prop)
  (S : σ' → σ → Prop)

def Simulates (P : α → Prop) (p' : Prog R' α) (p : Prog R α) : Prop :=
  ∀ s' s a s₁', S s' s → Returns H' s' p' a s₁' → P a ∧ ∃ s₁, Returns H s p a s₁ ∧ S s₁' s₁

variable {H' H S} {P : α → Prop} {Q : β → Prop}

theorem simulates_ret {a : α} (h : P a) : Simulates H' H S P (.ret a) (.ret a) := by
  intro s' s b s₁' hs hret
  obtain ⟨rfl, heq⟩ := Reaches.cases_ret hret
  cases heq
  exact ⟨h, s, Reaches.refl _ _, hs⟩

theorem Simulates.bind {p' : Prog R' α} {p : Prog R α} {f' : α → Prog R' β} {f : α → Prog R β}
    (h : Simulates H' H S P p' p) (hf : ∀ a, P a → Simulates H' H S Q (f' a) (f a)) :
    Simulates H' H S Q (p'.bind f') (p.bind f) := by
  intro s' s b s₂' hs hret
  obtain ⟨a, s₁', hfirst, hsecond⟩ := hret.cases_bind
  obtain ⟨ha, s₁, hfirst', hs₁⟩ := h s' s a s₁' hs hfirst
  obtain ⟨hb, s₂, hsecond', hs₂⟩ := hf a ha s₁' s₁ b s₂' hs₁ hsecond
  exact ⟨hb, s₂, hfirst'.bind hsecond', hs₂⟩

/-- A call that both programs make. -/
theorem simulates_perform {H' : (c : C) → σ' → R c → σ' → Prop} {c : C} {P : R c → Prop}
    (hP : ∀ r, P r) (h : ∀ s' s r s₁', S s' s → H' c s' r s₁' → ∃ s₁, H c s r s₁ ∧ S s₁' s₁) :
    Simulates H' H S P (.perform c) (.perform c) := by
  intro s' s r s₁' hs hret
  rcases Reaches.cases_call hret with ⟨-, heq⟩ | ⟨r', s₂', hcall, hrest⟩
  · cases heq
  · obtain ⟨rfl, heq⟩ := Reaches.cases_ret hrest
    cases heq
    obtain ⟨s₁, hcall', hs₁⟩ := h s' s _ _ hs hcall
    exact ⟨hP _, s₁, Reaches.head hcall' (Reaches.refl _ _), hs₁⟩

/-! ### Fallible programs -/

variable (H' H S)

/-- The results, not the errors, satisfy `P`. -/
def SimulatesE (P : α → Prop) (x' : Fallible R' ε α) (x : Fallible R ε α) : Prop :=
  Simulates H' H S (fun r => ∀ a, r = .ok a → P a) x'.run x.run

variable {H' H S}

theorem simulatesE_ofExcept {r : Except ε α} :
    SimulatesE H' H S (fun a => r = .ok a) (Fallible.ofExcept r) (Fallible.ofExcept r) :=
  simulates_ret fun _ h => h

theorem simulatesE_pure {a : α} (h : P a) :
    SimulatesE (ε := ε) H' H S P (pure a) (pure a) := by
  refine simulates_ret ?_
  rintro _ ⟨⟩
  exact h

theorem simulatesE_throw {e : ε} :
    SimulatesE H' H S P (throw e : Fallible R' ε α) (throw e : Fallible R ε α) := by
  refine simulates_ret ?_
  rintro _ ⟨⟩

theorem SimulatesE.bind {x' : Fallible R' ε α} {x : Fallible R ε α} {f' : α → Fallible R' ε β}
    {f : α → Fallible R ε β} (h : SimulatesE H' H S P x' x)
    (hf : ∀ a, P a → SimulatesE H' H S Q (f' a) (f a)) :
    SimulatesE H' H S Q (x' >>= f') (x >>= f) := by
  refine Simulates.bind h fun r hr => ?_
  cases r with
  | ok a => exact hf a (hr a rfl)
  | error e => exact simulates_ret nofun

theorem SimulatesE.mapM' {γ : Type} {f' : γ → Fallible R' ε α} {f : γ → Fallible R ε α}
    (l : List γ) (h : ∀ x ∈ l, SimulatesE H' H S (fun _ => True) (f' x) (f x)) :
    SimulatesE H' H S (fun _ => True) (l.mapM' f') (l.mapM' f) := by
  induction l with
  | nil => exact simulatesE_pure trivial
  | cons x l ih =>
    rw [List.forall_mem_cons] at h
    rw [List.mapM'_cons, List.mapM'_cons]
    exact h.1.bind fun a _ => (ih h.2).bind fun as _ => simulatesE_pure trivial

end Simulates

/-! ## Programs with one outcome -/

section Yields

variable {C : Type} {R : C → Type} {α β ε σ σ' : Type} (A : (c : C) → R c → Prop) (K : C → Prop)
  (E : ε → Prop)

/-- As long as the responses satisfy `A`, the calls are of the kind `K`, and the
    program returns `r` or an error with which a call can fail. -/
def Yields (x : Fallible R ε α) (r : Except ε α) : Prop :=
  x.run.Within A K fun r' => r' = r ∨ ∃ e, E e ∧ r' = .error e

variable {A K E}

theorem yields_ofExcept (r : Except ε α) : Yields A K E (Fallible.ofExcept r) r := Or.inl rfl

theorem yields_pure (a : α) : Yields A K E (pure a) (pure a) := Or.inl rfl

theorem Yields.bind {x : Fallible R ε α} {f : α → Fallible R ε β} {r : Except ε α}
    {g : α → Except ε β} (h : Yields A K E x r) (hf : ∀ a, r = .ok a → Yields A K E (f a) (g a)) :
    Yields A K E (x >>= f) (r >>= g) := by
  refine Prog.Within.bind h fun r' hr' => ?_
  rcases hr' with rfl | ⟨e, he, rfl⟩
  · cases r' with
    | ok a => exact hf a rfl
    | error e => exact Or.inl rfl
  · exact Or.inr ⟨e, he, rfl⟩

/-- A first part that succeeds. -/
theorem Yields.bind_ok {x : Fallible R ε α} {f : α → Fallible R ε β} {a : α} {r : Except ε β}
    (h : Yields A K E x (.ok a)) (hf : Yields A K E (f a) r) : Yields A K E (x >>= f) r := by
  have hbind : Yields A K E (x >>= f) (Except.ok a >>= fun _ => r) :=
    h.bind fun a' ha' => Except.ok.inj ha' ▸ hf
  exact hbind

theorem Yields.mapM' {γ : Type} {f : γ → Fallible R ε α} {g : γ → Except ε α} (l : List γ)
    (h : ∀ x ∈ l, Yields A K E (f x) (g x)) : Yields A K E (l.mapM' f) (l.mapM' g) := by
  induction l with
  | nil => exact yields_pure []
  | cons x l ih =>
    rw [List.forall_mem_cons] at h
    rw [List.mapM'_cons, List.mapM'_cons]
    exact h.1.bind fun a _ => (ih h.2).bind fun as _ => yields_pure _

theorem Yields.forM {γ : Type} {f : γ → Fallible R ε PUnit} (l : List γ)
    (h : ∀ x ∈ l, Yields A K E (f x) (.ok PUnit.unit)) :
    Yields A K E (forM l f : Fallible R ε PUnit) (.ok PUnit.unit) := by
  induction l with
  | nil => exact yields_pure PUnit.unit
  | cons x l ih =>
    rw [List.forall_mem_cons] at h
    rw [List.forM_cons]
    exact h.1.bind_ok (ih h.2)

/-- Concurrent checks that all succeed, under every schedule. -/
theorem yields_checks {n : Nat} {sched : List Poll} {tasks : List (Fallible R ε PUnit)}
    (h : ∀ x ∈ tasks, Yields A K E x (.ok PUnit.unit)) :
    Yields A K E (do let _ ← tryCollect n sched (tasks.map (·.run)); pure PUnit.unit)
      (.ok PUnit.unit) := by
  have htasks : ∀ t ∈ tasks.map (·.run), t.Within A K fun r =>
      r = .ok PUnit.unit ∨ ∃ e, E e ∧ r = .error e := List.forall_mem_map.mpr h
  refine Prog.Within.bind (within_pooled htasks) fun r hr => ?_
  cases r with
  | ok as => exact Or.inl rfl
  | error e =>
    rcases hr with heq | ⟨e', he', heq⟩
    · cases heq
    · cases heq
      exact Or.inr ⟨e, he', rfl⟩

/-- A part in several calls simulates one that returns the same in one call. -/
theorem Yields.simulates {C₀ : Type} {R₀ : C₀ → Type} {H' : (c : C) → σ' → R c → σ' → Prop}
    {H : (c : C₀) → σ → R₀ c → σ → Prop} {S : σ' → σ → Prop} {x' : Fallible R ε α}
    {x : Fallible R₀ ε α} {r : Except ε α} (h : Yields A K E x' r)
    (hA : ∀ c s' s r s₁', S s' s → H' c s' r s₁' → A c r)
    (hK : ∀ c s' s r s₁', K c → S s' s → H' c s' r s₁' → S s₁' s)
    (hret : ∀ s' s, S s' s → Returns H s x.run r s)
    (hfail : ∀ s' s e, S s' s → E e → Returns H s x.run (.error e) s) :
    SimulatesE H' H S (fun a => r = .ok a) x' x := by
  intro s' s a s₁' hs hrun
  have hframe := h.wp (I := fun t => S t s) (fun c t r t' ht hcall => hA c t s r t' ht hcall)
    (fun c t r t' hc ht hcall => hK c t s r t' hc ht hcall) hs
  have hend := (Reaches.wp hrun hframe : S s₁' s ∧ _)
  rcases hend with ⟨hs₁, rfl | ⟨e, he, rfl⟩⟩
  · exact ⟨fun _ heq => heq, s, hret s' s hs, hs₁⟩
  · exact ⟨nofun, s, hfail s' s e hs he, hs₁⟩

end Yields

end Interaction
