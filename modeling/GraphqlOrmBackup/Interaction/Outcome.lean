import Mathlib.Data.List.Forall2

/-!
# Successful outcomes

When a computation in `Except` succeeds, by the syntax of the computation.
-/

namespace Interaction

variable {ε ε' α β : Type}

theorem bind_eq_ok {x : Except ε α} {f : α → Except ε β} {b : β} :
    (x >>= f) = .ok b ↔ ∃ a, x = .ok a ∧ f a = .ok b := by
  cases x with
  | error e => simp [bind, Except.bind]
  | ok a => simp [bind, Except.bind]

/-- A first part that only checks. -/
theorem bind_unit_eq_ok {x : Except ε Unit} {f : Unit → Except ε β} {b : β} :
    (x >>= f) = .ok b ↔ x = .ok () ∧ f () = .ok b := by
  cases x with
  | error e => simp [bind, Except.bind]
  | ok a => simp [bind, Except.bind]

theorem pure_eq_ok {a b : α} : (pure a : Except ε α) = .ok b ↔ a = b := by
  simp [pure, Except.pure]

theorem throw_ne_ok {e : ε} {b : α} : (throw e : Except ε α) ≠ .ok b := by
  simp [throw, throwThe, MonadExceptOf.throw]

theorem mapError_eq_ok {g : ε → ε'} {x : Except ε α} {a : α} :
    x.mapError g = .ok a ↔ x = .ok a := by
  cases x <;> simp [Except.mapError]

theorem forM_eq_ok {f : α → Except ε Unit} {l : List α} :
    forM l f = .ok () ↔ ∀ a ∈ l, f a = .ok () := by
  induction l with
  | nil => simp [pure, Except.pure]
  | cons a l ih =>
    rw [List.forM_cons, bind_unit_eq_ok, List.forall_mem_cons, ih]

theorem mapM'_eq_ok {f : α → Except ε β} {l : List α} {bs : List β} :
    l.mapM' f = .ok bs ↔ List.Forall₂ (fun a b => f a = .ok b) l bs := by
  induction l generalizing bs with
  | nil => simp [List.mapM', pure, Except.pure, eq_comm]
  | cons a l ih =>
    rw [List.mapM'_cons]
    simp only [bind_eq_ok, pure_eq_ok, ih, List.forall₂_cons_left_iff]
    constructor
    · intro h
      rcases h with ⟨b, hb, bs', hbs, rfl⟩
      exact ⟨b, bs', hb, hbs, rfl⟩
    · intro h
      rcases h with ⟨b, bs', hb, hbs, rfl⟩
      exact ⟨b, hb, bs', hbs, rfl⟩

theorem mapM'_congr {f g : α → Except ε β} {l : List α} (h : ∀ a ∈ l, f a = g a) :
    l.mapM' f = l.mapM' g := by
  induction l with
  | nil => rfl
  | cons a l ih =>
    rw [List.forall_mem_cons] at h
    rw [List.mapM'_cons, List.mapM'_cons, h.1, ih h.2]

/-- A loop that reads an item's contents and folds them in. -/
theorem foldlM_eq_ok {γ : Type} {f : α → Except ε γ} {g : β → γ → β} {l : List α} {b out : β}
    (h : l.foldlM (fun b a => do let c ← f a; pure (g b c)) b = .ok out) :
    ∃ cs, List.Forall₂ (fun a c => f a = .ok c) l cs ∧ out = cs.foldl g b := by
  induction l generalizing b with
  | nil => exact ⟨[], .nil, (Except.ok.inj h).symm⟩
  | cons a l ih =>
    rw [List.foldlM_cons, bind_eq_ok] at h
    rcases h with ⟨b', hb', h⟩
    rcases bind_eq_ok.mp hb' with ⟨c, hc, hpure⟩
    obtain rfl := Except.ok.inj hpure
    obtain ⟨cs, hcs, rfl⟩ := ih h
    exact ⟨c :: cs, .cons hc hcs, rfl⟩

/-- A loop none of whose rounds fails. -/
theorem foldlM_of_forall₂ {γ : Type} {step : β → α → Except ε β} {step' : β → γ → β} {l : List α}
    {cs : List γ} (h : List.Forall₂ (fun a c => ∀ b, step b a = .ok (step' b c)) l cs) (b : β) :
    l.foldlM step b = .ok (cs.foldl step' b) := by
  induction h generalizing b with
  | nil => rfl
  | cons hac _ ih =>
    rw [List.foldlM_cons, List.foldl_cons, hac, ← ih]
    rfl

/-! ## Related lists -/

theorem forall₂_mem_right {r : α → β → Prop} {l : List α} {l' : List β}
    (h : List.Forall₂ r l l') : ∀ b ∈ l', ∃ a ∈ l, r a b := by
  induction h with
  | nil => simp
  | cons hr _ ih =>
    rw [List.forall_mem_cons]
    refine ⟨⟨_, List.mem_cons_self, hr⟩, fun b hb => ?_⟩
    obtain ⟨a, ha, hab⟩ := ih b hb
    exact ⟨a, List.mem_cons_of_mem _ ha, hab⟩

theorem forall₂_mem_left {r : α → β → Prop} {l : List α} {l' : List β}
    (h : List.Forall₂ r l l') : ∀ a ∈ l, ∃ b ∈ l', r a b :=
  forall₂_mem_right (r := fun b a => r a b) h.flip

theorem exists_forall₂ {r : α → β → Prop} {l : List α} (h : ∀ a ∈ l, ∃ b, r a b) :
    ∃ l', List.Forall₂ r l l' := by
  induction l with
  | nil => exact ⟨[], .nil⟩
  | cons a l ih =>
    rw [List.forall_mem_cons] at h
    rcases h with ⟨⟨b, hb⟩, hrest⟩
    rcases ih hrest with ⟨l', hl'⟩
    exact ⟨b :: l', .cons hb hl'⟩

end Interaction
