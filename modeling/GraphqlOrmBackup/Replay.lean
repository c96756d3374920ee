import Mathlib.Logic.Function.Basic

/-!
# Replaying commands on independent components

A state made of components, and commands of which each acts on one component.
What a component becomes depends on its own commands and their order only, so
that two lists of commands which agree on each component have the same effect.
-/

namespace Replay

variable {ι C σ : Type} [DecidableEq ι] (component : C → ι) (act : σ → C → σ)

/-- Apply a command to its component. -/
def step (f : ι → σ) (c : C) : ι → σ := Function.update f (component c) (act (f (component c)) c)

/-- The commands of one component. -/
def commandsOf (i : ι) (l : List C) : List C := l.filter fun c => component c = i

/-- Apply the commands in order. -/
def replay (f : ι → σ) (l : List C) : ι → σ := l.foldl (step component act) f

variable {component act}

theorem step_self (f : ι → σ) (c : C) :
    step component act f c (component c) = act (f (component c)) c :=
  Function.update_self _ _ _

theorem step_of_ne (f : ι → σ) {c : C} {i : ι} (h : i ≠ component c) :
    step component act f c i = f i :=
  Function.update_of_ne h _ _

theorem replay_cons (f : ι → σ) (c : C) (l : List C) :
    replay component act f (c :: l) = replay component act (step component act f c) l := rfl

/-- **A component** is the outcome of its own commands. -/
theorem replay_apply (f : ι → σ) (l : List C) (i : ι) :
    replay component act f l i = (commandsOf component i l).foldl act (f i) := by
  induction l generalizing f with
  | nil => rfl
  | cons c l ih =>
    rw [replay_cons, ih, commandsOf, commandsOf]
    by_cases hc : component c = i
    · subst hc
      rw [step_self, List.filter_cons_of_pos (by simp), List.foldl_cons]
    · rw [step_of_ne f (Ne.symm hc), List.filter_cons_of_neg (by simpa using hc)]

/-- **Lists that agree on each component** have the same effect. -/
theorem replay_congr {l l' : List C}
    (h : ∀ i, commandsOf component i l = commandsOf component i l') (f : ι → σ) :
    replay component act f l = replay component act f l' := by
  funext i
  rw [replay_apply, replay_apply, h i]

/-! ### At most one command each -/

theorem commandsOf_of_mem {l : List C} (hnodup : (l.map component).Nodup) {c : C} (h : c ∈ l) :
    commandsOf component (component c) l = [c] := by
  induction l with
  | nil => exact absurd h List.not_mem_nil
  | cons d l ih =>
    rw [List.map_cons, List.nodup_cons] at hnodup
    rcases List.mem_cons.mp h with rfl | h
    · rw [commandsOf, List.filter_cons_of_pos (by simp), List.filter_eq_nil_iff.mpr]
      intro e he heq
      exact hnodup.1 (List.mem_map.mpr ⟨e, he, by simpa using heq⟩)
    · rw [commandsOf, List.filter_cons_of_neg, ← commandsOf, ih hnodup.2 h]
      intro heq
      exact hnodup.1 (List.mem_map.mpr ⟨c, h, (by simpa using heq : _ = _).symm⟩)

theorem replay_apply_of_mem {l : List C} (hnodup : (l.map component).Nodup) {c : C} (h : c ∈ l)
    (f : ι → σ) : replay component act f l (component c) = act (f (component c)) c := by
  rw [replay_apply, commandsOf_of_mem hnodup h]
  rfl

theorem replay_apply_of_notMem {l : List C} {i : ι} (h : i ∉ l.map component) (f : ι → σ) :
    replay component act f l i = f i := by
  have hnil : commandsOf component i l = [] :=
    List.filter_eq_nil_iff.mpr fun c hc heq => h (List.mem_map.mpr ⟨c, hc, by simpa using heq⟩)
  rw [replay_apply, hnil]
  rfl

/-- What every command establishes of its component, and keeps, holds after
    all of them. -/
theorem replay_forall {P : ι → σ → Prop} {l : List C} {f : ι → σ} (hf : ∀ i, P i (f i))
    (hact : ∀ c ∈ l, ∀ x, P (component c) x → P (component c) (act x c)) (i : ι) :
    P i (replay component act f l i) := by
  induction l generalizing f with
  | nil => exact hf i
  | cons c l ih =>
    rw [List.forall_mem_cons] at hact
    refine ih (fun j => ?_) hact.2
    by_cases hj : j = component c
    · rw [hj, step_self]
      exact hact.1 _ (hf _)
    · rw [step_of_ne f hj]
      exact hf j

end Replay
