import GraphqlOrmBackup.Interaction.Pool

/-!
# Programs that keep to a kind of calls

`Prog.Within A K Q p`: as long as the responses satisfy `A`, every call of `p`
is of the kind `K` and every result satisfies `Q`.  It follows the syntax of a
program and does not mention its state, so an invariant that every call of the
kind keeps is an invariant of the program, of a loop, and of a pool under every
schedule.
-/

namespace Interaction

variable {C : Type} {R : C → Type} {α β ε σ : Type}

def Prog.Within (A : (c : C) → R c → Prop) (K : C → Prop) (Q : α → Prop) : Prog R α → Prop
  | .ret a => Q a
  | .call c next => K c ∧ ∀ r, A c r → (next r).Within A K Q

section Rules

variable {A : (c : C) → R c → Prop} {K : C → Prop} {Q : α → Prop}

theorem Prog.Within.mono {Q' : α → Prop} {p : Prog R α} (h : p.Within A K Q)
    (hQ : ∀ a, Q a → Q' a) : p.Within A K Q' := by
  induction p with
  | ret a => exact hQ a h
  | call c next ih => exact ⟨h.1, fun r hr => ih r (h.2 r hr)⟩

theorem Prog.Within.bind {Q' : β → Prop} {p : Prog R α} {f : α → Prog R β} (h : p.Within A K Q)
    (hf : ∀ a, Q a → (f a).Within A K Q') : (p.bind f).Within A K Q' := by
  induction p with
  | ret a => exact hf a h
  | call c next ih => exact ⟨h.1, fun r hr => ih r (h.2 r hr)⟩

/-- **The frame rule.**  What every call of the kind keeps, the program keeps. -/
theorem Prog.Within.wp {H : (c : C) → σ → R c → σ → Prop} {I : σ → Prop} {p : Prog R α} {s : σ}
    (h : p.Within A K Q) (hA : ∀ c s r s', I s → H c s r s' → A c r)
    (hK : ∀ c s r s', K c → I s → H c s r s' → I s') (hs : I s) :
    wp H I p (fun a _ => Q a) s := by
  induction p generalizing s with
  | ret a => exact ⟨hs, h⟩
  | call c next ih =>
    refine ⟨hs, fun r s' hcall => ?_⟩
    exact ih r (h.2 r (hA c s r s' hs hcall)) (hK c s r s' h.1 hs hcall)

/-- A run of a program of the kind is one in any environment that answers the calls
    of the kind alike. -/
theorem Prog.Within.reaches {H H' : (c : C) → σ → R c → σ → Prop} {p p' : Prog R α} {s s' : σ}
    (h : p.Within A K Q) (hH : ∀ c s r s', K c → H c s r s' → A c r ∧ H' c s r s')
    (hrun : Reaches H s p s' p') : Reaches H' s p s' p' := by
  induction p generalizing s with
  | ret a =>
    obtain ⟨rfl, rfl⟩ := hrun.cases_ret
    exact Reaches.refl _ _
  | call c next ih =>
    rcases hrun.cases_call with ⟨rfl, rfl⟩ | ⟨r, s₁, hcall, hrest⟩
    · exact Reaches.refl _ _
    · obtain ⟨hr, hcall'⟩ := hH c s r s₁ h.1 hcall
      exact Reaches.head hcall' (ih r (h.2 r hr) hrest)

/-! ## Fallible programs -/

/-- The results, not the errors, satisfy `P`. -/
def Fallible.Within (A : (c : C) → R c → Prop) (K : C → Prop) (P : α → Prop)
    (x : Fallible R ε α) : Prop :=
  x.run.Within A K fun r => ∀ a, r = .ok a → P a

variable {P : α → Prop} {P' : β → Prop}

theorem Fallible.Within.mono {P' : α → Prop} {x : Fallible R ε α} (h : x.Within A K P)
    (hP : ∀ a, P a → P' a) : x.Within A K P' :=
  Prog.Within.mono h fun _ hr a heq => hP a (hr a heq)

theorem Fallible.within_pure {a : α} (h : P a) : (pure a : Fallible R ε α).Within A K P := by
  rintro _ ⟨⟩
  exact h

theorem Fallible.within_throw {e : ε} : (throw e : Fallible R ε α).Within A K P := by
  rintro _ ⟨⟩

theorem Fallible.within_ofExcept {r : Except ε α} (h : ∀ a, r = .ok a → P a) :
    (Fallible.ofExcept r : Fallible R ε α).Within A K P := h

theorem Fallible.within_bind {x : Fallible R ε α} {f : α → Fallible R ε β} (h : x.Within A K P)
    (hf : ∀ a, P a → (f a).Within A K P') : (x >>= f).Within A K P' := by
  refine Prog.Within.bind h fun r hr => ?_
  cases r with
  | ok a => exact hf a (hr a rfl)
  | error e => exact nofun

theorem Fallible.within_attempt {x : Fallible R ε α} (h : x.Within A K P) :
    x.attempt.Within A K (fun r => ∀ a, r = .ok a → P a) := by
  refine Prog.Within.bind h fun r hr => ?_
  rintro _ ⟨⟩
  exact hr

theorem Fallible.within_forM {γ : Type} {f : γ → Fallible R ε PUnit} (l : List γ)
    (h : ∀ x ∈ l, (f x).Within A K fun _ => True) :
    (forM l f : Fallible R ε PUnit).Within A K fun _ => True := by
  induction l with
  | nil => exact within_pure trivial
  | cons x l ih =>
    rw [List.forall_mem_cons] at h
    rw [List.forM_cons]
    exact within_bind h.1 fun _ _ => ih h.2

theorem Fallible.within_mapM' {γ : Type} {f : γ → Fallible R ε α} (l : List γ)
    (h : ∀ x ∈ l, (f x).Within A K P) :
    (l.mapM' f).Within A K fun as => ∀ a ∈ as, P a := by
  induction l with
  | nil => exact within_pure (by simp)
  | cons x l ih =>
    rw [List.forall_mem_cons] at h
    rw [List.mapM'_cons]
    refine within_bind h.1 fun a ha => within_bind (ih h.2) fun as has => within_pure ?_
    exact List.forall_mem_cons.mpr ⟨ha, has⟩

/-! ## Pools -/

variable {Q : Except ε α → Prop}

/-- What a pool returns when each of its tasks returns what satisfies `Q`. -/
def Pooled (Q : Except ε α → Prop) : Except ε (List α) → Prop
  | .ok as => ∀ a ∈ as, Q (.ok a)
  | .error e => Q (.error e)

theorem within_drain {tasks : List (Prog R (Except ε α))} {acc : List α}
    (htasks : ∀ t ∈ tasks, t.Within A K Q) (hacc : ∀ a ∈ acc, Q (.ok a)) :
    (drain tasks acc).Within A K (Pooled Q) := by
  induction tasks generalizing acc with
  | nil => exact hacc
  | cons t ts ih =>
    rw [List.forall_mem_cons] at htasks
    refine Prog.Within.bind htasks.1 fun r hr => ?_
    cases r with
    | ok a => exact ih htasks.2 (by simpa [or_imp, forall_and] using ⟨hacc, hr⟩)
    | error e => exact hr

/-- A pool keeps to what its tasks keep to, under every schedule. -/
theorem within_drive {n : Nat} {sched : List Poll} {pool : Pool R ε α}
    (hwaiting : ∀ t ∈ pool.waiting, t.Within A K Q)
    (hinflight : ∀ t ∈ pool.inflight, t.Within A K Q)
    (hcollected : ∀ a ∈ pool.collected, Q (.ok a)) :
    (Pool.drive n sched pool).Within A K (Pooled Q) := by
  induction sched generalizing pool with
  | nil =>
    refine within_drain (fun t ht => ?_) hcollected
    rcases List.mem_append.mp ht with ht | ht
    · exact hinflight t ht
    · exact hwaiting t ht
  | cons poll sched ih =>
    cases poll with
    | enter =>
      rw [Pool.drive]
      split
      · exact ih hwaiting hinflight hcollected
      · next t ts heq =>
        rw [heq, List.forall_mem_cons] at hwaiting
        split
        · refine ih hwaiting.2 (fun t' ht' => ?_) hcollected
          rcases List.mem_append.mp ht' with ht' | ht'
          · exact hinflight t' ht'
          · rw [List.mem_singleton.mp ht']
            exact hwaiting.1
        · exact ih (heq ▸ List.forall_mem_cons.mpr hwaiting) hinflight hcollected
    | advance i =>
      rw [Pool.drive]
      split
      · exact ih hwaiting hinflight hcollected
      · next c next htask =>
        have ht := hinflight _ (List.mem_of_getElem? htask)
        refine ⟨ht.1, fun r hr => ih hwaiting (fun t' ht' => ?_) hcollected⟩
        rcases List.mem_or_eq_of_mem_set ht' with ht' | rfl
        · exact hinflight t' ht'
        · exact ht.2 r hr
      · next b htask =>
        have ht := hinflight _ (List.mem_of_getElem? htask)
        refine ih hwaiting (fun t' ht' => hinflight t' (List.mem_of_mem_eraseIdx ht')) ?_
        intro a ha
        rcases List.mem_append.mp ha with ha | ha
        · exact hcollected a ha
        · rw [List.mem_singleton.mp ha]
          exact ht
      · next e htask => exact hinflight _ (List.mem_of_getElem? htask)

theorem within_pooled {n : Nat} {sched : List Poll} {tasks : List (Prog R (Except ε α))}
    (htasks : ∀ t ∈ tasks, t.Within A K Q) :
    (tryCollect n sched tasks).run.Within A K (Pooled Q) :=
  within_drive htasks (fun _ h => absurd h List.not_mem_nil) (fun _ h => absurd h List.not_mem_nil)

theorem within_tryCollect {n : Nat} {sched : List Poll} {tasks : List (Prog R (Except ε α))}
    (htasks : ∀ t ∈ tasks, t.Within A K fun r => ∀ a, r = .ok a → P a) :
    (tryCollect n sched tasks).Within A K fun as => ∀ a ∈ as, P a := by
  refine Prog.Within.mono (within_pooled htasks) ?_
  rintro _ hpooled as rfl a ha
  exact hpooled a ha a rfl

end Rules

end Interaction
