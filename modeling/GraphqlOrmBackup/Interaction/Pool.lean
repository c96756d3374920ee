import GraphqlOrmBackup.Interaction.Fallible
import Mathlib.Data.List.Basic

/-!
# Bounded concurrent tasks

A pool runs tasks of which at most `n` are in flight.  In each step the
executor admits the next waiting task, lets one task in flight perform the call
it is waiting for, or takes the result of one that has returned.  The first
error ends the pool: the other tasks in flight are dropped at the call they
have reached.

The executor's decisions are a list, so that a pool under a schedule is again a
sequential program, and a statement over all schedules covers every
interleaving.  When the list is used up the remaining tasks run one after the
other.
-/

namespace Interaction

variable {C : Type} {R : C → Type} {β ε σ : Type}

/-- One decision of the executor. -/
inductive Poll where
  | enter
  | advance (i : Nat)
deriving DecidableEq, Repr

structure Pool (R : C → Type) (ε β : Type) where
  waiting : List (Prog R (Except ε β))
  inflight : List (Prog R (Except ε β))
  collected : List β

/-- Run tasks one after the other up to the first error. -/
def drain : List (Prog R (Except ε β)) → List β → Prog R (Except ε (List β))
  | [], acc => .ret (.ok acc)
  | t :: ts, acc => t.bind fun
    | .ok b => drain ts (acc ++ [b])
    | .error e => .ret (.error e)

/-- The program that a schedule makes of a pool. -/
def Pool.drive (n : Nat) : List Poll → Pool R ε β → Prog R (Except ε (List β))
  | [], pool => drain (pool.inflight ++ pool.waiting) pool.collected
  | .enter :: sched, pool =>
      match pool.waiting with
      | [] => pool.drive n sched
      | t :: ts =>
          if pool.inflight.length < n then
            Pool.drive n sched ⟨ts, pool.inflight ++ [t], pool.collected⟩
          else pool.drive n sched
  | .advance i :: sched, pool =>
      match pool.inflight[i]? with
      | none => pool.drive n sched
      | some (.call c next) => .call c fun r =>
          Pool.drive n sched ⟨pool.waiting, pool.inflight.set i (next r), pool.collected⟩
      | some (.ret (.ok b)) =>
          Pool.drive n sched ⟨pool.waiting, pool.inflight.eraseIdx i, pool.collected ++ [b]⟩
      | some (.ret (.error e)) => .ret (.error e)

/-- Run `tasks` with at most `n` in flight and collect their results in the
    order of completion. -/
def tryCollect (n : Nat) (sched : List Poll) (tasks : List (Prog R (Except ε β))) :
    Fallible R ε (List β) :=
  ExceptT.mk (Pool.drive n sched ⟨tasks, [], []⟩)

/-- One step of a pool under some schedule. -/
inductive PoolStep (H : (c : C) → σ → R c → σ → Prop) (n : Nat) :
    σ × Pool R ε β → σ × Pool R ε β → Prop where
  | enter {s : σ} {t : Prog R (Except ε β)} {ws fl : List (Prog R (Except ε β))} {acc : List β}
      (hroom : fl.length < n) :
      PoolStep H n (s, ⟨t :: ws, fl, acc⟩) (s, ⟨ws, fl ++ [t], acc⟩)
  | call {s s' : σ} {ws fl : List (Prog R (Except ε β))} {acc : List β} {i : Nat} {c : C}
      {next : R c → Prog R (Except ε β)} {r : R c} (htask : fl[i]? = some (.call c next))
      (hcall : H c s r s') :
      PoolStep H n (s, ⟨ws, fl, acc⟩) (s', ⟨ws, fl.set i (next r), acc⟩)
  | collect {s : σ} {ws fl : List (Prog R (Except ε β))} {acc : List β} {i : Nat} {b : β}
      (htask : fl[i]? = some (.ret (.ok b))) :
      PoolStep H n (s, ⟨ws, fl, acc⟩) (s, ⟨ws, fl.eraseIdx i, acc ++ [b]⟩)

section Rule

variable {H : (c : C) → σ → R c → σ → Prop} {I : σ → Prop} {n : Nat}
  {J : Pool R ε β → σ → Prop} {Q : Except ε (List β) → σ → Prop}

/-- Draining a pool is a schedule of its own: always advance the first task. -/
theorem wp_drain (hn : 0 < n)
    (hinv : ∀ s pool s' pool', PoolStep H n (s, pool) (s', pool') → J pool s → J pool' s')
    (hI : ∀ pool s, J pool s → I s)
    (hend : ∀ acc s, J ⟨[], [], acc⟩ s → Q (.ok acc) s)
    (herr : ∀ ws fl acc s (i : Nat) (e : ε), J ⟨ws, fl, acc⟩ s →
      fl[i]? = some (Prog.ret (.error e)) → Q (.error e) s) :
    ∀ (m : Nat) (ws fl : List (Prog R (Except ε β))) (acc : List β) (s : σ),
      fl.length + ws.length = m → J ⟨ws, fl, acc⟩ s →
      wp H I (drain (fl ++ ws) acc) Q s := by
  intro m
  induction m with
  | zero =>
    intro ws fl acc s hm hs
    obtain rfl : fl = [] := List.eq_nil_of_length_eq_zero (by omega)
    obtain rfl : ws = [] := List.eq_nil_of_length_eq_zero (by omega)
    exact ⟨hI _ _ hs, hend acc s hs⟩
  | succ m ih =>
    -- the first task in flight, by induction on the calls it has left
    have hfirst : ∀ (t : Prog R (Except ε β)) (ws fl : List (Prog R (Except ε β)))
        (acc : List β) (s : σ), fl.length + ws.length = m → J ⟨ws, t :: fl, acc⟩ s →
        wp H I (drain (t :: fl ++ ws) acc) Q s := by
      intro t ws fl acc s hm hs
      induction t generalizing s with
      | ret value =>
        cases value with
        | ok b =>
          have hstep : PoolStep H n (s, ⟨ws, .ret (.ok b) :: fl, acc⟩) (s, ⟨ws, fl, acc ++ [b]⟩) :=
            PoolStep.collect (i := 0) rfl
          exact ih ws fl (acc ++ [b]) s hm (hinv _ _ _ _ hstep hs)
        | error e => exact ⟨hI _ _ hs, herr ws _ acc s 0 e hs rfl⟩
      | call c next iht =>
        refine ⟨hI _ _ hs, fun r s' hcall => iht r s' ?_⟩
        have hstep : PoolStep H n (s, ⟨ws, .call c next :: fl, acc⟩)
            (s', ⟨ws, next r :: fl, acc⟩) := PoolStep.call (i := 0) rfl hcall
        exact hinv _ _ _ _ hstep hs
    intro ws fl acc s hm hs
    cases fl with
    | cons t fl => exact hfirst t ws fl acc s (by simp at hm; omega) hs
    | nil =>
      cases ws with
      | nil => simp at hm
      | cons t ts =>
        exact hfirst t ts [] acc s (by simpa using hm) (hinv _ _ _ _ (PoolStep.enter hn) hs)

/-- **The pool rule.**  An invariant of the pool that implies the crash
    condition holds under every schedule. -/
theorem wp_drive (hn : 0 < n)
    (hinv : ∀ s pool s' pool', PoolStep H n (s, pool) (s', pool') → J pool s → J pool' s')
    (hI : ∀ pool s, J pool s → I s)
    (hend : ∀ acc s, J ⟨[], [], acc⟩ s → Q (.ok acc) s)
    (herr : ∀ ws fl acc s (i : Nat) (e : ε), J ⟨ws, fl, acc⟩ s →
      fl[i]? = some (Prog.ret (.error e)) → Q (.error e) s)
    (sched : List Poll) (pool : Pool R ε β) (s : σ) (hs : J pool s) :
    wp H I (pool.drive n sched) Q s := by
  induction sched generalizing pool s with
  | nil => exact wp_drain hn hinv hI hend herr _ _ _ _ s rfl hs
  | cons poll sched ih =>
    rcases pool with ⟨ws, fl, acc⟩
    cases poll with
    | enter =>
      cases ws with
      | nil => exact ih _ s hs
      | cons t ts =>
        simp only [Pool.drive]
        split
        · exact ih _ s (hinv _ _ _ _ (PoolStep.enter ‹_›) hs)
        · exact ih _ s hs
    | advance i =>
      simp only [Pool.drive]
      split
      · exact ih _ s hs
      · exact ⟨hI _ _ hs, fun r s' hcall => ih _ s' (hinv _ _ _ _ (PoolStep.call ‹_› hcall) hs)⟩
      · exact ih _ s (hinv _ _ _ _ (PoolStep.collect ‹_›) hs)
      · exact ⟨hI _ _ hs, herr ws fl acc s i _ hs ‹_›⟩

/-- Whatever steps a pool can take up to a failed task, some schedule takes. -/
theorem exists_sched {s s' : σ} {pool pool' : Pool R ε β}
    (h : Relation.ReflTransGen (PoolStep H n) (s, pool) (s', pool')) {i : Nat} {e : ε}
    (hfailed : pool'.inflight[i]? = some (.ret (.error e))) :
    ∃ sched, Returns H s (pool.drive n sched) (.error e) s' := by
  generalize hstart : (s, pool) = start at h
  generalize hstop : (s', pool') = stop at h
  induction h using Relation.ReflTransGen.head_induction_on generalizing s pool with
  | refl =>
    cases hstart
    cases hstop
    refine ⟨[.advance i], ?_⟩
    simp only [Pool.drive, hfailed]
    exact Reaches.refl _ _
  | head hstep _ ih =>
    cases hstart
    cases hstep with
    | enter hroom =>
      obtain ⟨sched, hsched⟩ := ih rfl
      exact ⟨.enter :: sched, by simpa only [Pool.drive, if_pos hroom] using hsched⟩
    | @call _ s₁ _ _ _ j _ _ _ htask hcall =>
      obtain ⟨sched, hsched⟩ := ih rfl
      refine ⟨.advance j :: sched, ?_⟩
      simp only [Pool.drive, htask]
      exact Reaches.head hcall hsched
    | @collect _ _ _ _ j _ htask =>
      obtain ⟨sched, hsched⟩ := ih rfl
      exact ⟨.advance j :: sched, by simpa only [Pool.drive, htask] using hsched⟩

/-- A run of one task is a run of the pool. -/
theorem Reaches.poolSteps {s s' : σ} {p p' : Prog R (Except ε β)} (h : Reaches H s p s' p')
    {ws fl : List (Prog R (Except ε β))} {acc : List β} {i : Nat} (htask : fl[i]? = some p) :
    Relation.ReflTransGen (PoolStep H n) (s, ⟨ws, fl, acc⟩) (s', ⟨ws, fl.set i p', acc⟩) := by
  rcases List.getElem?_eq_some_iff.mp htask with ⟨hlt, hget⟩
  induction p generalizing s fl with
  | ret value =>
    obtain ⟨rfl, rfl⟩ := h.cases_ret
    rw [← hget, List.set_getElem_self]
  | call c next ih =>
    rcases h.cases_call with ⟨rfl, rfl⟩ | ⟨r, s₁, hcall, hrest⟩
    · rw [← hget, List.set_getElem_self]
    · have htask' : (fl.set i (next r))[i]? = some (next r) := by
        rw [List.getElem?_set, if_pos rfl, if_pos hlt]
      have hrun := ih r hrest htask' (by rwa [List.length_set]) (by rw [List.getElem_set, if_pos rfl])
      rw [List.set_set] at hrun
      exact Relation.ReflTransGen.head (PoolStep.call htask hcall) hrun

end Rule

end Interaction
