import GraphqlOrmBackup.Serialization

/-!
# Crashed writers

A client that stops in its operation leaves its lock behind.  However the calls
of any number of clients have come to interleave, the lock in place holds a time
that one of them has read from the clock they share, so its age decides whom it
keeps out, and for how long.
-/

namespace GraphqlOrmBackup

open Interaction

variable {K : Type}

/-! ## The time in the lock -/

/-- The lock, if there is one, holds a time that is not after the clock. -/
def Dated (clock : Int) (s : Store) : Prop :=
  ∀ body, s.lookup repositoryLockKey = some body →
    ∃ written, IsI64 written ∧ written ≤ clock ∧ body = lockBody written

/-- The time that the stage carries is not after the clock. -/
def AcquireStage.NotAfter (clock : Int) : AcquireStage → Prop
  | .put now | .inspect now | .delete now | .putAgain now => now ≤ clock
  | _ => True

section

variable {clock : Int} {s s' : Store}

theorem Dated.mono {later : Int} (h : Dated clock s) (hle : clock ≤ later) : Dated later s := by
  intro body hbody
  obtain ⟨written, hwritten, hbefore, rfl⟩ := h body hbody
  exact ⟨written, hwritten, Int.le_trans hbefore hle, rfl⟩

theorem Dated.congr (h : Dated clock s)
    (hlookup : s'.lookup repositoryLockKey = s.lookup repositoryLockKey) : Dated clock s' := by
  intro body hbody
  exact h body (hlookup.symm.trans hbody)

theorem dated_of_free (h : s.lookup repositoryLockKey = none) : Dated clock s := by
  intro body hbody
  cases h.symm.trans hbody

theorem dated_lockedBy {now : Int} (hnow : IsI64 now) (hle : now ≤ clock) (w : World) :
    Dated clock (w.lockedBy now).store := by
  intro body hbody
  obtain rfl := Option.some.inj ((Store.lookup_putBlob_self _ _ _).symm.trans hbody)
  exact ⟨now, hnow, hle, rfl⟩

theorem AcquireStage.NotAfter.mono {later : Int} {stage : AcquireStage} (h : stage.NotAfter clock)
    (hle : clock ≤ later) : stage.NotAfter later := by
  cases stage with
  | clock => trivial
  | put now => exact Int.le_trans h hle
  | inspect now => exact Int.le_trans h hle
  | delete now => exact Int.le_trans h hle
  | putAgain now => exact Int.le_trans h hle
  | done result => trivial

theorem AcquireMove.notAfter {options : RepositoryLockOptions} {stage stage' : AcquireStage}
    {before after : Option Bytes} (hstage : stage.NotAfter clock)
    (h : AcquireMove options clock stage before stage' after) : stage'.NotAfter clock := by
  cases h with
  | readClock => exact Int.le_refl clock
  | written => trivial
  | occupied => exact hstage
  | stale => exact hstage
  | deleted hstage' =>
    rcases hstage' with rfl | ⟨e, rfl⟩
    · exact hstage
    · trivial
  | failed => trivial

end

/-! ## Runs of any kind -/

section Runs

/-- The program of a client is one that its phase can have at the clock. -/
def WriterPhase.DatedBy (clock : Int) : WriterPhase → Prop
  | .acquiring job rest => ∃ stage : AcquireStage,
      rest = stage.prog job.operation.lockOptions ∧ stage.Clocked ∧ stage.NotAfter clock
  | phase => phase.WellFormed

/-- What holds in every state that is reached. -/
structure DatedInv (s : Fleet K) : Prop where
  clock : IsI64 s.clock
  lock : Dated s.clock s.world.store
  phases : ∀ k, (s.phases k).DatedBy s.clock

variable {s s' s₀ : Fleet K} {w : World} {k : K} {phase : WriterPhase}

theorem WriterPhase.DatedBy.mono {clock later : Int} (h : phase.DatedBy clock)
    (hle : clock ≤ later) : phase.DatedBy later := by
  cases phase with
  | acquiring job rest =>
    obtain ⟨stage, hprog, hclocked, hafter⟩ := h
    exact ⟨stage, hprog, hclocked, hafter.mono hle⟩
  | idle => trivial
  | working job lock rest => exact h
  | releasing job result rest => exact h
  | stopped => trivial

theorem datedInv_initial (h : s.Initial) (hdated : Dated s.clock s.world.store) : DatedInv s := by
  refine ⟨h.clock, hdated, fun k => ?_⟩
  rw [h.idle k]
  trivial

variable [DecidableEq K]

/-- A step of one client leaves the invariant to be shown of that client. -/
theorem DatedInv.update (h : DatedInv s) (hphases : s'.phases = Function.update s.phases k phase)
    (hclock : s'.clock = s.clock) (hlock : Dated s.clock s'.world.store)
    (hphase : phase.DatedBy s.clock) : DatedInv s' := by
  refine ⟨hclock ▸ h.clock, hclock ▸ hlock, fun j => ?_⟩
  rw [hclock, hphases, Function.update_apply]
  split
  · exact hphase
  · exact h.phases j

/-- A client that writes the lock writes a time that it has read. -/
theorem DatedInv.acquire (h : DatedInv s) {job : Job} {c : Call} {next : c.Response → AcquireProg}
    {r : c.Response} (hphase : s.phases k = .acquiring job (.call c next))
    (hcall : SharedClock job.host s.clock c s.world r w) :
    DatedInv (s.afterCall k w (.acquiring job (next r))) := by
  obtain ⟨stage, hprog, hclocked, hafter⟩ :
    (WriterPhase.acquiring job (.call c next)).DatedBy s.clock := hphase ▸ h.phases k
  obtain ⟨stage', hnext, hmove⟩ := acquire_step hprog.symm hcall
  refine h.update rfl rfl ?_
    ⟨stage', hnext, hmove.clocked hclocked h.clock, hmove.notAfter hafter⟩
  rcases acquire_effect hprog.symm hcall with rfl | ⟨-, rfl⟩ | ⟨-, now, hstage, rfl⟩
  · exact h.lock
  · exact dated_of_free (Store.lookup_deleteBlob_self _ _)
  · rcases hstage with rfl | rfl
    · exact dated_lockedBy hclocked hafter _
    · exact dated_lockedBy hclocked hafter _

theorem DatedInv.release (h : DatedInv s) {job : Job} {result : job.Outcome} {c : Call}
    {next : c.Response → ReleaseProg} {r : c.Response}
    (hphase : s.phases k = .releasing job result (.call c next))
    (hcall : SharedClock job.host s.clock c s.world r w) :
    DatedInv (s.afterCall k w (.releasing job result (next r))) := by
  have hwellFormed : (WriterPhase.releasing job result (.call c next)).DatedBy s.clock :=
    hphase ▸ h.phases k
  rcases hwellFormed with hprog | ⟨r', hret⟩
  · cases hprog
    have hret : ∃ r', Prog.ret r = (Prog.ret r' : ReleaseProg) := ⟨r, rfl⟩
    refine h.update rfl rfl ?_ (Or.inr hret)
    rcases sharedClock_deleteBlob hcall with hfree | ⟨e, -, rfl⟩
    · exact dated_of_free hfree
    · exact h.lock
  · cases hret

variable [Crates]

/-- A run of any number of clients, whichever locks they take over. -/
def UnruledRun : Fleet K → Fleet K → Prop :=
  Relation.ReflTransGen fun s s' => ∃ a, FleetStep SharedClock s a s'

/-- **Step lemma.** -/
theorem datedInv_step {a : FleetAction K} (h : DatedInv s) (hstep : FleetStep SharedClock s a s') :
    DatedInv s' := by
  cases hstep with
  | tick hle hnow => exact ⟨hnow, h.lock.mono hle, fun k => (h.phases k).mono hle⟩
  | start hdone => exact h.update rfl rfl h.lock ⟨.clock, rfl, trivial, trivial⟩
  | acquire hphase hcall => exact h.acquire hphase hcall
  | @enter k job lock hphase =>
    obtain ⟨stage, hprog, hclocked, -⟩ :
      (WriterPhase.acquiring job (.ret (.ok lock))).DatedBy s.clock := hphase ▸ h.phases k
    obtain rfl := AcquireStage.eq_done_of_prog hprog.symm
    exact h.update rfl rfl h.lock ⟨hclocked lock rfl,
      Prog.Within.mono (admitsWorks_sparesLock.work job.operation) fun _ _ => trivial⟩
  | @work k job lock c next r w hphase hcall =>
    obtain ⟨hlock, hspares, hnext⟩ :
      (WriterPhase.working job lock (.call c next)).DatedBy s.clock := hphase ▸ h.phases k
    have hmayFail := hcall.mayFail h.clock
    exact h.update rfl rfl (h.lock.congr (hmayFail.lookup_lock hspares))
      ⟨hlock, hnext r hmayFail.seesListed⟩
  | @leave k job lock result hphase =>
    obtain ⟨rfl, -⟩ : (WriterPhase.working job lock (.ret result)).DatedBy s.clock :=
      hphase ▸ h.phases k
    exact h.update rfl rfl h.lock (Or.inl rfl)
  | release hphase hcall => exact h.release hphase hcall
  | stop => exact h.update rfl rfl h.lock trivial

/-- **Run lemma.** -/
theorem datedInv_run (h₀ : DatedInv s₀) (hrun : UnruledRun s₀ s) : DatedInv s := by
  induction hrun with
  | refl => exact h₀
  | tail _ hstep ih =>
    rcases hstep with ⟨a, hstep⟩
    exact datedInv_step ih hstep

end Runs

/-! ## A client alone -/

section Alone

variable {host : Host} {options : RepositoryLockOptions} {now : Int} {w : World}

/-- Every call is answered, at a time that stands still. -/
def AnsweredAt (host : Host) (now : Int) : (c : Call) → World → c.Response → World → Prop
  | .unixSeconds, w, r, w' => r = .ok now ∧ w' = w
  | c, w, r, w' => host.Answers c w r w'

/-- All that can come of a client that asks for the lock, with every call answered. -/
def AcquiresAlone (host : Host) (options : RepositoryLockOptions) (now : Int) (w : World)
    (result : Except BackupError RepositoryLock) (w₁ : World) : Prop :=
  ∀ r w', Returns (AnsweredAt host now) w (RepositoryLock.acquire options).run r w' ↔
    r = result ∧ w' = w₁

theorem World.lockedBy_unlocked (w : World) (now : Int) :
    w.unlocked.lockedBy now = w.lockedBy now := by
  have hmem : repositoryLockKey ∉ w.store.erase repositoryLockKey := fun hmem =>
    (AList.mem_erase.mp hmem).1 rfl
  have hinsert : (w.store.erase repositoryLockKey).insert repositoryLockKey (lockBody now) =
      w.store.insert repositoryLockKey (lockBody now) :=
    AList.ext (congrArg (List.cons _) (List.kerase_of_notMem_keys hmem))
  exact congrArg w.withStore hinsert

/-- A conditional write of the lock that can end in one way. -/
theorem answeredAt_put_iff {written : Bool} {s₁ : Store}
    (hputs : ∀ r s', PutsIfAbsent repositoryLockKey (.ok (lockBody now)) w.store r s' ↔
      r = .ok written ∧ s' = s₁) (r : Except BackupError Bool) (w' : World) :
    AnsweredAt host now (.putBlobStreamIfAbsent repositoryLockKey (.ok (lockBody now))) w r w' ↔
      r = .ok written ∧ w' = w.withStore s₁ := by
  refine ⟨?_, ?_⟩
  · rintro ⟨s', hput, rfl⟩
    obtain ⟨rfl, rfl⟩ := (hputs r s').mp hput
    exact ⟨rfl, rfl⟩
  · rintro ⟨rfl, rfl⟩
    exact ⟨s₁, (hputs _ _).mpr ⟨rfl, rfl⟩, rfl⟩

theorem answeredAt_put_free_iff (hfree : w.store.lookup repositoryLockKey = none)
    (r : Except BackupError Bool) (w' : World) :
    AnsweredAt host now (.putBlobStreamIfAbsent repositoryLockKey (.ok (lockBody now))) w r w' ↔
      r = .ok true ∧ w' = w.lockedBy now := by
  refine answeredAt_put_iff (fun r s' => ?_) r w'
  unfold PutsIfAbsent
  rw [hfree]

theorem answeredAt_put_occupied_iff {existing : Bytes}
    (hlookup : w.store.lookup repositoryLockKey = some existing)
    (r : Except BackupError Bool) (w' : World) :
    AnsweredAt host now (.putBlobStreamIfAbsent repositoryLockKey (.ok (lockBody now))) w r w' ↔
      r = .ok false ∧ w' = w := by
  refine answeredAt_put_iff (fun r s' => ?_) r w'
  unfold PutsIfAbsent
  rw [hlookup]

theorem acquiresAlone_free (hfree : w.store.lookup repositoryLockKey = none) :
    AcquiresAlone host options now w (.ok ⟨repositoryLockKey⟩) (w.lockedBy now) := by
  intro r w'
  refine (returns_call_iff fun _ _ => Iff.rfl).trans ?_
  exact (returns_call_iff (answeredAt_put_free_iff hfree)).trans returns_ret_iff

/-- The lock in place is looked at. -/
theorem acquires_occupied_iff {existing : Bytes}
    (hlookup : w.store.lookup repositoryLockKey = some existing)
    {r : Except BackupError RepositoryLock} {w' : World} :
    Returns (AnsweredAt host now) w (RepositoryLock.acquire options).run r w' ↔
      Returns (AnsweredAt host now) w (if IsFresh options now existing then repositoryLocked
        else RepositoryLock.takeOver now : BackupM RepositoryLock).run r w' := by
  have hinspect : (do
      let existing ← Fallible.ofExcept (w.store.getBlob repositoryLockKey)
      if IsFresh options now existing then repositoryLocked
      else RepositoryLock.takeOver now : BackupM RepositoryLock).run =
      (if IsFresh options now existing then repositoryLocked
        else RepositoryLock.takeOver now : BackupM RepositoryLock).run := by
    rw [Store.getBlob_eq_ok.mpr hlookup]
    rfl
  refine (returns_call_iff fun _ _ => Iff.rfl).trans ?_
  refine (returns_call_iff (answeredAt_put_occupied_iff hlookup)).trans ?_
  refine (returns_call_iff fun _ _ => Iff.rfl).trans ?_
  exact iff_of_eq (congrArg (fun p => Returns (AnsweredAt host now) w p r w') hinspect)

theorem acquiresAlone_fresh {existing : Bytes}
    (hlookup : w.store.lookup repositoryLockKey = some existing)
    (hfresh : IsFresh options now existing) :
    AcquiresAlone host options now w (.error (.repositoryLocked repositoryLockKey)) w := by
  intro r w'
  rw [acquires_occupied_iff hlookup, if_pos hfresh]
  exact returns_ret_iff

theorem acquiresAlone_stale {existing : Bytes}
    (hlookup : w.store.lookup repositoryLockKey = some existing)
    (hstale : ¬ IsFresh options now existing) :
    AcquiresAlone host options now w (.ok ⟨repositoryLockKey⟩) (w.lockedBy now) := by
  intro r w'
  rw [acquires_occupied_iff hlookup, if_neg hstale, ← w.lockedBy_unlocked now]
  have hdelete : ∀ r' w₁, AnsweredAt host now (.deleteBlob repositoryLockKey) w r' w₁ ↔
      r' = .ok () ∧ w₁ = w.unlocked := fun _ _ => Iff.rfl
  refine (returns_call_iff hdelete).trans ?_
  exact (returns_call_iff (answeredAt_put_free_iff (Store.lookup_deleteBlob_self _ _))).trans
    returns_ret_iff

/-- A lock of the time `written` keeps a client out; for ever, if no lock is ever
    stale to it. -/
def KeepsOut (options : RepositoryLockOptions) (now written : Int) : Prop :=
  now ≤ written + options.staleAfterSeconds ∨ options.staleAfterSeconds = 2 ^ 63 - 1

theorem isFresh_lockBody_iff {written : Int} (hwritten : IsI64 written) :
    IsFresh options now (lockBody written) ↔ KeepsOut options now written := by
  have hoptions := options.isI64
  rw [IsFresh, lockedAt_lockBody written hwritten, saturatingSub, KeepsOut]
  unfold IsI64 at hoptions
  omega

/-- What a client finds that asks for the lock of a repository whose lock is dated. -/
theorem Dated.acquiresAlone {clock : Int} (h : Dated clock w.store) (host : Host)
    (options : RepositoryLockOptions) (now : Int) :
    w.store.lookup repositoryLockKey = none ∧
        AcquiresAlone host options now w (.ok ⟨repositoryLockKey⟩) (w.lockedBy now) ∨
      ∃ written, written ≤ clock ∧ w.store.lookup repositoryLockKey = some (lockBody written) ∧
        (KeepsOut options now written →
          AcquiresAlone host options now w (.error (.repositoryLocked repositoryLockKey)) w) ∧
        (¬ KeepsOut options now written →
          AcquiresAlone host options now w (.ok ⟨repositoryLockKey⟩) (w.lockedBy now)) := by
  cases hlookup : w.store.lookup repositoryLockKey with
  | none => exact Or.inl ⟨rfl, acquiresAlone_free hlookup⟩
  | some existing =>
    obtain ⟨written, hwritten, hle, rfl⟩ := h existing hlookup
    have hfresh : IsFresh options now (lockBody written) ↔ KeepsOut options now written :=
      isFresh_lockBody_iff hwritten
    exact Or.inr ⟨written, hle, rfl, fun h => acquiresAlone_fresh hlookup (hfresh.mpr h),
      fun h => acquiresAlone_stale hlookup (mt hfresh.mp h)⟩

end Alone

/-! ## Crashed writers -/

/-- **Crashed writers keep nobody out for good.**  However the clients have come to
    where they are, the lock in place holds a time that is not after the clock, and
    its age decides what a client is told that asks for the lock alone: it is kept
    out and leaves the repository as it is, or it gets the lock.  Once the clients
    have rested for longer than its locks live, it gets the lock. -/
theorem crashed_writers_keep_nobody_out [Crates] [DecidableEq K] {s₀ s : Fleet K} (h₀ : s₀.Initial)
    (hdated : Dated s₀.clock s₀.world.store) (hrun : UnruledRun s₀ s) (host : Host)
    (options : RepositoryLockOptions) (now : Int) :
    (s.lockBlob = none ∧
        AcquiresAlone host options now s.world (.ok ⟨repositoryLockKey⟩) (s.world.lockedBy now) ∨
      ∃ written, written ≤ s.clock ∧ s.lockBlob = some (lockBody written) ∧
        (KeepsOut options now written → AcquiresAlone host options now s.world
          (.error (.repositoryLocked repositoryLockKey)) s.world) ∧
        (¬ KeepsOut options now written → AcquiresAlone host options now s.world
          (.ok ⟨repositoryLockKey⟩) (s.world.lockedBy now))) ∧
      (s.clock + options.staleAfterSeconds < now → options.staleAfterSeconds ≠ 2 ^ 63 - 1 →
        AcquiresAlone host options now s.world (.ok ⟨repositoryLockKey⟩)
          (s.world.lockedBy now)) := by
  have hcases := (datedInv_run (datedInv_initial h₀ hdated) hrun).lock.acquiresAlone
    host options now
  refine ⟨hcases, fun hrested hfinite => ?_⟩
  rcases hcases with ⟨-, hfree⟩ | ⟨written, hle, -, -, hstale⟩
  · exact hfree
  · refine hstale fun hkeeps => ?_
    rcases hkeeps with hfresh | hforever
    · omega
    · exact hfinite hforever

/-! ## A writer that has crashed with the lock -/

section Crashed

open Reference

/-- The first has got the lock, and stopped. -/
def firstCrashed : Fleet Bool :=
  (twoWriters emptyWorld).afterCall false (emptyWorld.lockedBy 10000) .stopped

theorem unruledRun_firstCrashed : UnruledRun (twoWriters emptyWorld) firstCrashed := by
  have hstart : LoggedRun (fun _ _ => True) (twoWriters emptyWorld) [] (twoWriters emptyWorld) :=
    .start
  have hadmits : Admits (K := Bool) (fun _ _ => True) fun _ => True := fun _ _ _ _ => trivial
  have hbegun := hstart.begins (k := false) hadmits trivial (deletionJob 3)
  have hacquired := hbegun.acquires hadmits (Fleet.afterCall_phases_self _ _ _ _) rfl
  rw [Fleet.afterCall_afterCall] at hacquired
  have hholds : UnruledRun (twoWriters emptyWorld) _ :=
    Relation.ReflTransGen.mono (fun _ _ ⟨a, hstep, _⟩ => ⟨a, hstep⟩) _ _ hacquired.run
  have hcrashed := hholds.tail ⟨.stop false, .stop⟩
  rwa [Fleet.afterCall_set] at hcrashed

theorem crashed_writers_keep_nobody_out_firstCrashed :
    firstCrashed.lockBlob = some (lockBody 10000) ∧
      AcquiresAlone (deletionJob 2).host .default 13601 firstCrashed.world
        (.ok ⟨repositoryLockKey⟩) (firstCrashed.world.lockedBy 13601) :=
  ⟨rfl, (crashed_writers_keep_nobody_out (twoWriters_initial emptyWorld)
    (dated_of_free rfl) unruledRun_firstCrashed (deletionJob 2).host .default 13601).2
    (by decide) (by decide)⟩

end Crashed

end GraphqlOrmBackup
