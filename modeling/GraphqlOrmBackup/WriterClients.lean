import GraphqlOrmBackup.LockClients
import GraphqlOrmBackup.OperationCalls

/-!
# Clients of one repository

Any number of clients, each of which runs one operation after another on the
same repository.  A step performs one call of one client, so the calls of
different operations interleave in every way, and a client may stop for good
between any two of its calls.  The phases follow the operation through the lock:
what is left of it is a function of the phase.
-/

namespace GraphqlOrmBackup

open Interaction

/-- An operation, and the application it serves. -/
structure Job where
  host : Host
  operation : Operation

/-- What the caller of the operation is told. -/
abbrev Job.Outcome (job : Job) : Type := Except BackupError job.operation.Result

abbrev ReleaseProg := Prog Call.Response (Except BackupError Unit)

/-- Where a client stands in its operation. -/
inductive WriterPhase where
  | idle
  | acquiring (job : Job) (rest : AcquireProg)
  | working (job : Job) (lock : RepositoryLock) (rest : Prog Call.Response job.Outcome)
  | releasing (job : Job) (result : job.Outcome) (rest : ReleaseProg)
  | stopped

/-- What is left of an operation. -/
structure Progress where
  job : Job
  rest : Prog Call.Response job.Outcome

/-! ## Operations in parts -/

section

variable {α : Type}

/-- The end of an operation whose release of the lock has come to `rest`. -/
def afterWork (result : Except BackupError α) (rest : ReleaseProg) :
    Prog Call.Response (Except BackupError α) :=
  (do
    let releaseResult ← Fallible.attempt (ExceptT.mk rest)
    Fallible.ofExcept <| match result, releaseResult with
      | .ok value, .ok () => .ok value
      | .error err, _ => .error err
      | .ok _, .error err => .error err : BackupM α).run

/-- An operation whose work has come to `rest`. -/
def underLock (lock : RepositoryLock) (rest : Prog Call.Response (Except BackupError α)) :
    Prog Call.Response (Except BackupError α) :=
  (do
    let result ← Fallible.attempt (ExceptT.mk rest)
    releaseLock lock result : BackupM α).run

end

variable [Crates]

/-- What is left of the operation of a client that has got the lock. -/
def WriterPhase.entered : WriterPhase → Option Progress
  | .acquiring job (.ret (.ok lock)) => some ⟨job, underLock lock job.operation.work.run⟩
  | .working job lock rest => some ⟨job, underLock lock rest⟩
  | .releasing job result rest => some ⟨job, afterWork result rest⟩
  | _ => none

/-! ## The clients -/

/-- The client has the lock and has not yet given it back. -/
def WriterPhase.Holds : WriterPhase → Prop
  | .acquiring _ (.ret (.ok _)) => True
  | .working _ _ _ => True
  | .releasing _ _ (.call _ _) => True
  | _ => False

/-- The client has nothing left to run, or has stopped. -/
def WriterPhase.Done : WriterPhase → Prop
  | .idle => True
  | .acquiring _ (.ret (.error _)) => True
  | .releasing _ _ (.ret _) => True
  | .stopped => True
  | _ => False

variable {K : Type}

/-- The clients of one repository, and the clock they share. -/
structure Fleet (K : Type) where
  world : World
  clock : Int
  phases : K → WriterPhase

def Fleet.lockBlob (s : Fleet K) : Option Bytes := s.world.store.lookup repositoryLockKey

/-- The next call of the client is the deletion by which it takes the lock over. -/
def Fleet.TakesOver (s : Fleet K) (k : K) : Prop :=
  ∃ job key next, s.phases k = .acquiring job (.call (.deleteBlob key) next)

inductive FleetAction (K : Type) where
  | tick
  | start (k : K)
  | call (k : K)
  | enter (k : K)
  | leave (k : K)
  | stop (k : K)

section

variable [DecidableEq K]

def Fleet.set (s : Fleet K) (k : K) (phase : WriterPhase) : Fleet K :=
  { s with phases := Function.update s.phases k phase }

/-- The fleet after a call of one client. -/
def Fleet.afterCall (s : Fleet K) (k : K) (w : World) (phase : WriterPhase) : Fleet K where
  world := w
  clock := s.clock
  phases := Function.update s.phases k phase

/-- One step of one client, where `H` answers the calls under the clock. -/
inductive FleetStep (H : Host → Int → (c : Call) → World → c.Response → World → Prop) :
    Fleet K → FleetAction K → Fleet K → Prop where
  | tick {s : Fleet K} {now : Int} (hle : s.clock ≤ now) (hnow : IsI64 now) :
      FleetStep H s .tick { s with clock := now }
  | start {s : Fleet K} {k : K} {job : Job} (hdone : (s.phases k).Done) :
      FleetStep H s (.start k) (s.set k
        (.acquiring job (RepositoryLock.acquire job.operation.lockOptions).run))
  | acquire {s : Fleet K} {k : K} {job : Job} {c : Call} {next : c.Response → AcquireProg}
      {r : c.Response} {w : World} (hphase : s.phases k = .acquiring job (.call c next))
      (hcall : H job.host s.clock c s.world r w) :
      FleetStep H s (.call k) (s.afterCall k w (.acquiring job (next r)))
  | enter {s : Fleet K} {k : K} {job : Job} {lock : RepositoryLock}
      (hphase : s.phases k = .acquiring job (.ret (.ok lock))) :
      FleetStep H s (.enter k) (s.set k (.working job lock job.operation.work.run))
  | work {s : Fleet K} {k : K} {job : Job} {lock : RepositoryLock} {c : Call}
      {next : c.Response → Prog Call.Response job.Outcome} {r : c.Response} {w : World}
      (hphase : s.phases k = .working job lock (.call c next))
      (hcall : H job.host s.clock c s.world r w) :
      FleetStep H s (.call k) (s.afterCall k w (.working job lock (next r)))
  | leave {s : Fleet K} {k : K} {job : Job} {lock : RepositoryLock} {result : job.Outcome}
      (hphase : s.phases k = .working job lock (.ret result)) :
      FleetStep H s (.leave k) (s.set k (.releasing job result lock.release.run))
  | release {s : Fleet K} {k : K} {job : Job} {result : job.Outcome} {c : Call}
      {next : c.Response → ReleaseProg} {r : c.Response} {w : World}
      (hphase : s.phases k = .releasing job result (.call c next))
      (hcall : H job.host s.clock c s.world r w) :
      FleetStep H s (.call k) (s.afterCall k w (.releasing job result (next r)))
  | stop {s : Fleet K} {k : K} : FleetStep H s (.stop k) (s.set k .stopped)

def FleetAction.client : FleetAction K → Option K
  | .tick => none
  | .start k | .call k | .enter k | .leave k | .stop k => some k

/-- The last entry of the client, brought up to date. -/
def replaceLast (k : K) (progress : Progress) : List (K × Progress) → List (K × Progress)
  | [] => []
  | entry :: log =>
      if entry.1 = k ∧ k ∉ log.map Prod.fst then (k, progress) :: log
      else entry :: replaceLast k progress log

/-- What becomes of the log when what is left of the client's operation changes. -/
def logChange (k : K) (log : List (K × Progress)) :
    Option Progress → Option Progress → List (K × Progress)
  | none, some progress => log ++ [(k, progress)]
  | some _, some progress => replaceLast k progress log
  | _, none => log

/-- The log of the operations that have got the lock, in this order, after a step.
    An entry says what is left of the operation; when its client stops or begins
    another one, it stays as it is. -/
def FleetAction.log (a : FleetAction K) (s s' : Fleet K) (log : List (K × Progress)) :
    List (K × Progress) :=
  match a.client with
  | none => log
  | some k => logChange k log (s.phases k).entered (s'.phases k).entered

/-- The last operation of the client that has got the lock. -/
def lastEntry (k : K) (log : List (K × Progress)) : Option Progress :=
  (log.reverse.find? fun entry => entry.1 = k).map Prod.snd

/-- A takeover deletes no lock while a client has the lock. -/
def Fleet.Spares (s : Fleet K) : FleetAction K → Prop
  | .call k => s.TakesOver k → ∀ j, ¬ (s.phases j).Holds
  | _ => True

/-- A run in which no client takes the lock from another that has it. -/
def FleetRun : Fleet K → Fleet K → Prop :=
  Relation.ReflTransGen fun s s' => ∃ a, FleetStep SharedClock s a s' ∧ s.Spares a

/-- A run whose steps satisfy `P`, and its log. -/
inductive LoggedRun (P : Fleet K → FleetAction K → Prop) (s₀ : Fleet K) :
    List (K × Progress) → Fleet K → Prop where
  | start : LoggedRun P s₀ [] s₀
  | step {log : List (K × Progress)} {s s' : Fleet K} {a : FleetAction K}
      (h : LoggedRun P s₀ log s) (hstep : FleetStep SharedClock s a s') (ha : P s a) :
      LoggedRun P s₀ (a.log s s' log) s'

section Logs

variable {P : Fleet K → FleetAction K → Prop} {s₀ s : Fleet K} {log : List (K × Progress)}
  {k : K} {progress progress' : Progress}

/-- Every run has a log. -/
theorem exists_loggedRun
    (h : Relation.ReflTransGen (fun s s' => ∃ a, FleetStep SharedClock s a s' ∧ P s a) s₀ s) :
    ∃ log, LoggedRun P s₀ log s := by
  induction h with
  | refl => exact ⟨[], .start⟩
  | tail _ hstep ih =>
    rcases ih with ⟨log, hlog⟩
    rcases hstep with ⟨a, hstep, ha⟩
    exact ⟨_, hlog.step hstep ha⟩

theorem LoggedRun.run (h : LoggedRun P s₀ log s) :
    Relation.ReflTransGen (fun s s' => ∃ a, FleetStep SharedClock s a s' ∧ P s a) s₀ s := by
  induction h with
  | start => exact .refl
  | step _ hstep ha ih => exact ih.tail ⟨_, hstep, ha⟩

omit [Crates] in
theorem replaceLast_append : replaceLast k progress' (log ++ [(k, progress)]) =
    log ++ [(k, progress')] := by
  induction log with
  | nil => simp [replaceLast]
  | cons entry log ih => simp [replaceLast, ih]

omit [Crates] in
theorem lastEntry_append (j : K) : lastEntry j (log ++ [(k, progress)]) =
    if k = j then some progress else lastEntry j log := by
  by_cases h : k = j
  · simp [lastEntry, h]
  · simp [lastEntry, h]

omit [Crates] in
@[simp] theorem logChange_none (before : Option Progress) : logChange k log before none = log := by
  cases before <;> rfl

end Logs

end

/-- No client has begun; the lock blob is whatever earlier clients have left. -/
structure Fleet.Initial (s : Fleet K) : Prop where
  clock : IsI64 s.clock
  idle : ∀ k, s.phases k = .idle

/-! ## The lock blob and the rest of the repository -/

/-- The world without the lock blob. -/
def World.unlocked (w : World) : World := w.withStore (w.store.deleteBlob repositoryLockKey)

/-- The world with the lock that a client has written. -/
def World.lockedBy (w : World) (now : Int) : World :=
  w.withStore (w.store.putBlob repositoryLockKey (lockBody now))

section

variable {host : Host} {options : RepositoryLockOptions} {clock : Int} {w w' : World} {c : Call}
  {r : c.Response}

omit [Crates] in
theorem World.sameButLock_unlocked (w : World) : SameButLock w w.unlocked :=
  sameButLock_deleteBlob w

omit [Crates] in
theorem World.sameButLock_lockedBy (w : World) (now : Int) : SameButLock w (w.lockedBy now) :=
  ⟨fun _ hkey => Store.lookup_putBlob_of_ne _ _ hkey, rfl, rfl⟩

omit [Crates] in
theorem World.unlocked_unlocked (w : World) : w.unlocked.unlocked = w.unlocked := by
  have hmem : repositoryLockKey ∉ w.store.erase repositoryLockKey := fun hmem =>
    (AList.mem_erase.mp hmem).1 rfl
  have herase : (w.store.erase repositoryLockKey).erase repositoryLockKey =
      w.store.erase repositoryLockKey :=
    AList.ext (List.kerase_of_notMem_keys hmem)
  exact congrArg w.withStore herase

omit [Crates] in
theorem World.unlocked_lockedBy (w : World) (now : Int) : (w.lockedBy now).unlocked = w.unlocked := by
  have hentries : ((w.store.insert repositoryLockKey (lockBody now)).erase repositoryLockKey).entries =
      List.kerase repositoryLockKey ((⟨repositoryLockKey, lockBody now⟩ : Sigma fun _ => Bytes) ::
        List.kerase repositoryLockKey w.store.entries) := rfl
  have herase : (w.store.insert repositoryLockKey (lockBody now)).erase repositoryLockKey =
      w.store.erase repositoryLockKey :=
    AList.ext (hentries.trans (List.kerase_cons_eq rfl))
  exact congrArg w.withStore herase

omit [Crates] in
theorem World.unlocked_of_free (h : w.store.lookup repositoryLockKey = none) : w.unlocked = w := by
  have hmem : repositoryLockKey ∉ w.store := AList.lookup_eq_none.mp h
  have herase : w.store.erase repositoryLockKey = w.store :=
    AList.ext (List.kerase_of_notMem_keys hmem)
  exact congrArg w.withStore herase

omit [Crates] in
theorem SharedClock.mayFail (hclock : IsI64 clock) (h : SharedClock host clock c w r w') :
    host.MayFail c w r w' := by
  cases c with
  | unixSeconds =>
    rcases h with ⟨rfl, rfl⟩
    exact Or.inl ⟨⟨clock, hclock, rfl⟩, rfl⟩
  | _ => exact h

/-! ## What a client does to the lock -/

/-- The time that the stage carries is a time, and the lock that it ends with the
    lock of the repository. -/
def AcquireStage.Clocked : AcquireStage → Prop
  | .clock => True
  | .put now | .inspect now | .delete now | .putAgain now => IsI64 now
  | .done result => ∀ lock, result = .ok lock → lock = ⟨repositoryLockKey⟩

omit [Crates] in
/-- A call of `acquire` leaves the repository as it is, or deletes the lock, or
    writes one where there is none. -/
theorem acquire_effect {stage : AcquireStage} {next : c.Response → AcquireProg}
    (hprog : stage.prog options = .call c next) (h : SharedClock host clock c w r w') :
    w' = w ∨ ((∃ key, c = .deleteBlob key) ∧ w' = w.unlocked) ∨
      w.store.lookup repositoryLockKey = none ∧
        ∃ now, (stage = .put now ∨ stage = .putAgain now) ∧ w' = w.lockedBy now := by
  have hput : ∀ {now : Int} {r : Except BackupError Bool} {w' : World},
      host.Answers (.putBlobStreamIfAbsent repositoryLockKey (.ok (lockBody now))) w r w' →
      w' = w ∨ w.store.lookup repositoryLockKey = none ∧ w' = w.lockedBy now := by
    rintro now r w' ⟨s', hput, rfl⟩
    unfold PutsIfAbsent at hput
    cases hlookup : w.store.lookup repositoryLockKey with
    | none =>
      rw [hlookup] at hput
      rw [hput.2]
      exact Or.inr ⟨rfl, rfl⟩
    | some existing =>
      rw [hlookup] at hput
      rw [hput.2]
      exact Or.inl rfl
  cases stage with
  | clock =>
    cases hprog
    exact Or.inl h.2
  | put now =>
    cases hprog
    rcases h with hans | ⟨e, -, rfl | ⟨r', hans⟩⟩
    · exact (hput hans).imp_right fun h => Or.inr ⟨h.1, now, Or.inl rfl, h.2⟩
    · exact Or.inl rfl
    · exact (hput hans).imp_right fun h => Or.inr ⟨h.1, now, Or.inl rfl, h.2⟩
  | inspect now =>
    cases hprog
    rcases h with ⟨-, rfl⟩ | ⟨e, -, rfl | ⟨r', -, rfl⟩⟩
    · exact Or.inl rfl
    · exact Or.inl rfl
    · exact Or.inl rfl
  | delete now =>
    cases hprog
    rcases h with ⟨-, rfl⟩ | ⟨e, -, rfl | ⟨r', -, rfl⟩⟩
    · exact Or.inr (Or.inl ⟨⟨_, rfl⟩, rfl⟩)
    · exact Or.inl rfl
    · exact Or.inr (Or.inl ⟨⟨_, rfl⟩, rfl⟩)
  | putAgain now =>
    cases hprog
    rcases h with hans | ⟨e, -, rfl | ⟨r', hans⟩⟩
    · exact (hput hans).imp_right fun h => Or.inr ⟨h.1, now, Or.inr rfl, h.2⟩
    · exact Or.inl rfl
    · exact (hput hans).imp_right fun h => Or.inr ⟨h.1, now, Or.inr rfl, h.2⟩
  | done result => cases hprog

omit [Crates] in
theorem AcquireStage.eq_done_of_prog {stage : AcquireStage}
    {result : Except BackupError RepositoryLock} (h : stage.prog options = .ret result) :
    stage = .done result := by
  cases stage with
  | done result' =>
    cases h
    rfl
  | clock => cases h
  | put now => cases h
  | inspect now => cases h
  | delete now => cases h
  | putAgain now => cases h

omit [Crates] in
/-- A client gets the lock by writing it. -/
theorem AcquireMove.acquired {stage : AcquireStage} {before after : Option Bytes}
    {lock : RepositoryLock}
    (h : AcquireMove options clock stage before (.done (.ok lock)) after) :
    lock = ⟨repositoryLockKey⟩ ∧ before = none ∧
      ∃ now, (stage = .put now ∨ stage = .putAgain now) ∧ after = some (lockBody now) := by
  cases h with
  | written hstage hresult => exact ⟨by rw [← hresult lock rfl], rfl, _, hstage, rfl⟩
  | deleted hstage =>
    rcases hstage with h | ⟨e, h⟩
    · cases h
    · cases h

omit [Crates] in
theorem AcquireMove.clocked {stage stage' : AcquireStage} {before after : Option Bytes}
    (hclocked : stage.Clocked) (hclock : IsI64 clock)
    (h : AcquireMove options clock stage before stage' after) : stage'.Clocked := by
  cases h with
  | readClock => exact hclock
  | written hstage hresult =>
    intro lock hlock
    rw [← hresult lock hlock]
  | occupied => exact hclocked
  | stale => exact hclocked
  | deleted hstage =>
    rcases hstage with rfl | ⟨e, rfl⟩
    · exact hclocked
    · intro lock hlock
      cases hlock
  | failed e =>
    intro lock hlock
    cases hlock

omit [Crates] in
/-- **What a call of `acquire` does.**  It touches nothing but the lock.  It ends
    with the lock if it has written it where there was none; else it leaves the
    repository as it is, unless there is no lock or the call deletes it. -/
theorem acquire_cases {stage : AcquireStage} {next : c.Response → AcquireProg}
    (hclocked : stage.Clocked) (hclock : IsI64 clock) (hprog : stage.prog options = .call c next)
    (h : SharedClock host clock c w r w') :
    (∃ stage' : AcquireStage, next r = stage'.prog options ∧ stage'.Clocked) ∧
      w'.unlocked = w.unlocked ∧
      ((∃ now, IsI64 now ∧ next r = .ret (.ok ⟨repositoryLockKey⟩) ∧
          w.store.lookup repositoryLockKey = none ∧ w' = w.lockedBy now) ∨
        (∀ lock, next r ≠ .ret (.ok lock)) ∧
          (w' = w ∨ w.store.lookup repositoryLockKey = none ∨ ∃ key, c = .deleteBlob key)) := by
  have heffect := acquire_effect hprog h
  obtain ⟨stage', hnext, hmove⟩ := acquire_step hprog h
  refine ⟨⟨stage', hnext, hmove.clocked hclocked hclock⟩, ?_, ?_⟩
  · rcases heffect with rfl | ⟨-, rfl⟩ | ⟨-, now, -, rfl⟩
    · rfl
    · exact w.unlocked_unlocked
    · exact w.unlocked_lockedBy now
  by_cases hentered : ∃ lock, next r = .ret (.ok lock)
  · rcases hentered with ⟨lock, hlock⟩
    obtain rfl := AcquireStage.eq_done_of_prog (hnext.symm.trans hlock)
    obtain ⟨rfl, hfree, now, hstage, hlocked⟩ := hmove.acquired
    refine Or.inl ?_
    rcases heffect with rfl | ⟨-, rfl⟩ | ⟨-, now', hstage', rfl⟩
    · cases hfree.symm.trans hlocked
    · cases (Store.lookup_deleteBlob_self _ _).symm.trans hlocked
    · refine ⟨now', ?_, hlock, hfree, rfl⟩
      rcases hstage' with rfl | rfl
      · exact hclocked
      · exact hclocked
  · refine Or.inr ⟨fun lock hlock => hentered ⟨lock, hlock⟩, ?_⟩
    rcases heffect with rfl | ⟨hdelete, -⟩ | ⟨hfree, -⟩
    · exact Or.inl rfl
    · exact Or.inr (Or.inr hdelete)
    · exact Or.inr (Or.inl hfree)

/-! ## What the works leave alone -/

/-- The call does not write the lock. -/
def Call.SparesLock : Call → Prop
  | .putBlob key _ => key ≠ repositoryLockKey
  | .putBlobStreamIfAbsent key _ => key ≠ repositoryLockKey
  | .deleteBlob key => key ≠ repositoryLockKey
  | _ => True

/-- A listing has the keys that it was asked for. -/
def Call.SeesListed : (c : Call) → c.Response → Prop
  | .listBlobs pfx, r => ∀ keys : List String, r = .ok keys →
      ∀ key ∈ keys, startsWith key pfx = true
  | _, _ => True

omit [Crates] in
theorem admitsWorks_sparesLock : AdmitsWorks Call.SeesListed Call.SparesLock where
  asks c hc := by
    cases c with
    | putBlob key body => exact hc.elim
    | putBlobStreamIfAbsent key body => exact hc.elim
    | deleteBlob key => exact hc.elim
    | _ => trivial
  put id key body hdir := hdir.ne_lock
  object object source _ := (inObjectStore_objectContentKey _).ne_lock
  discard object := (inObjectStore_objectContentKey _).ne_lock
  deleteSnapshot id keys hkeys key hkey := by
    have hstarts := hkeys keys rfl key hkey
    rintro rfl
    exact absurd (head?_of_startsWith (head?_snapshotPrefix id) hstarts) (by decide)
  deleteObjects keys hkeys key hkey := by
    have hstarts := hkeys keys rfl key hkey
    rintro rfl
    exact absurd hstarts (by decide)

omit [Crates] in
theorem Host.MayFail.seesListed (h : host.MayFail c w r w') : c.SeesListed r := by
  cases c with
  | listBlobs pfx =>
    intro keys heq
    rcases h with ⟨⟨keys', hr, hlists⟩, -⟩ | ⟨e, rfl, -⟩
    · obtain rfl := Except.ok.inj (heq.symm.trans hr)
      exact fun key hkey => ((hlists.2 key).mp hkey).2
    · cases heq
  | _ => trivial

omit [Crates] in
theorem Host.Answers.lookup_lock (h : host.Answers c w r w') (hc : c.SparesLock) :
    w'.store.lookup repositoryLockKey = w.store.lookup repositoryLockKey := by
  cases c with
  | putBlob key body =>
    rcases h with ⟨-, rfl⟩
    exact Store.lookup_putBlob_of_ne _ _ hc.symm
  | putBlobStreamIfAbsent key body =>
    rcases h with ⟨s', hputs, rfl⟩
    unfold PutsIfAbsent at hputs
    split at hputs
    · rw [World.withStore_store, hputs.2]
      exact Store.lookup_putBlob_of_ne _ _ (Ne.symm hc)
    all_goals rw [World.withStore_store, hputs.2]
  | deleteBlob key =>
    rcases h with ⟨-, rfl⟩
    exact Store.lookup_deleteBlob_of_ne _ (Ne.symm hc)
  | restore request =>
    rcases h with ⟨-, rfl⟩
    rfl
  | _ =>
    rcases h with ⟨-, rfl⟩
    rfl

omit [Crates] in
theorem Host.MayFail.lookup_lock (h : host.MayFail c w r w') (hc : c.SparesLock) :
    w'.store.lookup repositoryLockKey = w.store.lookup repositoryLockKey := by
  rcases h with hans | ⟨e, -, rfl | ⟨r', hans⟩⟩
  · exact hans.lookup_lock hc
  · rfl
  · exact hans.lookup_lock hc

end

end GraphqlOrmBackup
