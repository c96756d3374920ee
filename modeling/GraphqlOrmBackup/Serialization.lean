import GraphqlOrmBackup.Turns

/-!
# Writers take turns

As long as no client takes the lock from another that has it, the operations of
any number of clients leave the repository that they would have left one after
the other: in the order in which they got the lock, each of them alone, and each
with the outcome that its client has seen.
-/

namespace GraphqlOrmBackup

open Interaction

section Codec

variable [Crates] {K : Type}

/-- `Serial w₀ history w`: the operations of the history, one after the other.
    Each starts where the one before it has stopped, with no lock in place, and
    has come to what is left of it. -/
inductive Serial (w₀ : World) : List (K × Progress) → World → Prop where
  | nil : Serial w₀ [] w₀
  | snoc {history : List (K × Progress)} {w w' : World} {k : K} {progress : Progress}
      (h : Serial w₀ history w)
      (hrun : Reaches progress.job.host.MayFail w.unlocked progress.job.operation.run.run w'
        progress.rest) :
      Serial w₀ (history ++ [(k, progress)]) w'

section

variable {w₀ w w' : World} {history : List (K × Progress)} {k : K} {job : Job}
  {rest rest' : Prog Call.Response job.Outcome}

/-- The last operation runs on. -/
theorem Serial.advance (h : Serial w₀ (history ++ [(k, ⟨job, rest⟩)]) w)
    (hrun : Reaches job.host.MayFail w rest w' rest') :
    Serial w₀ (history ++ [(k, ⟨job, rest'⟩)]) w' := by
  generalize hlist : history ++ [(k, (⟨job, rest⟩ : Progress))] = list at h
  cases h with
  | nil => simp at hlist
  | snoc hserial hreaches =>
    obtain ⟨rfl, hlast⟩ := List.append_inj' hlist rfl
    obtain ⟨rfl, rfl⟩ := Prod.mk.inj (List.cons.inj hlast).1
    exact .snoc hserial (hreaches.trans hrun)

/-- A client that gets the lock starts from what the last has left. -/
theorem Serial.enter (h : Serial w₀ history w) (hfree : w'.store.lookup repositoryLockKey = none)
    (hsame : w.unlocked = w'.unlocked) {now : Int} (hnow : IsI64 now) (k : K) (job : Job) :
    Serial w₀ (history ++ [(k, ⟨job, underLock ⟨repositoryLockKey⟩ job.operation.work.run⟩)])
      (w'.lockedBy now) := by
  refine .snoc h ?_
  rw [hsame, World.unlocked_of_free hfree, job.operation.run_eq]
  exact Reaches.bind (reaches_acquired hfree hnow) _

end

/-! ## The invariant -/

/-- The program of a client is one that its phase can have. -/
def WriterPhase.WellFormed : WriterPhase → Prop
  | .acquiring job rest => ∃ stage : AcquireStage,
      rest = stage.prog job.operation.lockOptions ∧ stage.Clocked
  | .working _ lock rest =>
      lock = ⟨repositoryLockKey⟩ ∧ rest.Within Call.SeesListed Call.SparesLock fun _ => True
  | .releasing _ _ rest =>
      rest = (RepositoryLock.release ⟨repositoryLockKey⟩).run ∨ ∃ r, rest = .ret r
  | _ => True

variable [DecidableEq K]

/-- The log accounts for the repository, but for the lock, and for the clients;
    while a client has the lock it is the last of them, and the repository exactly
    what it has left. -/
structure Accounts (w₀ : World) (s : Fleet K) (log : List (K × Progress)) (w : World) :
    Prop where
  serial : Serial w₀ log w
  unlocked : w.unlocked = s.world.unlocked
  entered : ∀ k progress, (s.phases k).entered = some progress → lastEntry k log = some progress
  holder : ∀ k, (s.phases k).Holds → w = s.world ∧ ∃ earlier progress,
    (s.phases k).entered = some progress ∧ log = earlier ++ [(k, progress)]

/-- What holds in every reachable state. -/
structure FleetInv (w₀ : World) (log : List (K × Progress)) (s : Fleet K) : Prop where
  clock : IsI64 s.clock
  phases : ∀ k, (s.phases k).WellFormed
  exclusive : ∀ j k, (s.phases j).Holds → (s.phases k).Holds → j = k
  locked : ∀ k, (s.phases k).Holds → s.lockBlob ≠ none
  accounts : ∃ w, Accounts w₀ s log w

variable {s s' : Fleet K} {w₀ w : World} {k : K} {phase : WriterPhase} {log log' : List (K × Progress)}

theorem fleetInv_initial (h : s.Initial) : FleetInv s.world [] s := by
  have hidle := h.idle
  refine ⟨h.clock, ?_, ?_, ?_, s.world, .nil, rfl, ?_, ?_⟩
  all_goals intro k
  all_goals simp [hidle, WriterPhase.WellFormed, WriterPhase.Holds, WriterPhase.entered]

/-- A step of one client leaves the invariant to be shown of that client. -/
theorem FleetInv.update (h : FleetInv w₀ log s)
    (hphases : s'.phases = Function.update s.phases k phase)
    (hclock : s'.clock = s.clock) (hwellFormed : phase.WellFormed)
    (hself : phase.Holds → s'.lockBlob ≠ none ∧ ∀ j, j ≠ k → ¬ (s.phases j).Holds)
    (hother : ∀ j, j ≠ k → (s.phases j).Holds → s'.lockBlob = s.lockBlob)
    (haccounts : ∃ w, Accounts w₀ s' log' w) : FleetInv w₀ log' s' := by
  have hk : s'.phases k = phase := by rw [hphases, Function.update_self]
  have hne : ∀ j, j ≠ k → s'.phases j = s.phases j := fun j hj => by
    rw [hphases, Function.update_of_ne hj]
  refine ⟨hclock ▸ h.clock, fun j => ?_, fun i j hi hj => ?_, fun j hj => ?_, haccounts⟩
  · by_cases hj : j = k
    · rw [hj, hk]
      exact hwellFormed
    · rw [hne j hj]
      exact h.phases j
  · by_cases hik : i = k <;> by_cases hjk : j = k
    · rw [hik, hjk]
    · rw [hik, hk] at hi
      rw [hne j hjk] at hj
      exact absurd hj ((hself hi).2 j hjk)
    · rw [hjk, hk] at hj
      rw [hne i hik] at hi
      exact absurd hi ((hself hj).2 i hik)
    · rw [hne i hik] at hi
      rw [hne j hjk] at hj
      exact h.exclusive i j hi hj
  · by_cases hjk : j = k
    · rw [hjk, hk] at hj
      exact (hself hj).1
    · rw [hne j hjk] at hj
      rw [hother j hjk hj]
      exact h.locked j hj

/-- A client outside the lock may go on, as long as it leaves all but the lock, and
    the lock of another client, as it is. -/
theorem Accounts.outside (h : Accounts w₀ s log w)
    (hphases : s'.phases = Function.update s.phases k phase)
    (hunlocked : s'.world.unlocked = s.world.unlocked) (hentered : phase.entered = none)
    (hholds : ¬ phase.Holds) (hsame : ∀ j, j ≠ k → (s.phases j).Holds → s'.world = s.world) :
    Accounts w₀ s' log w := by
  have hk : s'.phases k = phase := by rw [hphases, Function.update_self]
  have hne : ∀ j, j ≠ k → s'.phases j = s.phases j := fun j hj => by
    rw [hphases, Function.update_of_ne hj]
  refine ⟨h.serial, h.unlocked.trans hunlocked.symm, fun j progress hj => ?_, fun j hj => ?_⟩
  · by_cases hjk : j = k
    · rw [hjk, hk, hentered] at hj
      cases hj
    · rw [hne j hjk] at hj
      exact h.entered j progress hj
  · by_cases hjk : j = k
    · rw [hjk, hk] at hj
      exact absurd hj hholds
    · rw [hne j hjk] at hj ⊢
      rw [hsame j hjk hj]
      exact h.holder j hj

/-- The client that gets or has the lock goes on. -/
theorem Accounts.inside {earlier : List (K × Progress)} {progress : Progress}
    (h : Accounts w₀ s log w) (hphases : s'.phases = Function.update s.phases k phase)
    (hkeep : ∀ j, j ≠ k → lastEntry j log = lastEntry j earlier)
    (hserial : Serial w₀ (earlier ++ [(k, progress)]) s'.world)
    (hentered : phase.entered = some progress) (hother : ∀ j, j ≠ k → ¬ (s.phases j).Holds) :
    Accounts w₀ s' (earlier ++ [(k, progress)]) s'.world := by
  have hk : s'.phases k = phase := by rw [hphases, Function.update_self]
  have hne : ∀ j, j ≠ k → s'.phases j = s.phases j := fun j hj => by
    rw [hphases, Function.update_of_ne hj]
  refine ⟨hserial, rfl, fun j q hj => ?_, fun j hj => ?_⟩
  · rw [lastEntry_append]
    by_cases hjk : j = k
    · rw [hjk, hk, hentered] at hj
      rw [if_pos hjk.symm, hj]
    · rw [hne j hjk] at hj
      rw [if_neg (Ne.symm hjk), ← hkeep j hjk]
      exact h.entered j q hj
  · by_cases hjk : j = k
    · subst hjk
      exact ⟨rfl, earlier, progress, by rw [hk, hentered], rfl⟩
    · rw [hne j hjk] at hj
      exact absurd hj (hother j hjk)

/-! ## Preservation -/

/-- A client that has the lock is alone, and the last that the log accounts for. -/
theorem FleetInv.alone (h : FleetInv w₀ log s) (hholds : (s.phases k).Holds) {progress : Progress}
    (hentered : (s.phases k).entered = some progress) :
    (∀ j, j ≠ k → ¬ (s.phases j).Holds) ∧ Accounts w₀ s log s.world ∧
      ∃ earlier, log = earlier ++ [(k, progress)] := by
  refine ⟨fun j hj hj' => hj (h.exclusive j k hj' hholds), ?_⟩
  obtain ⟨w, haccounts⟩ := h.accounts
  obtain ⟨rfl, earlier, progress', hentered', hlog⟩ := haccounts.holder k hholds
  obtain rfl := Option.some.inj (hentered.symm.trans hentered')
  exact ⟨haccounts, earlier, hlog⟩

/-- The client with the lock performs a call, or moves on without one. -/
theorem FleetInv.inside (h : FleetInv w₀ log s) (hholds : (s.phases k).Holds) {job : Job}
    {rest rest' : Prog Call.Response job.Outcome}
    (hentered : (s.phases k).entered = some ⟨job, rest⟩)
    (hphases : s'.phases = Function.update s.phases k phase) (hclock : s'.clock = s.clock)
    (hwellFormed : phase.WellFormed) (hlocked : phase.Holds → s'.lockBlob ≠ none)
    (hentered' : phase.entered = some ⟨job, rest'⟩)
    (hrun : Reaches job.host.MayFail s.world rest s'.world rest') :
    FleetInv w₀ (logChange k log (s.phases k).entered (s'.phases k).entered) s' := by
  obtain ⟨hother, haccounts, earlier, rfl⟩ := h.alone hholds hentered
  rw [hentered, hphases, Function.update_self, hentered', logChange, replaceLast_append]
  refine h.update hphases hclock hwellFormed (fun hphase => ⟨hlocked hphase, hother⟩)
    (fun j hj hj' => absurd hj' (hother j hj)) ⟨_, haccounts.inside hphases (fun j hj => ?_)
      (haccounts.serial.advance hrun) hentered' hother⟩
  rw [lastEntry_append, if_neg (Ne.symm hj)]

/-- A step outside the lock that no call takes. -/
theorem FleetInv.outside (h : FleetInv w₀ log s) (hwellFormed : phase.WellFormed)
    (hentered : phase.entered = none) (hholds : ¬ phase.Holds) :
    FleetInv w₀ (logChange k log (s.phases k).entered ((s.set k phase).phases k).entered)
      (s.set k phase) := by
  obtain ⟨w, haccounts⟩ := h.accounts
  have hk : (s.set k phase).phases k = phase := Function.update_self _ _ _
  rw [hk, hentered, logChange_none]
  exact h.update rfl rfl hwellFormed (fun hphase => absurd hphase hholds) (fun _ _ _ => rfl)
    ⟨w, haccounts.outside rfl rfl hentered hholds fun _ _ _ => rfl⟩

/-- A call of `acquire`, if it is no takeover from a client that has the lock. -/
theorem fleetInv_acquire (h : FleetInv w₀ log s) {job : Job} {c : Call}
    {next : c.Response → AcquireProg} {r : c.Response}
    (hphase : s.phases k = .acquiring job (.call c next))
    (hcall : SharedClock job.host s.clock c s.world r w) (hspares : s.Spares (.call k)) :
    FleetInv w₀ (logChange k log none (WriterPhase.acquiring job (next r)).entered)
      (s.afterCall k w (.acquiring job (next r))) := by
  obtain ⟨stage, hprog, hclocked⟩ : (WriterPhase.acquiring job (.call c next)).WellFormed :=
    hphase ▸ h.phases k
  obtain ⟨hstage, hunlocked, hcase⟩ := acquire_cases hclocked h.clock hprog.symm hcall
  obtain ⟨w₁, haccounts⟩ := h.accounts
  rcases hcase with ⟨now, hnow, hnext, hfree, rfl⟩ | ⟨hnext, hworld⟩
  · have hother : ∀ j, ¬ (s.phases j).Holds := fun j hj => h.locked j hj hfree
    have hserial := haccounts.serial.enter hfree haccounts.unlocked hnow k job
    have hentered : (WriterPhase.acquiring job (next r)).entered =
        some ⟨job, underLock ⟨repositoryLockKey⟩ job.operation.work.run⟩ := by
      rw [hnext]
      rfl
    have hlookup : (s.world.lockedBy now).store.lookup repositoryLockKey = some (lockBody now) :=
      Store.lookup_putBlob_self _ _ _
    rw [hentered, logChange]
    refine h.update rfl rfl hstage (fun _ => ⟨fun hnone => ?_, fun j _ => hother j⟩)
      (fun j _ hj => absurd hj (hother j))
      ⟨_, haccounts.inside rfl (fun _ _ => rfl) hserial hentered fun j _ => hother j⟩
    cases hlookup.symm.trans hnone
  · have hsame : ∀ j, j ≠ k → (s.phases j).Holds → w = s.world := by
      intro j _ hj
      rcases hworld with rfl | hfree | ⟨key, rfl⟩
      · rfl
      · exact absurd hfree (h.locked j hj)
      · exact absurd hj (hspares ⟨_, _, _, hphase⟩ j)
    have houtside : (WriterPhase.acquiring job (next r)).entered = none ∧
        ¬ (WriterPhase.acquiring job (next r)).Holds := by
      revert hnext
      generalize next r = rest
      intro hnext
      cases rest with
      | call c next => exact ⟨rfl, fun hholds => hholds⟩
      | ret result =>
        cases result with
        | ok lock => exact absurd rfl (hnext lock)
        | error e => exact ⟨rfl, fun hholds => hholds⟩
    rw [houtside.1, logChange_none]
    refine h.update rfl rfl hstage (fun hholds => absurd hholds houtside.2) (fun j hj hj' => ?_)
      ⟨_, haccounts.outside rfl hunlocked houtside.1 houtside.2 hsame⟩
    exact congrArg (fun w : World => w.store.lookup repositoryLockKey) (hsame j hj hj')

/-- A call of the work. -/
theorem fleetInv_work (h : FleetInv w₀ log s) {job : Job} {lock : RepositoryLock} {c : Call}
    {next : c.Response → Prog Call.Response job.Outcome} {r : c.Response}
    (hphase : s.phases k = .working job lock (.call c next))
    (hcall : SharedClock job.host s.clock c s.world r w) :
    FleetInv w₀ ((FleetAction.call k).log s (s.afterCall k w (.working job lock (next r))) log)
      (s.afterCall k w (.working job lock (next r))) := by
  obtain ⟨hlock, hspares, hnext⟩ : (WriterPhase.working job lock (.call c next)).WellFormed :=
    hphase ▸ h.phases k
  have hmayFail := hcall.mayFail h.clock
  have hholds : (s.phases k).Holds := by
    rw [hphase]
    trivial
  refine h.inside hholds (by rw [hphase]; rfl) rfl rfl ⟨hlock, hnext r hmayFail.seesListed⟩
    (fun _ => ?_) rfl (Reaches.head hmayFail (Reaches.refl _ _))
  have hlocked := h.locked k hholds
  rwa [Fleet.lockBlob, ← hmayFail.lookup_lock hspares] at hlocked

/-- The call of a release. -/
theorem fleetInv_release (h : FleetInv w₀ log s) {job : Job} {result : job.Outcome} {c : Call}
    {next : c.Response → ReleaseProg} {r : c.Response}
    (hphase : s.phases k = .releasing job result (.call c next))
    (hcall : SharedClock job.host s.clock c s.world r w) :
    FleetInv w₀ ((FleetAction.call k).log s (s.afterCall k w (.releasing job result (next r))) log)
      (s.afterCall k w (.releasing job result (next r))) := by
  have hwellFormed : (WriterPhase.releasing job result (.call c next)).WellFormed :=
    hphase ▸ h.phases k
  have hret : ∃ r', next r = .ret r' := by
    rcases hwellFormed with hprog | ⟨r', hret⟩
    · cases hprog
      cases r with
      | ok a => exact ⟨_, rfl⟩
      | error e => exact ⟨_, rfl⟩
    · cases hret
  have hholds : (s.phases k).Holds := by
    rw [hphase]
    trivial
  refine h.inside hholds (by rw [hphase]; rfl) rfl rfl (Or.inr hret) (fun hnext => ?_) rfl
    (Reaches.head (hcall.mayFail h.clock) (Reaches.refl _ _))
  rcases hret with ⟨r', hret⟩
  rw [hret] at hnext
  exact hnext.elim

/-- **Step lemma.** -/
theorem fleetInv_step {a : FleetAction K} (h : FleetInv w₀ log s)
    (hstep : FleetStep SharedClock s a s') (hspares : s.Spares a) :
    FleetInv w₀ (a.log s s' log) s' := by
  cases hstep with
  | tick hle hnow =>
    obtain ⟨w, haccounts⟩ := h.accounts
    exact ⟨hnow, h.phases, h.exclusive, h.locked, w, haccounts.serial, haccounts.unlocked,
      haccounts.entered, haccounts.holder⟩
  | start hdone => exact h.outside ⟨.clock, rfl, trivial⟩ rfl fun hholds => hholds
  | @acquire k job c next r w hphase hcall =>
    have hinv := fleetInv_acquire h hphase hcall hspares
    have hnone : (s.phases k).entered = none := by
      rw [hphase]
      rfl
    rw [FleetAction.log, FleetAction.client]
    simp only [hnone, Fleet.afterCall, Function.update_self]
    exact hinv
  | @enter k job lock hphase =>
    obtain ⟨stage, hprog, hclocked⟩ : (WriterPhase.acquiring job (.ret (.ok lock))).WellFormed :=
      hphase ▸ h.phases k
    obtain rfl := AcquireStage.eq_done_of_prog hprog.symm
    have hholds : (s.phases k).Holds := by
      rw [hphase]
      trivial
    exact h.inside hholds (by rw [hphase]; rfl) rfl rfl
      ⟨hclocked lock rfl, Prog.Within.mono (admitsWorks_sparesLock.work job.operation)
        fun _ _ => trivial⟩
      (fun _ => h.locked k hholds) rfl (Reaches.refl _ _)
  | work hphase hcall => exact fleetInv_work h hphase hcall
  | @leave k job lock result hphase =>
    obtain ⟨rfl, -⟩ : (WriterPhase.working job lock (.ret result)).WellFormed :=
      hphase ▸ h.phases k
    have hholds : (s.phases k).Holds := by
      rw [hphase]
      trivial
    exact h.inside hholds (by rw [hphase]; rfl) rfl rfl (Or.inl rfl)
      (fun _ => h.locked k hholds) rfl (Reaches.refl _ _)
  | release hphase hcall => exact fleetInv_release h hphase hcall
  | stop => exact h.outside trivial rfl fun hholds => hholds

/-- **Run lemma.** -/
theorem fleetInv_run (h₀ : s.Initial) (hrun : LoggedRun Fleet.Spares s log s') :
    FleetInv s.world log s' := by
  induction hrun with
  | start => exact fleetInv_initial h₀
  | step _ hstep hspares ih => exact fleetInv_step ih hstep hspares

/-! ## Writers in turn -/

/-- The repository is, but for the lock, what the operations of the log leave one
    after the other. -/
theorem FleetInv.serial (h : FleetInv w₀ log s) :
    ∃ w, Serial w₀ log w ∧ SameButLock w s.world := by
  obtain ⟨w, haccounts⟩ := h.accounts
  have hunlocked := w.sameButLock_unlocked
  rw [haccounts.unlocked] at hunlocked
  exact ⟨w, haccounts.serial, hunlocked.trans s.world.sameButLock_unlocked.symm⟩

/-- **Writers take turns.**  In every run in which no client takes the lock from
    another that has it, at most one client has the lock, and the repository is,
    but for the lock, what the operations of the log leave one after the other,
    each of them alone, in the order in which they got the lock.  Each operation
    gets there as far as it has got in the run, and to the same outcome. -/
theorem writers_take_turns {s₀ : Fleet K} (h₀ : s₀.Initial) :
    (∀ s, FleetRun s₀ s → ∃ log, LoggedRun Fleet.Spares s₀ log s) ∧
    ∀ log s, LoggedRun Fleet.Spares s₀ log s →
      (∀ j k, (s.phases j).Holds → (s.phases k).Holds → j = k) ∧
      (∀ k progress, (s.phases k).entered = some progress → lastEntry k log = some progress) ∧
      ∃ w, Serial s₀.world log w ∧ SameButLock w s.world := by
  refine ⟨fun s hrun => exists_loggedRun hrun, fun log s hrun => ?_⟩
  have hinv := fleetInv_run h₀ hrun
  obtain ⟨w, haccounts⟩ := hinv.accounts
  exact ⟨hinv.exclusive, haccounts.entered, hinv.serial⟩

end Codec

section TwoWriters

open Reference

theorem admits_spares : Admits (K := Bool) Fleet.Spares TurnJob := fun _ _ hspares _ => hspares

/-- Two writers come to the end, and one of them has begun again. -/
theorem writers_take_turns_backupAndDeletion : ∃ backup deletion s w,
    LoggedRun Fleet.Spares (twoWriters backedUpWorld) [backupEntry backup, deletionEntry deletion] s ∧
      (s.phases false).entered = none ∧
      Serial backedUpWorld [backupEntry backup, deletionEntry deletion] w ∧
      SameButLock w s.world ∧ snapshotManifestKey (uuid 2) ∉ s.world.store := by
  obtain ⟨backup, hbackup⟩ := exists_backupDone admits_spares
  obtain ⟨deletion, w, hgone, hdeletion⟩ := exists_deletionDone admits_spares backup
  have hagain := (hdeletion _ _ hbackup).begins (k := false) admits_spares trivial backupJob
  obtain ⟨-, -, w', hserial, hsame⟩ := (writers_take_turns (twoWriters_initial _)).2 _ _ hagain
  exact ⟨backup, deletion, _, w', hagain, rfl, hserial, hsame, hgone⟩

end TwoWriters

/-! ## What writers in turn can reach -/

section Codec

variable [Crates] {K : Type} [DecidableEq K] {s s₀ : Fleet K} {w₀ w : World}
  {log : List (K × Progress)}

omit [DecidableEq K] in
theorem Serial.reachable (hreach : ReachableRepository w₀) (h : Serial w₀ log w) :
    ReachableRepository w := by
  induction h with
  | nil => exact hreach
  | @snoc _ _ _ _ progress _ hrun ih => exact (ih.unlocked progress.job.host).step hrun

theorem FleetInv.reachable (h : FleetInv w₀ log s) (hreach : ReachableRepository w₀) :
    ∃ w, ReachableRepository w ∧ SameButLock w s.world := by
  obtain ⟨w, hserial, hsame⟩ := h.serial
  exact ⟨w, hserial.reachable hreach, hsame⟩

/-- **Concurrent writers leave what one writer at a time can leave.**  From a
    reachable repository they come, but for the lock, to a reachable one, in
    which no manifest references a missing object. -/
theorem concurrent_writers_leave_reachable (hread : ManifestsReadBack)
    (h₀ : s₀.Initial) (hreach : ReachableRepository s₀.world)
    (hrun : FleetRun s₀ s) :
    (∃ w, ReachableRepository w ∧ SameButLock w s.world) ∧
      ∀ id manifest, loadManifest s.world.store id = .ok manifest →
        ∀ entry ∈ manifest.objects, entry.contentKey ∈ s.world.store := by
  obtain ⟨log, hlog⟩ := exists_loggedRun hrun
  obtain ⟨w, hw, hsame⟩ := (fleetInv_run h₀ hlog).reachable hreach
  refine ⟨⟨w, hw, hsame⟩, fun id manifest hload entry hentry => ?_⟩
  rw [loadManifest_sameButLock hsame] at hload
  obtain ⟨hobj, body, hbody, -⟩ := hw.objectsStored hread id manifest hload
    (entry.contentKey, entry.sha256Hex) (List.mem_map.mpr ⟨entry, hentry, rfl⟩)
  exact (Store.mem_congr (hsame.1 _ hobj.ne_lock)).mpr (Store.mem_of_lookup hbody)

end Codec

section TwoWriters

open Reference

theorem concurrent_writers_leave_reachable_backupAndDeletion : ∃ backup deletion w,
    FleetRun (twoWriters backedUpWorld) (deletionDone backup deletion w) ∧
      snapshotManifestKey (uuid 2) ∉ (deletionDone backup deletion w).world.store ∧
      ∃ w', ReachableRepository w' ∧ SameButLock w' (deletionDone backup deletion w).world := by
  obtain ⟨backup, hbackup⟩ := exists_backupDone admits_spares
  obtain ⟨deletion, w, hgone, hdeletion⟩ := exists_deletionDone admits_spares backup
  have hrun : FleetRun (twoWriters backedUpWorld) (deletionDone backup deletion w) :=
    (hdeletion _ _ hbackup).run
  exact ⟨backup, deletion, w, hrun, hgone, (concurrent_writers_leave_reachable manifestsReadBack
    (twoWriters_initial _) reachable_backedUpWorld hrun).1⟩

end TwoWriters

end GraphqlOrmBackup
