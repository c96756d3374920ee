import GraphqlOrmBackup.LockClients

/-!
# Who holds the repository lock

As long as no takeover deletes the lock of a client that has not yet released
it, the lock blob in place is the one its holder wrote: there is at most one
holder, and a release removes no other client's lock.  Holders that release in
time are safe from every takeover that deletes a stale lock.  A takeover may
however delete a lock that has become fresh since it was found stale.
-/

namespace GraphqlOrmBackup

open Interaction

variable {K : Type} [DecidableEq K] {host : Host} {options : RepositoryLockOptions}
  {s s' : System K}

/-! ## The programs of the clients -/

omit [DecidableEq K] in
theorem stage_of_ret {stage : AcquireStage} {result : Except BackupError RepositoryLock}
    (h : stage.prog options = .ret result) : stage = .done result := by
  cases stage with
  | done result' =>
    cases h
    rfl
  | clock => cases h
  | put now => cases h
  | inspect now => cases h
  | delete now => cases h
  | putAgain now => cases h

/-- If the stage is the end of `acquire`, the lock is the one of the repository. -/
def AcquireStage.Keyed (stage : AcquireStage) : Prop :=
  ∀ lock, stage = .done (.ok lock) → lock.key = repositoryLockKey

theorem keyed_of_move {clock : Int} {stage stage' : AcquireStage} {b b' : Option Bytes}
    (hmove : AcquireMove options clock stage b stage' b') : stage'.Keyed := by
  cases hmove with
  | written hstage hresult =>
    rintro lock ⟨⟩
    exact hresult lock rfl
  | deleted hstage =>
    rcases hstage with rfl | ⟨e, rfl⟩
    · rintro lock ⟨⟩
    · rintro lock ⟨⟩
  | readClock => rintro lock ⟨⟩
  | occupied => rintro lock ⟨⟩
  | stale => rintro lock ⟨⟩
  | failed e => rintro lock ⟨⟩

/-- What a client runs: the rest of an `acquire`, or the rest of a release of the
    repository's lock. -/
def Phase.Formed (options : RepositoryLockOptions) : Phase → Prop
  | .idle => True
  | .acquiring p => ∃ stage : AcquireStage, p = stage.prog options ∧ stage.Keyed
  | .releasing p => p = (RepositoryLock.release ⟨repositoryLockKey⟩).run ∨ ∃ r, p = .ret r

omit [DecidableEq K] in
theorem Phase.Formed.start (options : RepositoryLockOptions) :
    Phase.Formed options (.acquiring (RepositoryLock.acquire options).run) := by
  refine ⟨.clock, rfl, ?_⟩
  rintro lock ⟨⟩

theorem Phase.Formed.startRelease {lock : RepositoryLock}
    (h : Phase.Formed options (.acquiring (.ret (.ok lock)))) :
    Phase.Formed options (.releasing lock.release.run) := by
  obtain ⟨stage, hprog, hkeyed⟩ := h
  have hkey := hkeyed lock (stage_of_ret hprog.symm)
  cases lock
  cases hkey
  exact Or.inl rfl

theorem Phase.Formed.acquire {clock : Int} {c : Call} {next : c.Response → AcquireProg}
    {r : c.Response} {w w' : World} (h : Phase.Formed options (.acquiring (.call c next)))
    (hcall : SharedClock host clock c w r w') :
    Phase.Formed options (.acquiring (next r)) := by
  obtain ⟨stage, hprog, -⟩ := h
  obtain ⟨stage', hprog', hmove⟩ := acquire_step hprog.symm hcall
  exact ⟨stage', hprog', keyed_of_move hmove⟩

/-- The one call of a release deletes the lock blob. -/
theorem Phase.Formed.release_call {c : Call}
    {next : c.Response → Prog Call.Response (Except BackupError Unit)}
    (h : Phase.Formed options (.releasing (.call c next))) : c = .deleteBlob repositoryLockKey := by
  rcases h with hprog | ⟨r, hret⟩
  · cases hprog
    rfl
  · cases hret

/-- The release returns what the call answers. -/
theorem Phase.Formed.release_answer
    {next : Except BackupError Unit → Prog Call.Response (Except BackupError Unit)}
    (h : Phase.Formed options (.releasing (.call (.deleteBlob repositoryLockKey) next)))
    (r : Except BackupError Unit) : next r = .ret r := by
  rcases h with hprog | ⟨r', hret⟩
  · cases hprog
    cases r with
    | ok a => rfl
    | error e => rfl
  · cases hret

theorem formed_update {clients : K → Client} {k : K} {client : Client}
    (h : ∀ j, (clients j).phase.Formed options) (hclient : client.phase.Formed options) (j : K) :
    (Function.update clients k client j).phase.Formed options := by
  by_cases hj : j = k
  · rw [hj, Function.update_self]
    exact hclient
  · rw [Function.update_of_ne hj]
    exact h j

theorem formed_step {a : Action K} (h : ∀ k, (s.clients k).phase.Formed options)
    (hstep : SystemStep host options s a s') : ∀ k, (s'.clients k).phase.Formed options := by
  cases hstep with
  | tick => exact h
  | start => exact formed_update h (.start options)
  | @acquire k _ _ _ _ hphase hcall =>
    have hk := h k
    rw [hphase] at hk
    exact formed_update h (hk.acquire hcall)
  | @startRelease k _ hphase =>
    have hk := h k
    rw [hphase] at hk
    exact formed_update h hk.startRelease
  | @release k _ _ r _ hphase =>
    have hk := h k
    rw [hphase] at hk
    obtain rfl := hk.release_call
    exact formed_update h (Or.inr ⟨r, hk.release_answer r⟩)

theorem formed_run {allowed : System K → Action K → Prop} {s₀ : System K} (h₀ : s₀.Initial)
    (hrun : SystemRun host options allowed s₀ s) : ∀ k, (s.clients k).phase.Formed options := by
  induction hrun with
  | refl =>
    intro k
    rw [h₀.idle k]
    trivial
  | tail _ hstep ih =>
    rcases hstep with ⟨a, hstep, -⟩
    exact formed_step ih hstep

/-! ## The invariant -/

/-- The time a stage of `acquire` carries. -/
def AcquireStage.StampedBy (stamp : Int) : AcquireStage → Prop
  | .clock => True
  | .put now => now = stamp
  | .inspect now => now = stamp
  | .delete now => now = stamp
  | .putAgain now => now = stamp
  | .done _ => True

/-- What holds in every reachable state. -/
structure LockInv (options : RepositoryLockOptions) (s : System K) : Prop where
  clock : IsI64 s.clock
  stamp : ∀ k, (s.clients k).phase ≠ .idle →
    (s.clients k).stamp ≤ s.clock ∧ IsI64 (s.clients k).stamp
  acquiring : ∀ k p, (s.clients k).phase = .acquiring p →
    ∃ stage, p = AcquireStage.prog options stage ∧ stage.StampedBy (s.clients k).stamp
  formed : ∀ k, (s.clients k).phase.Formed options
  holds : ∀ k, (s.clients k).phase.Holds → s.owner = some (k, (s.clients k).attempts) ∧
    s.lockBlob = some (lockBody (s.clients k).stamp)

omit [DecidableEq K] in
/-- **Mutual exclusion** is part of the invariant: there is one owner. -/
theorem LockInv.exclusive (h : LockInv options s) {j k : K} (hj : (s.clients j).phase.Holds)
    (hk : (s.clients k).phase.Holds) : j = k := by
  have howner := (h.holds j hj).1.symm.trans (h.holds k hk).1
  exact (Prod.mk.inj (Option.some.inj howner)).1

omit [DecidableEq K] in
theorem lockInv_initial (h : s.Initial) : LockInv options s := by
  refine ⟨h.clock, fun k hk => absurd (h.idle k) hk, fun k p hp => ?_, fun k => ?_,
    fun k hk => ?_⟩
  · rw [h.idle k] at hp
    cases hp
  · rw [h.idle k]
    trivial
  · rw [h.idle k] at hk
    exact hk.elim

/-- A takeover deletes no lock that a client holds. -/
def SparesHolders (s : System K) : Action K → Prop
  | .call k => s.TakesOver k → ∀ j, (s.clients j).phase.Holds →
      s.owner ≠ some (j, (s.clients j).attempts)
  | _ => True

/-! ## Preservation -/

/-- A step of one client leaves the invariant to be shown of that client, and of
    the holders among the others. -/
theorem lockInv_update (h : LockInv options s) {k : K} {client : Client}
    (hclients : s'.clients = Function.update s.clients k client) (hclock : s'.clock = s.clock)
    (hstamp : client.stamp ≤ s.clock ∧ IsI64 client.stamp)
    (hacquiring : ∀ p, client.phase = .acquiring p →
      ∃ stage, p = AcquireStage.prog options stage ∧ stage.StampedBy client.stamp)
    (hformed : client.phase.Formed options)
    (hself : client.phase.Holds → s'.owner = some (k, client.attempts) ∧
      s'.lockBlob = some (lockBody client.stamp))
    (hother : ∀ j, j ≠ k → (s.clients j).phase.Holds →
      s'.owner = s.owner ∧ s'.lockBlob = s.lockBlob) : LockInv options s' := by
  have hk : s'.clients k = client := by rw [hclients, Function.update_self]
  have hne : ∀ j, j ≠ k → s'.clients j = s.clients j := fun j hj => by
    rw [hclients, Function.update_of_ne hj]
  refine ⟨hclock ▸ h.clock, fun j hphase => ?_, fun j p hp => ?_,
    hclients ▸ formed_update h.formed hformed, fun j hholds => ?_⟩
  · rw [hclock]
    by_cases hj : j = k
    · rw [hj, hk]
      exact hstamp
    · rw [hne j hj] at hphase ⊢
      exact h.stamp j hphase
  · by_cases hj : j = k
    · rw [hj, hk] at hp ⊢
      exact hacquiring p hp
    · rw [hne j hj] at hp ⊢
      exact h.acquiring j p hp
  · by_cases hj : j = k
    · rw [hj, hk] at hholds ⊢
      exact hself hholds
    · rw [hne j hj] at hholds ⊢
      rw [(hother j hj hholds).1, (hother j hj hholds).2]
      exact h.holds j hholds

omit [DecidableEq K] in
theorem lockInv_tick (h : LockInv options s) {now : Int} (hle : s.clock ≤ now)
    (hnow : IsI64 now) : LockInv options { s with clock := now } :=
  ⟨hnow, fun k hk => ⟨Int.le_trans (h.stamp k hk).1 hle, (h.stamp k hk).2⟩, h.acquiring,
    h.formed, h.holds⟩

theorem lockInv_start (h : LockInv options s) (k : K) :
    LockInv options (s.set k ⟨(s.clients k).attempts + 1, s.clock,
      .acquiring (RepositoryLock.acquire options).run⟩) := by
  refine lockInv_update h rfl rfl ⟨Int.le_refl _, h.clock⟩ ?_ (.start _) (fun hholds => ?_)
    fun _ _ _ => ⟨rfl, rfl⟩
  · rintro _ ⟨⟩
    exact ⟨.clock, rfl, trivial⟩
  · exact hholds.elim

theorem lockInv_startRelease (h : LockInv options s) {k : K} {lock : RepositoryLock}
    (hphase : (s.clients k).phase = .acquiring (.ret (.ok lock))) :
    LockInv options (s.set k { s.clients k with phase := .releasing lock.release.run }) := by
  have hformed := h.formed k
  rw [hphase] at hformed
  refine lockInv_update h rfl rfl (h.stamp k (by simp [hphase])) (by simp) hformed.startRelease ?_
    fun _ _ _ => ⟨rfl, rfl⟩
  exact fun _ => h.holds k (by rw [hphase]; trivial)

omit [DecidableEq K] in
theorem ownerAfter_of_eq {writer : K × Nat} {owner : Option (K × Nat)} {b : Option Bytes}
    {body : Bytes} (h : b = some body) : ownerAfter writer owner b b = owner := by
  rw [h]
  rfl

/-- The client's stage carries the time it last read. -/
theorem stampedBy_of_move {clock stamp : Int} {stage stage' : AcquireStage} {b b' : Option Bytes}
    {c : Call} {next : c.Response → AcquireProg} (hprog : stage.prog options = .call c next)
    (hmove : AcquireMove options clock stage b stage' b') (hstamped : stage.StampedBy stamp) :
    stage'.StampedBy (stampAfter clock stamp c) := by
  cases hmove with
  | readClock =>
    cases hprog
    rfl
  | written => trivial
  | occupied =>
    cases hprog
    exact hstamped
  | stale =>
    cases hprog
    exact hstamped
  | deleted hstage =>
    cases hprog
    rcases hstage with rfl | ⟨e, rfl⟩
    · exact hstamped
    · trivial
  | failed e => trivial

omit [DecidableEq K] in
theorem stampAfter_le (h : LockInv options s) {k : K} (hphase : (s.clients k).phase ≠ .idle)
    (c : Call) : stampAfter s.clock (s.clients k).stamp c ≤ s.clock ∧
      IsI64 (stampAfter s.clock (s.clients k).stamp c) := by
  cases c with
  | unixSeconds => exact ⟨Int.le_refl _, h.clock⟩
  | _ => exact h.stamp k hphase

/-- A call of `acquire` keeps the invariant, if it is no takeover from a holder. -/
theorem lockInv_acquire (h : LockInv options s) {k : K} {c : Call}
    {next : c.Response → AcquireProg} {r : c.Response} {w : World}
    (hphase : (s.clients k).phase = .acquiring (.call c next))
    (hcall : SharedClock host s.clock c s.world r w) (hspares : SparesHolders s (.call k)) :
    LockInv options (s.afterCall k c w (.acquiring (next r))) := by
  obtain ⟨stage, hprog, hstamped⟩ := h.acquiring k _ hphase
  obtain ⟨stage', hprog', hmove⟩ := acquire_step hprog.symm hcall
  have hstamped' := stampedBy_of_move hprog.symm hmove hstamped
  refine lockInv_update h rfl rfl (stampAfter_le h (by simp [hphase]) c) ?_
    ⟨stage', hprog', keyed_of_move hmove⟩ ?_ ?_
  · rintro _ ⟨⟩
    exact ⟨stage', hprog', hstamped'⟩
  · intro hholds
    change Phase.Holds (.acquiring (next r)) at hholds
    rw [hprog'] at hholds
    change ownerAfter _ _ (s.world.store.lookup repositoryLockKey)
      (w.store.lookup repositoryLockKey) = _ ∧ w.store.lookup repositoryLockKey = _
    generalize s.world.store.lookup repositoryLockKey = before at hmove ⊢
    generalize w.store.lookup repositoryLockKey = after at hmove ⊢
    cases hmove with
    | @written _ now _ hstage hresult =>
      refine ⟨rfl, ?_⟩
      rcases hstage with rfl | rfl
      · cases hprog
        exact congrArg _ (congrArg lockBody hstamped)
      · cases hprog
        exact congrArg _ (congrArg lockBody hstamped)
    | readClock => exact hholds.elim
    | occupied => exact hholds.elim
    | stale => exact hholds.elim
    | deleted hstage =>
      rcases hstage with rfl | ⟨e, rfl⟩
      · exact hholds.elim
      · exact hholds.elim
    | failed e => exact hholds.elim
  · intro j hj hholds
    have hblob := (h.holds j hholds).2
    have howner := (h.holds j hholds).1
    change ownerAfter _ _ s.lockBlob (w.store.lookup repositoryLockKey) = _ ∧
      w.store.lookup repositoryLockKey = s.lockBlob
    have hsame : w.store.lookup repositoryLockKey = s.lockBlob ∨ stage'.prog options = next r ∧
        ∃ now, stage = .delete now := by
      change AcquireMove options s.clock stage s.lockBlob stage' _ at hmove
      rw [hblob] at hmove ⊢
      generalize w.store.lookup repositoryLockKey = after at hmove ⊢
      cases hmove with
      | deleted hstage => exact Or.inr ⟨hprog'.symm, _, rfl⟩
      | readClock => exact Or.inl rfl
      | occupied => exact Or.inl rfl
      | stale => exact Or.inl rfl
      | failed e => exact Or.inl rfl
    rcases hsame with hsame | ⟨_, now, rfl⟩
    · rw [hsame]
      exact ⟨ownerAfter_of_eq hblob, rfl⟩
    · cases hprog
      exact absurd howner (hspares ⟨_, _, hphase⟩ j hholds)

/-- So does the call of `release`. -/
theorem lockInv_release (h : LockInv options s) {k : K} {c : Call}
    {next : c.Response → Prog Call.Response (Except BackupError Unit)} {r : c.Response}
    {w : World} (hphase : (s.clients k).phase = .releasing (.call c next)) :
    LockInv options (s.afterCall k c w (.releasing (next r))) := by
  have hholds : (s.clients k).phase.Holds := by
    rw [hphase]
    trivial
  have hformed := h.formed k
  rw [hphase] at hformed
  obtain rfl := hformed.release_call
  have hret := hformed.release_answer r
  refine lockInv_update h rfl rfl (h.stamp k (by simp [hphase])) (by simp)
    (Or.inr ⟨r, hret⟩) ?_ ?_
  · intro hnext
    change Phase.Holds (.releasing (next r)) at hnext
    rw [hret] at hnext
    exact hnext.elim
  · exact fun j hj hj' => absurd (h.exclusive hj' hholds) hj

/-- **Step lemma.** -/
theorem lockInv_step {a : Action K} (h : LockInv options s)
    (hstep : SystemStep host options s a s') (hspares : SparesHolders s a) :
    LockInv options s' := by
  cases hstep with
  | tick hle hnow => exact lockInv_tick h hle hnow
  | start hdone => exact lockInv_start h _
  | acquire hphase hcall => exact lockInv_acquire h hphase hcall hspares
  | startRelease hphase => exact lockInv_startRelease h hphase
  | release hphase hcall => exact lockInv_release h hphase

/-- **Run lemma.** -/
theorem lockInv_run {s₀ : System K} (h₀ : s₀.Initial)
    (hrun : SystemRun host options SparesHolders s₀ s) : LockInv options s := by
  induction hrun with
  | refl => exact lockInv_initial h₀
  | tail _ hstep ih =>
    rcases hstep with ⟨a, hstep, ha⟩
    exact lockInv_step ih hstep ha

/-! ## Holders that release in time -/

/-- Every holder is still within `staleAfterSeconds` of the time it wrote. -/
def Timely (options : RepositoryLockOptions) (s : System K) : Prop :=
  ∀ k, (s.clients k).phase.Holds →
    s.clock ≤ (s.clients k).stamp + options.staleAfterSeconds

/-- If the step is the deletion of a takeover, then the lock in place at that
    moment, if there is one, is stale to the client. -/
def TakesOverStale (options : RepositoryLockOptions) (s : System K) : Action K → Prop
  | .call k => s.TakesOver k → ∀ existing, s.lockBlob = some existing →
      ¬ IsFresh options (s.clients k).stamp existing
  | _ => True

omit [DecidableEq K] in
/-- A holder that is in time is spared by a takeover from a stale lock. -/
theorem sparesHolders_of_stale (h : LockInv options s) {a : Action K} (htimely : Timely options s)
    (hstale : TakesOverStale options s a) : SparesHolders s a := by
  cases a with
  | call k =>
    intro htakes j hj
    obtain ⟨_, _, hphase⟩ := id htakes
    have hstamp := h.stamp k (by simp [hphase])
    have hnotIdle : (s.clients j).phase ≠ .idle := by
      intro hidle
      rw [hidle] at hj
      exact hj
    have hlt := lt_of_not_IsFresh (h.stamp j hnotIdle).2 (hstale htakes _ (h.holds j hj).2)
    exact absurd (htimely j hj) (by omega)
  | tick => trivial
  | start k => trivial
  | release k => trivial

theorem sparesHolders_run {s₀ : System K} (h₀ : s₀.Initial)
    (hrun : SystemRun host options
      (fun s a => Timely options s ∧ TakesOverStale options s a) s₀ s) :
    SystemRun host options SparesHolders s₀ s := by
  induction hrun with
  | refl => exact .refl
  | tail _ hstep ih =>
    rcases hstep with ⟨a, hstep, htimely, hstale⟩
    exact ih.tail ⟨a, hstep, sparesHolders_of_stale (lockInv_run h₀ ih) htimely hstale⟩

/-- **When the lock is mutually exclusive.**  In every run in which every holder
    is in time and every takeover deletes a lock that is still stale, at most one
    client holds the lock. -/
theorem lock_is_exclusive_while_takeovers_are_stale {s₀ : System K} (h₀ : s₀.Initial)
    (hrun : SystemRun host options
      (fun s a => Timely options s ∧ TakesOverStale options s a) s₀ s) :
    ∀ j k, (s.clients j).phase.Holds → (s.clients k).phase.Holds → j = k :=
  fun _ _ => (lockInv_run h₀ (sparesHolders_run h₀ hrun)).exclusive

theorem stamp_update {clients : K → Client} {k : K} {client : Client} {clock : Int}
    (h : ∀ j, (clients j).stamp = clock) (hclient : client.stamp = clock) (j : K) :
    (Function.update clients k client j).stamp = clock := by
  by_cases hj : j = k
  · rw [hj, Function.update_self]
    exact hclient
  · rw [Function.update_of_ne hj]
    exact h j

/-- While the clock stands still, nobody is late. -/
theorem timely_run {allowed : System K → Action K → Prop} {s₀ : System K}
    (hstale : 0 ≤ options.staleAfterSeconds) (h₀ : ∀ k, (s₀.clients k).stamp = s₀.clock)
    (hrun : SystemRun host options (fun s a => Untimed s a ∧ allowed s a) s₀ s) :
    SystemRun host options (fun s a => Timely options s ∧ allowed s a) s₀ s ∧
      (∀ k, (s.clients k).stamp = s.clock) ∧ Timely options s := by
  have htimely : ∀ s : System K, (∀ k, (s.clients k).stamp = s.clock) → Timely options s :=
    fun s h k _ => by rw [h k]; omega
  induction hrun with
  | refl => exact ⟨.refl, h₀, htimely _ h₀⟩
  | @tail s s' _ hstep ih =>
    rcases ih with ⟨hrun, hstamps, hs⟩
    rcases hstep with ⟨a, hstep, huntimed, ha⟩
    have hstamps' : ∀ k, (s'.clients k).stamp = s'.clock := by
      have hafter : ∀ c k, stampAfter s.clock (s.clients k).stamp c = s.clock := fun c k => by
        cases c with
        | unixSeconds => rfl
        | _ => exact hstamps k
      cases hstep with
      | tick => exact absurd rfl huntimed
      | start => exact stamp_update hstamps rfl
      | acquire => exact stamp_update hstamps (hafter _ _)
      | startRelease => exact stamp_update hstamps (hstamps _)
      | release => exact stamp_update hstamps (hafter _ _)
    exact ⟨hrun.tail ⟨a, hstep, hs, ha⟩, hstamps', htimely _ hstamps'⟩

omit [DecidableEq K] in
theorem Quiet.takesOverStale {a : Action K} (h : Quiet s a) : TakesOverStale options s a := by
  cases a with
  | call k => exact fun htakes => absurd htakes (h.2 k rfl)
  | tick => trivial
  | start k => trivial
  | release k => trivial

/-- The clock stands still, and a takeover deletes a stale lock. -/
def StaleTakeovers (options : RepositoryLockOptions) (s : System K) (a : Action K) : Prop :=
  Untimed s a ∧ TakesOverStale options s a

theorem staleTakeovers_of_quiet (h : SystemRun host options Quiet s s') :
    SystemRun host options (StaleTakeovers options) s s' :=
  SystemRun.mono_allowed h fun _ _ ha => ⟨ha.1, ha.takesOverStale⟩

/-- A client that still finds the lock stale when it deletes it. -/
theorem staleTakeovers_takeOver {k : K} {attempts : Nat}
    (hclient : s.clients k = .at options attempts s.clock (.delete s.clock))
    (hstale : ∀ existing, s.lockBlob = some existing → ¬ IsFresh options s.clock existing) :
    SystemRun host options (StaleTakeovers options) s (s.takenOver options k attempts) := by
  have hfree : (s.deleted options k attempts).lockBlob = none :=
    (Store.lookup_deleteBlob _ _ _).trans (if_pos rfl)
  refine .head ⟨.call k, (steps_takeOver hclient).1, nofun, fun _ existing hblob => ?_⟩
    (.single ⟨.call k, (steps_takeOver hclient).2, nofun, fun _ existing hblob => ?_⟩)
  · rw [hclient]
    exact hstale existing hblob
  · rw [hfree] at hblob
    cases hblob

/-- An application that answers nothing. -/
def idleHost : Host where
  database := {
    schemaSnapshot := .error (.database "idle")
    restoreTargetIsEmpty := .error (.database "idle")
    exportFull := .error (.database "idle")
    exportIncremental := fun _ => .error (.database "idle")
    restore := fun _ => .error (.database "idle") }
  objects := {
    listObjectsForFullBackup := .error (.database "idle")
    listObjectsForIncrementalBackup := fun _ => .error (.database "idle")
    loadObjectStream := fun _ _ => False }

/-- Two clients, and a lock that was written at 0 and never released. -/
def abandonedLock : System Bool where
  world := ⟨(∅ : Store).putBlob repositoryLockKey (lockBody 0), [], []⟩
  clock := 10000
  owner := none
  clients := fun _ => ⟨0, 10000, .idle⟩

theorem abandonedLock_initial : abandonedLock.Initial := ⟨by decide, fun _ => rfl⟩

theorem lockBlob_abandonedLock : abandonedLock.lockBlob = some (lockBody 0) :=
  Store.lookup_putBlob_self _ _ _

theorem not_isFresh_abandonedLock : ¬ IsFresh .default abandonedLock.clock (lockBody 0) := by
  rw [IsFresh, lockedAt_lockBody 0 (by decide)]
  decide

/-- Both clients have found the abandoned lock, and the first is about to delete it. -/
def bothFound : System Bool :=
  (abandonedLock.set true (.at .default 1 10000 (.inspect 10000))).set false
    (.at .default 1 10000 (.delete 10000))

/-- Both clients find the lock in place, one takes it over, and the other then
    looks at the lock that has come in its place. -/
theorem exists_run_contended : ∃ s,
    SystemRun idleHost .default (StaleTakeovers .default) abandonedLock s ∧
      (s.clients false).phase = .acquiring (.ret (.ok ⟨repositoryLockKey⟩)) ∧
      (s.clients true).phase = .acquiring (.ret (.error (.repositoryLocked repositoryLockKey))) ∧
      s.lockBlob = some (lockBody s.clock) ∧ s.owner = some (false, 1) := by
  have hfind : SystemRun idleHost .default (StaleTakeovers .default) abandonedLock bothFound :=
    staleTakeovers_of_quiet
      ((run_findLock (s := abandonedLock) (k := true) trivial lockBlob_abandonedLock).trans
        (run_findStale (k := false) trivial lockBlob_abandonedLock not_isFresh_abandonedLock))
  have htake := hfind.trans (staleTakeovers_takeOver (s := bothFound) (k := false)
    rfl fun existing hblob => by
      cases lockBlob_abandonedLock.symm.trans hblob
      exact not_isFresh_abandonedLock)
  have hclient : (bothFound.takenOver .default false 1).clients true =
      .at .default 1 10000 (.inspect 10000) := rfl
  have hblob : (bothFound.takenOver .default false 1).lockBlob = some (lockBody 10000) :=
    Store.lookup_putBlob_self _ _ _
  have hfresh : IsFresh .default 10000 (lockBody 10000) := by
    rw [IsFresh, lockedAt_lockBody 10000 (by decide)]
    decide
  have hlook := step_inspect idleHost hclient hblob (.done (.error _))
    (congrArg ExceptT.run (if_pos hfresh))
  have hquiet : Quiet _ (.call true) := not_takesOver (c := .view) hclient rfl (by rintro _ ⟨⟩)
  refine ⟨_, htake.tail ⟨.call true, hlook, hquiet.1, hquiet.takesOverStale⟩, rfl, rfl, hblob, ?_⟩
  change ownerAfter (true, 1) (some (false, 1)) (bothFound.takenOver .default false 1).lockBlob
    (bothFound.takenOver .default false 1).lockBlob = _
  exact ownerAfter_of_eq hblob

theorem holder_is_alone : ∃ s : System Bool,
    SystemRun idleHost .default
      (fun s a => Timely .default s ∧ TakesOverStale .default s a) abandonedLock s ∧
    (s.clients false).phase.Holds ∧
    (s.clients true).phase = .acquiring (.ret (.error (.repositoryLocked repositoryLockKey))) ∧
    ∀ j k, (s.clients j).phase.Holds → (s.clients k).phase.Holds → j = k := by
  obtain ⟨s, hrun, hfalse, htrue, -, -⟩ := exists_run_contended
  have htimely := (timely_run (by decide) (fun _ => rfl) hrun).1
  refine ⟨s, htimely, by rw [hfalse]; trivial, htrue, ?_⟩
  exact lock_is_exclusive_while_takeovers_are_stale abandonedLock_initial htimely

/-- The lock of the second client, which it has just written, is deleted by the
    first, which found the lock of an earlier client stale: both hold it. -/
theorem two_clients_take_over : abandonedLock.Initial ∧ ∃ s,
    SystemRun idleHost .default (fun s _ => Timely .default s) abandonedLock s ∧
      Timely .default s ∧ (s.clients false).phase.Holds ∧ (s.clients true).phase.Holds := by
  have hfind : SystemRun idleHost .default Quiet abandonedLock _ :=
    (run_findStale (s := abandonedLock) (k := false) trivial lockBlob_abandonedLock
      not_isFresh_abandonedLock).trans (run_findStale (k := true) trivial lockBlob_abandonedLock not_isFresh_abandonedLock)
  have htake₁ := (SystemRun.mono_allowed hfind fun _ _ ha => ha.1).trans
    (run_takeOver (k := true) rfl)
  have htake₂ := htake₁.trans (run_takeOver (k := false) rfl)
  obtain ⟨hrun, _, htimely⟩ := timely_run (by decide) (fun _ => rfl)
    (SystemRun.mono_allowed htake₂ fun _ _ ha => ⟨ha, trivial⟩)
  exact ⟨abandonedLock_initial, _, SystemRun.mono_allowed hrun fun _ _ ha => ha.1, htimely,
    trivial, trivial⟩

/-! ## What a release removes -/

/-- In every run, whoever owns the lock: the call of a release deletes the lock
    blob, with success unless the repository is at fault, and leaves the other
    clients where they are. -/
theorem release_removes_any_lock {allowed : System K → Action K → Prop} {s₀ : System K}
    (h₀ : s₀.Initial) (hrun : SystemRun host options allowed s₀ s) {k : K} {c : Call}
    {next : c.Response → Prog Call.Response (Except BackupError Unit)}
    (hphase : (s.clients k).phase = .releasing (.call c next)) :
    c = .deleteBlob repositoryLockKey ∧
      (∃ s', SystemStep host options s (.call k) s' ∧ s'.lockBlob = none) ∧
      ∀ s', SystemStep host options s (.call k) s' →
        (s'.lockBlob = none ∨
          s'.world = s.world ∧ ∃ e, (s'.clients k).phase = .releasing (.ret (.error e))) ∧
        ∀ j, j ≠ k → s'.clients j = s.clients j := by
  have hformed := formed_run h₀ hrun k
  rw [hphase] at hformed
  obtain rfl := hformed.release_call
  have hdelete : SharedClock host s.clock (.deleteBlob repositoryLockKey) s.world (.ok ())
      (s.world.withStore (s.world.store.deleteBlob repositoryLockKey)) := Or.inl ⟨rfl, rfl⟩
  refine ⟨rfl, ⟨_, .release hphase hdelete, ?_⟩, fun s' hstep => ?_⟩
  · exact (Store.lookup_deleteBlob _ _ _).trans (if_pos rfl)
  · cases hstep with
    | acquire hphase' hcall =>
      rw [hphase] at hphase'
      cases hphase'
    | @release _ c next' r w hphase' hcall =>
      rw [hphase] at hphase'
      cases hphase'
      refine ⟨?_, fun j hj => Function.update_of_ne hj _ _⟩
      rcases sharedClock_deleteBlob hcall with hfree | ⟨e, rfl, rfl⟩
      · exact Or.inl hfree
      · refine Or.inr ⟨rfl, e, ?_⟩
        simp [System.afterCall, hformed.release_answer]

/-- So a holder whose lock another client has taken over removes the lock that
    the other one holds. -/
theorem late_release_removes_holders_lock {allowed : System K → Action K → Prop} {s₀ : System K}
    (h₀ : s₀.Initial) (hrun : SystemRun host options allowed s₀ s) {j k : K} {c : Call}
    {next : c.Response → Prog Call.Response (Except BackupError Unit)}
    (hphase : (s.clients k).phase = .releasing (.call c next)) (hj : j ≠ k)
    (hholds : (s.clients j).phase.Holds) :
    ∃ s', SystemStep host options s (.call k) s' ∧ s'.lockBlob = none ∧
      (s'.clients j).phase.Holds := by
  obtain ⟨-, ⟨s', hstep, hfree⟩, hall⟩ := release_removes_any_lock h₀ hrun hphase
  refine ⟨s', hstep, hfree, ?_⟩
  rw [(hall s' hstep).2 j hj]
  exact hholds

/-- **Release.**  The call of a release removes whatever lock blob is in place,
    and in every run in which no takeover has deleted the lock of a holder, that
    is the blob which the matching `acquire` wrote. -/
theorem release_removes_own_lock {s₀ : System K} (h₀ : s₀.Initial)
    (hrun : SystemRun host options SparesHolders s₀ s) {k : K} {c : Call}
    {next : c.Response → Prog Call.Response (Except BackupError Unit)}
    (hphase : (s.clients k).phase = .releasing (.call c next)) :
    c = .deleteBlob repositoryLockKey ∧ s.owner = some (k, (s.clients k).attempts) ∧
      s.lockBlob = some (lockBody (s.clients k).stamp) := by
  have hholds : (s.clients k).phase.Holds := by
    rw [hphase]
    trivial
  exact ⟨(release_removes_any_lock h₀ hrun hphase).1, (lockInv_run h₀ hrun).holds k hholds⟩

theorem release_of_holder : ∃ (s s' : System Bool)
    (next : (Call.deleteBlob repositoryLockKey).Response →
      Prog Call.Response (Except BackupError Unit)),
    SystemRun idleHost .default SparesHolders abandonedLock s ∧
    (s.clients false).phase = .releasing (.call (.deleteBlob repositoryLockKey) next) ∧
    (s.clients true).phase = .acquiring (.ret (.error (.repositoryLocked repositoryLockKey))) ∧
    s.owner = some (false, (s.clients false).attempts) ∧
    s.lockBlob = some (lockBody (s.clients false).stamp) ∧
    SystemStep idleHost .default s (.call false) s' ∧ s'.lockBlob = none := by
  obtain ⟨s, hrun, hfalse, htrue, hblob, -⟩ := exists_run_contended
  obtain ⟨s₁, next, s₂, hstart, hphase, -, hstep, hfree, hothers⟩ :=
    exists_steps_release idleHost .default hfalse
  have hspares := sparesHolders_run abandonedLock_initial
    (timely_run (by decide) (fun _ => rfl) hrun).1
  have hown := release_removes_own_lock abandonedLock_initial
    (hspares.tail ⟨.release false, hstart, trivial⟩) hphase
  refine ⟨s₁, s₂, next, hspares.tail ⟨.release false, hstart, trivial⟩, hphase, ?_, hown.2.1,
    hown.2.2, hstep, hfree⟩
  rw [(hothers true (by decide)).1]
  exact htrue

/-- A holder that has run for longer than the lock counts as fresh releases the
    lock that another client has taken over from it, and still holds. -/
theorem late_release_removes_other_lock : abandonedLock.Initial ∧ ∃ s next s',
    SystemRun idleHost .default (fun _ _ => True) abandonedLock s ∧
      (s.clients false).phase = .releasing (.call (.deleteBlob repositoryLockKey) next) ∧
      s.owner = some (true, 1) ∧ (s.clients true).phase.Holds ∧
      SystemStep idleHost .default s (.call false) s' ∧ s'.lockBlob = none ∧
      (s'.clients true).phase.Holds := by
  have hblob : abandonedLock.lockBlob = some (lockBody 0) := Store.lookup_putBlob_self _ _ _
  have hstale : ∀ now written, IsI64 written → 3600 < saturatingSub now written →
      ¬ IsFresh .default now (lockBody written) := by
    intro now written hwritten h
    rw [IsFresh, lockedAt_lockBody written hwritten]
    exact Int.not_le.mpr h
  obtain ⟨s₁, hrun₁, hclock₁, hblob₁, _, hclients₁⟩ := exists_run_takeOver idleHost .default
    (s := abandonedLock) (k := false) trivial hblob (hstale _ _ (by decide) (by decide))
  -- the clock moves on by more than an hour
  have htick : SystemStep idleHost .default s₁ .tick { s₁ with clock := 20000 } :=
    .tick (by rw [hclock₁]; decide) (by decide)
  have hdone : (s₁.clients true).phase.Done := by
    simp [hclients₁, abandonedLock, Phase.Done]
  obtain ⟨s₂, hrun₂, _, _, howner₂, hclients₂⟩ := exists_run_takeOver idleHost .default
    (s := { s₁ with clock := 20000 }) (k := true) hdone hblob₁
    (hstale 20000 10000 (by decide) (by decide))
  have hfalse : (s₂.clients false).phase = .acquiring (.ret (.ok ⟨repositoryLockKey⟩)) := by
    simp only [hclients₂, hclients₁, Function.update_of_ne Bool.false_ne_true,
      Function.update_self]
    rfl
  have htrue : (s₂.clients true).phase.Holds := by
    rw [hclients₂, Function.update_self]
    trivial
  have howner : s₂.owner = some (true, 1) := by
    rw [howner₂, hclients₁]
    rfl
  obtain ⟨s₃, next, s₄, hstart, hphase, howner₃, hstep, hblob₄, hothers⟩ :=
    exists_steps_release idleHost .default hfalse
  refine ⟨⟨by decide, fun _ => rfl⟩, s₃, next, s₄, ?_, hphase, howner₃.trans howner, ?_, hstep,
    hblob₄, ?_⟩
  · have hfirst := (SystemRun.mono_allowed hrun₁ fun _ _ _ => trivial).tail
      ⟨.tick, htick, trivial⟩
    have hsecond := hfirst.trans (SystemRun.mono_allowed hrun₂ fun _ _ _ => trivial)
    exact hsecond.tail ⟨.release false, hstart, trivial⟩
  · rw [(hothers true (by decide)).1]
    exact htrue
  · rw [(hothers true (by decide)).2]
    exact htrue

end GraphqlOrmBackup
