import GraphqlOrmBackup.BackupHistories
import GraphqlOrmBackup.WriterClients

/-!
# A client that takes its turn

While the others rest, a client that finds no lock in place gets it, does its
work and gives the lock back: the clients can always take turns.  The others may
have begun before, and may have read the clock.
-/

namespace GraphqlOrmBackup

open Interaction

section Codec

variable [Crates] {K : Type} [DecidableEq K]

/-- `P` admits every step by which no lock is taken from a client that has it, and
    by which no operation gets to its work that is not in `J`. -/
def Admits (P : Fleet K → FleetAction K → Prop) (J : Job → Prop) : Prop :=
  ∀ s a, s.Spares a →
    (∀ k job rest, a = .enter k → s.phases k = .acquiring job rest → J job) → P s a

variable {P : Fleet K → FleetAction K → Prop} {J : Job → Prop} {s₀ s s' : Fleet K}
  {log : List (K × Progress)} {k : K} {job : Job} {w w' : World}

omit [Crates] [DecidableEq K] in
theorem Admits.of_spares {a : FleetAction K} (h : Admits P J) (hspares : s.Spares a)
    (ha : ∀ k, a ≠ .enter k) : P s a :=
  h s a hspares fun k _ _ heq => absurd heq (ha k)

omit [Crates] [DecidableEq K] in
theorem Admits.call {c : Call} {next : c.Response → AcquireProg} (h : Admits P J)
    (hphase : s.phases k = .acquiring job (.call c next)) (hc : ∀ key, c ≠ .deleteBlob key) :
    P s (.call k) := by
  refine h.of_spares ?_ fun _ => nofun
  rintro ⟨job', key, next', hphase'⟩
  cases hphase.symm.trans hphase'
  exact absurd rfl (hc key)

omit [DecidableEq K] in
theorem Admits.call_of_entered {progress : Progress} (h : Admits P J)
    (hentered : (s.phases k).entered = some progress) : P s (.call k) := by
  refine h.of_spares ?_ fun _ => nofun
  rintro ⟨job', key, next', hphase⟩
  rw [hphase] at hentered
  cases hentered

/-! ## Moves -/

omit [Crates] in
theorem Fleet.set_afterCall (s : Fleet K) (k : K) (w : World) (phase phase' : WriterPhase) :
    (s.set k phase).afterCall k w phase' = s.afterCall k w phase' := by
  simp only [Fleet.set, Fleet.afterCall, Function.update_idem]

omit [Crates] in
theorem Fleet.afterCall_set (s : Fleet K) (k : K) (w : World) (phase phase' : WriterPhase) :
    (s.afterCall k w phase).set k phase' = s.afterCall k w phase' := by
  simp only [Fleet.set, Fleet.afterCall, Function.update_idem]

omit [Crates] in
theorem Fleet.afterCall_afterCall (s : Fleet K) (k : K) (w w' : World)
    (phase phase' : WriterPhase) :
    (s.afterCall k w phase).afterCall k w' phase' = s.afterCall k w' phase' := by
  simp only [Fleet.afterCall, Function.update_idem]

omit [Crates] in
@[simp] theorem Fleet.set_phases_self (s : Fleet K) (k : K) (phase : WriterPhase) :
    (s.set k phase).phases k = phase :=
  Function.update_self _ _ _

omit [Crates] in
@[simp] theorem Fleet.afterCall_phases_self (s : Fleet K) (k : K) (w : World)
    (phase : WriterPhase) : (s.afterCall k w phase).phases k = phase :=
  Function.update_self _ _ _

omit [Crates] in
theorem Fleet.afterCall_self {phase : WriterPhase} (h : s.phases k = phase) :
    s.afterCall k s.world phase = s := by
  subst h
  rw [Fleet.afterCall, Function.update_eq_self]

/-- A step of the client, and what it makes of the log. -/
theorem LoggedRun.move {a : FleetAction K} {before after : Option Progress}
    (h : LoggedRun P s₀ log s) (hstep : FleetStep SharedClock s a s') (ha : P s a)
    (hclient : a.client = some k) (hbefore : (s.phases k).entered = before)
    (hafter : (s'.phases k).entered = after) :
    LoggedRun P s₀ (logChange k log before after) s' := by
  have hlog : a.log s s' log = logChange k log before after := by
    rw [FleetAction.log, hclient]
    simp only [hbefore, hafter]
  exact hlog ▸ h.step hstep ha

/-- A step by which the client gets or keeps no lock leaves the log as it is. -/
theorem LoggedRun.moveOutside {a : FleetAction K} (h : LoggedRun P s₀ log s)
    (hstep : FleetStep SharedClock s a s') (ha : P s a) (hclient : a.client = some k)
    (hafter : (s'.phases k).entered = none) : LoggedRun P s₀ log s' := by
  have hmoved := h.move hstep ha hclient rfl hafter
  rwa [logChange_none] at hmoved

/-- A step of the client whose operation is the last of the log. -/
theorem LoggedRun.moveOn {a : FleetAction K} {progress progress' : Progress}
    (h : LoggedRun P s₀ (log ++ [(k, progress)]) s) (hstep : FleetStep SharedClock s a s')
    (ha : P s a) (hclient : a.client = some k) (hbefore : (s.phases k).entered = some progress)
    (hafter : (s'.phases k).entered = some progress') :
    LoggedRun P s₀ (log ++ [(k, progress')]) s' := by
  have hmoved := h.move hstep ha hclient hbefore hafter
  rwa [logChange, replaceLast_append] at hmoved

/-! ## A client alone -/

omit [Crates] in
/-- Alone, a client that finds no lock gets it, at any time. -/
theorem reaches_acquired {host : Host} {options : RepositoryLockOptions}
    (hfree : w.store.lookup repositoryLockKey = none) {now : Int} (hnow : IsI64 now) :
    Reaches host.MayFail w (RepositoryLock.acquire options).run (w.lockedBy now)
      (.ret (.ok ⟨repositoryLockKey⟩)) := by
  have hclock : host.Answers .unixSeconds w (.ok now) w := ⟨⟨now, hnow, rfl⟩, rfl⟩
  have hput : host.Answers (.putBlobStreamIfAbsent repositoryLockKey (.ok (lockBody now))) w
      (.ok true) (w.lockedBy now) := by
    refine ⟨_, ?_, rfl⟩
    unfold PutsIfAbsent
    rw [hfree]
    exact ⟨rfl, rfl⟩
  exact Reaches.head hclock.mayFail (Reaches.head hput.mayFail (Reaches.refl _ _))

/-- An operation stops in its work. -/
theorem Operation.takes_of_work {host : Host} {operation : Operation}
    (hfree : w.store.lookup repositoryLockKey = none) {now : Int} (hnow : IsI64 now)
    {rest : Prog Call.Response (Except BackupError operation.Result)}
    (hwork : Reaches host.MayFail (w.lockedBy now) operation.work.run w' rest) :
    operation.Takes host w w' := by
  have hrun : Reaches host.MayFail (w.lockedBy now)
      (underLock ⟨repositoryLockKey⟩ operation.work.run) w' (underLock ⟨repositoryLockKey⟩ rest) :=
    Reaches.bind (Reaches.bind hwork _) _
  refine ⟨underLock ⟨repositoryLockKey⟩ rest, ?_⟩
  rw [operation.run_eq]
  exact (Reaches.bind (reaches_acquired hfree hnow) _).trans hrun

/-- Lock options under which every lock is stale to a client that reads the time
    it was written. -/
def impatient : RepositoryLockOptions := ⟨-1, by decide⟩

omit [Crates] in
theorem exists_not_isFresh (existing : Bytes) :
    ∃ now, IsI64 now ∧ ¬ IsFresh impatient now existing := by
  have hstale : ∀ now, lockedAt now existing = now → ¬ IsFresh impatient now existing := by
    intro now hnow
    rw [IsFresh, hnow, saturatingSub, Int.sub_self]
    decide
  cases hparse : (Text.fromUtf8? existing).bind parseI64 with
  | none => exact ⟨0, by decide, hstale 0 (by rw [lockedAt, hparse]; rfl)⟩
  | some written =>
    refine ⟨written, ?_, hstale written (by rw [lockedAt, hparse]; rfl)⟩
    obtain ⟨value, -, hvalue⟩ := Option.bind_eq_some_iff.mp hparse
    obtain ⟨n, -, hn⟩ := Option.bind_eq_some_iff.mp hvalue
    split at hn
    · next hrange =>
      obtain rfl := Option.some.inj hn
      exact hrange
    · cases hn

omit [Crates] in
/-- A client to which the lock is stale deletes it. -/
theorem reaches_unlocked {host : Host} {options : RepositoryLockOptions} {existing : Bytes}
    (hlookup : w.store.lookup repositoryLockKey = some existing) {now : Int} (hnow : IsI64 now)
    (hstale : ¬ IsFresh options now existing) : ∃ rest,
      Reaches host.MayFail w (RepositoryLock.acquire options).run w.unlocked rest := by
  have hclock : host.Answers .unixSeconds w (.ok now) w := ⟨⟨now, hnow, rfl⟩, rfl⟩
  have hput : host.Answers (.putBlobStreamIfAbsent repositoryLockKey (.ok (lockBody now))) w
      (.ok false) w := by
    refine ⟨_, ?_, rfl⟩
    unfold PutsIfAbsent
    rw [hlookup]
    exact ⟨rfl, rfl⟩
  have hview : host.Answers .view w (.ok w.store) w := ⟨rfl, rfl⟩
  have hinspect : (do
      let existing ← Fallible.ofExcept (w.store.getBlob repositoryLockKey)
      if IsFresh options now existing then repositoryLocked
      else RepositoryLock.takeOver now : BackupM RepositoryLock).run =
      (RepositoryLock.takeOver now).run := by
    rw [Store.getBlob_eq_ok.mpr hlookup]
    exact congrArg ExceptT.run (if_neg hstale)
  have hdelete : host.Answers (.deleteBlob repositoryLockKey) w (.ok ()) w.unlocked := ⟨rfl, rfl⟩
  have htakeOver : Reaches host.MayFail w (RepositoryLock.takeOver now).run w.unlocked _ :=
    Reaches.head hdelete.mayFail (Reaches.refl _ _)
  exact ⟨_, Reaches.head hclock.mayFail (Reaches.head hput.mayFail
    (Reaches.head hview.mayFail (hinspect ▸ htakeOver)))⟩

/-- A lock that was left in place can be removed. -/
theorem ReachableRepository.unlocked (h : ReachableRepository w) (host : Host) :
    ReachableRepository w.unlocked := by
  cases hlookup : w.store.lookup repositoryLockKey with
  | none => rwa [World.unlocked_of_free hlookup]
  | some existing =>
    obtain ⟨now, hnow, hstale⟩ := exists_not_isFresh existing
    obtain ⟨rest, hrun⟩ := reaches_unlocked hlookup hnow hstale
    have htakes : Operation.Takes host (.deleteSnapshot ⟨Vector.replicate 16 0⟩ impatient) w
        w.unlocked := ⟨_, Reaches.bind hrun _⟩
    exact h.takes htakes

/-! ## The turn of a client -/

/-- The client begins, and reads the clock. -/
theorem LoggedRun.begins (hP : Admits P J) (h : LoggedRun P s₀ log s)
    (hdone : (s.phases k).Done) (job : Job) :
    LoggedRun P s₀ log (s.afterCall k s.world
      (.acquiring job (RepositoryLock.acquireAt job.operation.lockOptions s.clock).run)) := by
  have hstart : FleetStep SharedClock s (.start k) (s.set k
      (.acquiring job (RepositoryLock.acquire job.operation.lockOptions).run)) := .start hdone
  have hphase : (s.set k
      (.acquiring job (RepositoryLock.acquire job.operation.lockOptions).run)).phases k =
      .acquiring job (RepositoryLock.acquire job.operation.lockOptions).run :=
    Fleet.set_phases_self _ _ _
  have hbegun := h.moveOutside hstart (hP.of_spares trivial fun _ => nofun) rfl (by rw [hphase]; rfl)
  have hclock : SharedClock job.host s.clock .unixSeconds s.world (.ok s.clock) s.world :=
    ⟨rfl, rfl⟩
  have hread := hbegun.moveOutside (.acquire hphase hclock) (hP.call hphase nofun) rfl
    (by rw [Fleet.afterCall_phases_self]; rfl)
  rwa [Fleet.set_afterCall] at hread

/-- The client finds no lock, and writes its own. -/
theorem LoggedRun.acquires (hP : Admits P J) (h : LoggedRun P s₀ log s)
    (hphase : s.phases k =
      .acquiring job (RepositoryLock.acquireAt job.operation.lockOptions s.clock).run)
    (hfree : s.lockBlob = none) :
    LoggedRun P s₀ (log ++ [(k, ⟨job, underLock ⟨repositoryLockKey⟩ job.operation.work.run⟩)])
      (s.afterCall k (s.world.lockedBy s.clock)
        (.acquiring job (.ret (.ok ⟨repositoryLockKey⟩)))) := by
  have hput : SharedClock job.host s.clock (.putBlobStreamIfAbsent repositoryLockKey
      (.ok (lockBody s.clock))) s.world (.ok true) (s.world.lockedBy s.clock) := by
    refine Or.inl ⟨_, ?_, rfl⟩
    unfold PutsIfAbsent
    rw [show s.world.store.lookup repositoryLockKey = none from hfree]
    exact ⟨rfl, rfl⟩
  have hnone : (s.phases k).entered = none := by
    rw [hphase]
    rfl
  exact h.move (.acquire hphase hput) (hP.call hphase nofun) rfl hnone
    (congrArg WriterPhase.entered (Fleet.afterCall_phases_self _ _ _ _))

/-- The client works on. -/
theorem LoggedRun.works (hP : Admits P J) {lock : RepositoryLock}
    {rest rest' : Prog Call.Response job.Outcome}
    (h : LoggedRun P s₀ (log ++ [(k, ⟨job, underLock lock rest⟩)]) s)
    (hphase : s.phases k = .working job lock rest)
    (hrun : Reaches (SharedClock job.host s.clock) s.world rest w rest') :
    LoggedRun P s₀ (log ++ [(k, ⟨job, underLock lock rest'⟩)])
      (s.afterCall k w (.working job lock rest')) := by
  induction rest generalizing s with
  | ret r =>
    obtain ⟨rfl, rfl⟩ := hrun.cases_ret
    rwa [Fleet.afterCall_self hphase]
  | call c next ih =>
    rcases hrun.cases_call with ⟨rfl, rfl⟩ | ⟨r, w₁, hcall, hrest⟩
    · rwa [Fleet.afterCall_self hphase]
    · have hentered : (s.phases k).entered = some ⟨job, underLock lock (.call c next)⟩ := by
        rw [hphase]
        rfl
      have hmoved := h.moveOn (.work hphase hcall) (hP.call_of_entered hentered) rfl hentered
        (by rw [Fleet.afterCall_phases_self]; rfl)
      have hdone := ih r hmoved (Fleet.afterCall_phases_self _ _ _ _) hrest
      rwa [Fleet.afterCall_afterCall] at hdone

omit [Crates] in
/-- The works do not ask for the time. -/
theorem admitsWorks_untimed [Crates] :
    AdmitsWorks (fun _ _ => True) fun c : Call => c ≠ .unixSeconds where
  asks c hc := by
    rintro rfl
    exact hc.elim
  put _ _ _ _ := nofun
  object _ _ _ := nofun
  discard _ := nofun
  deleteSnapshot _ _ _ _ _ := nofun
  deleteObjects _ _ _ _ := nofun

/-- So they run under any clock. -/
theorem Operation.reaches_sharedClock {host : Host} {operation : Operation} {clock : Int}
    {rest : Prog Call.Response (Except BackupError operation.Result)}
    (h : Reaches host.Answers w operation.work.run w' rest) :
    Reaches (SharedClock host clock) w operation.work.run w' rest := by
  refine Prog.Within.reaches (admitsWorks_untimed.work operation) (fun c s r s' hc hans => ?_) h
  refine ⟨trivial, ?_⟩
  cases c with
  | unixSeconds => exact absurd rfl hc
  | _ => exact hans.mayFail

/-- The client that has got the lock gets to its work. -/
theorem LoggedRun.enters (hP : Admits P J) (hJ : J job) {lock : RepositoryLock}
    (h : LoggedRun P s₀ (log ++ [(k, ⟨job, underLock lock job.operation.work.run⟩)]) s)
    (hphase : s.phases k = .acquiring job (.ret (.ok lock))) :
    LoggedRun P s₀ (log ++ [(k, ⟨job, underLock lock job.operation.work.run⟩)])
      (s.set k (.working job lock job.operation.work.run)) := by
  have hadmitted : P s (.enter k) := by
    refine hP s _ trivial ?_
    rintro j job' rest ⟨⟩ hj
    cases hphase.symm.trans hj
    exact hJ
  exact h.moveOn (.enter hphase) hadmitted rfl (by rw [hphase]; rfl)
    (by rw [Fleet.set_phases_self]; rfl)

/-- The client that has done its work gives the lock back. -/
theorem LoggedRun.releases (hP : Admits P J) {result : job.Outcome}
    (h : LoggedRun P s₀ (log ++ [(k, ⟨job, underLock ⟨repositoryLockKey⟩ (.ret result)⟩)]) s)
    (hphase : s.phases k = .working job ⟨repositoryLockKey⟩ (.ret result)) :
    LoggedRun P s₀ (log ++ [(k, ⟨job, .ret result⟩)])
      (s.afterCall k s.world.unlocked (.releasing job result (.ret (.ok ())))) := by
  have hleft := h.moveOn (.leave hphase) (hP.of_spares trivial fun _ => nofun) rfl
    (by rw [hphase]; rfl) (by rw [Fleet.set_phases_self]; rfl)
  have hreleasing : (s.set k (.releasing job result
      (RepositoryLock.release ⟨repositoryLockKey⟩).run)).phases k =
      .releasing job result (RepositoryLock.release ⟨repositoryLockKey⟩).run :=
    Fleet.set_phases_self _ _ _
  have hentered : ((s.set k (.releasing job result
      (RepositoryLock.release ⟨repositoryLockKey⟩).run)).phases k).entered =
      some ⟨job, afterWork result (RepositoryLock.release ⟨repositoryLockKey⟩).run⟩ := by
    rw [hreleasing]
    rfl
  have hdelete : SharedClock job.host s.clock (.deleteBlob repositoryLockKey) s.world (.ok ())
      s.world.unlocked := Or.inl ⟨rfl, rfl⟩
  have hafter : (WriterPhase.releasing job result (.ret (.ok ()))).entered =
      some ⟨job, .ret result⟩ := by
    cases result <;> rfl
  have hreleased := hleft.moveOn (.release hreleasing hdelete) (hP.call_of_entered hentered) rfl
    hentered ((congrArg _ (Fleet.afterCall_phases_self _ _ _ _)).trans hafter)
  rwa [Fleet.set_afterCall] at hreleased

/-- **The turn of a client.**  It finds no lock, does its work, and gives the lock
    back. -/
theorem LoggedRun.completes (hP : Admits P J) (hJ : J job) (h : LoggedRun P s₀ log s)
    (hphase : s.phases k =
      .acquiring job (RepositoryLock.acquireAt job.operation.lockOptions s.clock).run)
    (hfree : s.lockBlob = none) {result : job.Outcome}
    (hwork : Returns job.host.Answers (s.world.lockedBy s.clock) job.operation.work.run result w) :
    LoggedRun P s₀ (log ++ [(k, ⟨job, .ret result⟩)])
      (s.afterCall k w.unlocked (.releasing job result (.ret (.ok ())))) := by
  have hacquired := h.acquires hP hphase hfree
  have hentered := hacquired.enters hP hJ (Fleet.afterCall_phases_self _ _ _ _)
  rw [Fleet.afterCall_set] at hentered
  have hworked := hentered.works hP (Fleet.afterCall_phases_self _ _ _ _)
    (Operation.reaches_sharedClock hwork)
  rw [Fleet.afterCall_afterCall] at hworked
  have hreleased := hworked.releases hP (Fleet.afterCall_phases_self _ _ _ _)
  rwa [Fleet.afterCall_afterCall] at hreleased

end Codec

/-! ## A backup and a deletion -/

section TwoWriters

open Reference

/-- Two clients of a repository. -/
def twoWriters (w : World) : Fleet Bool := ⟨w, 10000, fun _ => .idle⟩

theorem twoWriters_initial (w : World) : (twoWriters w).Initial :=
  ⟨(by decide : IsI64 10000), fun _ => rfl⟩

/-- One backs up what has been deleted since the first backup. -/
def backupJob : Job where
  host := database [] journal
  operation := .createIncrementalBackup [] (incrementalRequest (uuid 2) (uuid 1)) options

/-- The other one deletes a snapshot. -/
def deletionJob (byte : UInt8) : Job := ⟨database [] [], .deleteSnapshot (uuid byte) .default⟩

def TurnJob (job : Job) : Prop := job = backupJob ∨ job = deletionJob 2

/-- The repository after the first full backup. -/
def backedUpWorld : World := fullRun.2.unlocked

theorem backedUpWorld_free : backedUpWorld.store.lookup repositoryLockKey = none :=
  Store.lookup_deleteBlob_self _ _

theorem reachable_fullRun : ReachableRepository fullRun.2 := by
  rcases returns_fullRun with ⟨_, hfull⟩
  have htakes : (Operation.createFullBackup [] (fullRequest (uuid 1)) options).Takes
      (database [notes] []) emptyWorld fullRun.2 := ⟨_, hfull⟩
  exact (ReachableRepository.empty rfl).takes htakes

theorem intact_backedUpWorld : ∃ root, Intact backedUpWorld.store (uuid 1) [root] ∧
    root.snapshotId = uuid 1 := by
  rcases intact_fullRun with ⟨root, hintact, hroot⟩
  have hw := (reachable_fullRun.tidy manifestsReadBack).crateWritten
  exact ⟨root, hintact.of_sameButLock hw (World.sameButLock_unlocked _), hroot⟩

/-- What the work of the backup comes to. -/
def backupWork : Except BackupError IncrementalBackupResult × World :=
  runDatabase [] journal
    (createIncrementalBackupInner [] (incrementalRequest (uuid 2) (uuid 1)) options)
    (backedUpWorld.lockedBy 10000)

theorem returns_backupWork : ∃ result, Returns backupJob.host.Answers
    (backedUpWorld.lockedBy 10000) backupJob.operation.work.run (.ok result) backupWork.2 :=
  returns_runDatabase (by decide +kernel)

/-- Every manifest of the repository loads, and has not the snapshot of the backup for
    its parent. -/
def NoChildren (s : Store) : Prop :=
  ∀ x, manifestKey x ∈ s →
    ∃ manifest, loadManifest s x = .ok manifest ∧ manifest.parentSnapshotId ≠ some (uuid 2)

theorem NoChildren.replace {s s' : Store} {id : Uuid} {manifest : BackupSnapshotManifest}
    (h : NoChildren s) (hreplaces : Replaces s s' id manifest)
    (hparent : manifest.parentSnapshotId ≠ some (uuid 2)) : NoChildren s' := by
  intro x hx
  by_cases hid : x = id
  · exact ⟨manifest, hid ▸ hreplaces.self, hparent⟩
  · rw [hreplaces.other x hid]
    exact h x (hreplaces.mem x hid hx)

theorem NoChildren.of_sameButLock {w w' : World} (h : NoChildren w.store)
    (hsame : SameButLock w w') : NoChildren w'.store := by
  intro x hx
  have hne := (inSnapshotDir_snapshotManifestKey x).ne_lock
  rw [loadManifest_sameButLock hsame]
  exact h x ((SameButLock.mem_iff hsame hne).mp hx)

theorem noChildren_backedUpWorld : NoChildren backedUpWorld.store := by
  obtain ⟨result, hfull⟩ := returns_fullRun
  obtain ⟨hwriting, hwritten⟩ := returns_createFullBackup (fun h : False => h.elim) hfull
  obtain ⟨_, _, _, _, -, -, -, hset⟩ := hwritten.contents
  obtain ⟨_, -, hmanifest⟩ := setManifestChecksum_eq_ok.mp hset
  have hreplaces := hwriting.replaces manifestsReadBack hwritten.written
  have hempty : NoChildren emptyWorld.store := fun x hx => absurd hx (AList.notMem_empty _)
  refine (hempty.replace hreplaces ?_).of_sameButLock (World.sameButLock_unlocked _)
  rw [hmanifest]
  nofun

/-- The repository that the deletion works on. -/
def deletionWorld : World := backupWork.2.unlocked.lockedBy 10000

theorem sameButLock_deletionWorld : SameButLock backupWork.2 deletionWorld :=
  (World.sameButLock_unlocked _).trans (World.sameButLock_lockedBy _ _)

theorem reachable_backedUpWorld : ReachableRepository backedUpWorld :=
  reachable_fullRun.unlocked (database [] [])

theorem crateWritten_deletionWorld : CrateWritten deletionWorld.store := by
  obtain ⟨_, hwork⟩ := returns_backupWork
  have hreach := reachable_backedUpWorld.takes (Operation.takes_of_work backedUpWorld_free
    (by decide) (returns_mayFail hwork))
  exact (hreach.tidy manifestsReadBack).crateWritten.of_sameButLock sameButLock_deletionWorld

/-- The backup has been written, and has no children. -/
theorem deletionWorld_stored : NoChildren deletionWorld.store ∧
    ∃ manifest, loadManifest deletionWorld.store (uuid 2) = .ok manifest ∧
      manifest.snapshotId = uuid 2 := by
  obtain ⟨result, hwork⟩ := returns_backupWork
  obtain ⟨hwriting, hwritten⟩ := Reaches.wp (returns_mayFail hwork)
    (wpE_createIncrementalBackupInner [] (incrementalRequest (uuid 2) (uuid 1)) options
      fun h : False => h.elim)
  obtain ⟨_, _, _, _, -, -, -, hset⟩ := hwritten.contents
  obtain ⟨_, -, hmanifest⟩ := setManifestChecksum_eq_ok.mp hset
  have hreplaces := hwriting.replaces manifestsReadBack hwritten.written
  have hlocked := noChildren_backedUpWorld.of_sameButLock (World.sameButLock_lockedBy _ 10000)
  have hparent : result.manifest.parentSnapshotId ≠ some (uuid 2) := by
    rw [hmanifest]
    exact fun heq => absurd (Option.some.inj heq) (by decide)
  refine ⟨(hlocked.replace hreplaces hparent).of_sameButLock sameButLock_deletionWorld,
    result.manifest, ?_, hwritten.written.id⟩
  exact (loadManifest_sameButLock sameButLock_deletionWorld _).trans hreplaces.self

theorem exists_deletionWork : ∃ result w, Returns (deletionJob 2).host.Answers deletionWorld
    (deletionJob 2).operation.work.run (.ok result) w ∧ snapshotManifestKey (uuid 2) ∉ w.store := by
  obtain ⟨hchildren, stored, hload, hid⟩ := deletionWorld_stored
  have hloads : ∀ key ∈ deletionWorld.store, ∀ found,
      snapshotIdFromManifestKey key = some found → ∃ manifest,
        loadManifest deletionWorld.store found = .ok manifest ∧
        manifest.parentSnapshotId ≠ some (uuid 2) := by
    intro key hkey found hfound
    refine hchildren found ?_
    rwa [crateWritten_deletionWorld.canonical key hkey found hfound] at hkey
  obtain ⟨result, w, hdelete, hgone⟩ := Host.exists_returns_deleteSnapshotInner hloads hload hid
  refine ⟨result, w, hdelete, fun hmem => ?_⟩
  have hstarts := InSnapshotDir.startsWith_prefix (inSnapshotDir_snapshotManifestKey (uuid 2))
  exact absurd (hstarts.symm.trans (hgone _ hmem).2) (by decide)

/-! ## Their turns -/

/-- The second has read the clock, and the first has come to the end. -/
def backupDone (result : IncrementalBackupResult) : Fleet Bool :=
  ((twoWriters backedUpWorld).afterCall true backedUpWorld
    (.acquiring (deletionJob 2) (RepositoryLock.acquireAt .default 10000).run)).afterCall false
      backupWork.2.unlocked (.releasing backupJob (.ok result) (.ret (.ok ())))

def backupEntry (result : IncrementalBackupResult) : Bool × Progress :=
  (false, ⟨backupJob, .ret (.ok result)⟩)

/-- Then the second has come to the end too. -/
def deletionDone (backup : IncrementalBackupResult) (result : DeleteSnapshotResult) (w : World) :
    Fleet Bool :=
  (backupDone backup).afterCall true w.unlocked
    (.releasing (deletionJob 2) (.ok result) (.ret (.ok ())))

def deletionEntry (result : DeleteSnapshotResult) : Bool × Progress :=
  (true, ⟨deletionJob 2, .ret (.ok result)⟩)

variable {P : Fleet Bool → FleetAction Bool → Prop}

theorem exists_backupDone (hP : Admits P TurnJob) :
    ∃ result, LoggedRun P (twoWriters backedUpWorld) [backupEntry result] (backupDone result) := by
  obtain ⟨result, hwork⟩ := returns_backupWork
  have hstart : LoggedRun P (twoWriters backedUpWorld) [] (twoWriters backedUpWorld) := .start
  have hsecond := hstart.begins (k := true) hP trivial (deletionJob 2)
  have hfirst := hsecond.begins (k := false) hP trivial backupJob
  have hdone := hfirst.completes hP (Or.inl rfl) (Fleet.afterCall_phases_self _ _ _ _)
    backedUpWorld_free hwork
  rw [Fleet.afterCall_afterCall] at hdone
  exact ⟨result, hdone⟩

theorem exists_deletionDone (hP : Admits P TurnJob) (backup : IncrementalBackupResult) :
    ∃ result w, snapshotManifestKey (uuid 2) ∉ (deletionDone backup result w).world.store ∧
      ∀ s₀ log, LoggedRun P s₀ log (backupDone backup) →
        LoggedRun P s₀ (log ++ [deletionEntry result]) (deletionDone backup result w) := by
  obtain ⟨result, w, hwork, hgone⟩ := exists_deletionWork
  refine ⟨result, w, fun hmem => hgone (AList.mem_erase.mp hmem).2, fun s₀ log h => ?_⟩
  have hphase : (backupDone backup).phases true =
      .acquiring (deletionJob 2) (RepositoryLock.acquireAt .default 10000).run := rfl
  exact h.completes hP (Or.inr rfl) hphase (Store.lookup_deleteBlob_self _ _) hwork

end TwoWriters

end GraphqlOrmBackup
