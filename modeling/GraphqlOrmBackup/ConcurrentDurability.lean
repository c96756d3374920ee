import GraphqlOrmBackup.BackupHistories
import GraphqlOrmBackup.Serialization

/-!
# Durability under concurrent writers

A snapshot stays intact while any number of clients write to its repository, at
every call of every client, as long as each operation that gets the lock spares
it.  What is left of the work of the client that has the lock is part of the
invariant: wherever it goes from here, it leaves the blobs of the chain alone.
-/

namespace GraphqlOrmBackup

open Interaction

section Codec

variable [Crates] {K : Type} [DecidableEq K]

/-- If an operation gets to its work, it spares the snapshot in the repository it
    finds. -/
def Fleet.SparesSnapshot (s : Fleet K) (id : Uuid) (ids : List Uuid) : FleetAction K → Prop
  | .enter k => ∀ job rest, s.phases k = .acquiring job rest →
      job.operation.Spares s.world.store id ids
  | _ => True

/-- A run of a fleet whose operations spare the snapshot. -/
def SparingRun (id : Uuid) (ids : List Uuid) : Fleet K → Fleet K → Prop :=
  Relation.ReflTransGen fun s s' =>
    ∃ a, FleetStep SharedClock s a s' ∧ s.Spares a ∧ s.SparesSnapshot id ids a

variable {s s' s₀ : Fleet K} {w₀ w : World} {k : K} {phase : WriterPhase} {keys : Set String}
  {id : Uuid} {ids : List Uuid} {chain : List BackupSnapshotManifest} {log : List (K × Progress)}

omit [DecidableEq K] in
/-- The blobs are as they were, and stay so wherever the client in its work goes. -/
structure Kept (keys : Set String) (w₀ : World) (s : Fleet K) : Prop where
  agree : AgreeOn keys w₀.store s.world.store
  working : ∀ k job lock rest, s.phases k = .working job lock rest →
    wp job.host.MayFail (fun w => AgreeOn keys w₀.store w.store) rest (fun _ _ => True) s.world

omit [Crates] [DecidableEq K] in
theorem kept_initial (h : s.Initial) : Kept keys s.world s := by
  refine ⟨AgreeOn.refl _ _, fun k job lock rest hphase => ?_⟩
  rw [h.idle k] at hphase
  cases hphase

omit [Crates] in
/-- A step of one client leaves the invariant to be shown of that client. -/
theorem Kept.update (h : Kept keys w₀ s) (hphases : s'.phases = Function.update s.phases k phase)
    (hagree : AgreeOn keys w₀.store s'.world.store)
    (hself : ∀ job lock rest, phase = .working job lock rest →
      wp job.host.MayFail (fun w => AgreeOn keys w₀.store w.store) rest (fun _ _ => True) s'.world)
    (hother : ∀ j, j ≠ k → (s.phases j).Holds → s'.world = s.world) : Kept keys w₀ s' := by
  refine ⟨hagree, fun j job lock rest hphase => ?_⟩
  by_cases hjk : j = k
  · rw [hphases, hjk, Function.update_self] at hphase
    exact hself job lock rest hphase
  · rw [hphases, Function.update_of_ne hjk] at hphase
    have hholds : (s.phases j).Holds := by
      rw [hphase]
      trivial
    rw [hother j hjk hholds]
    exact h.working j job lock rest hphase

omit [Crates] in
theorem SameButLock.of_unlocked (h : w.unlocked = w₀.unlocked) : SameButLock w₀ w :=
  w₀.sameButLock_unlocked.trans (h ▸ w.sameButLock_unlocked.symm)

omit [Crates] in
/-- A step that touches no more than the lock, and ends with no work begun. -/
theorem Kept.outside (h : Kept keys w₀ s) (hlock : repositoryLockKey ∉ keys)
    (hphases : s'.phases = Function.update s.phases k phase)
    (hsame : SameButLock s.world s'.world) (hphase : ∀ job lock rest, phase ≠ .working job lock rest)
    (hother : ∀ j, j ≠ k → (s.phases j).Holds → s'.world = s.world) : Kept keys w₀ s' :=
  h.update hphases (h.agree.trans (hsame.agreeOn hlock))
    (fun job lock rest heq => absurd heq (hphase job lock rest)) hother

/-- A call of `acquire` changes nothing under a client that has the lock. -/
theorem FleetInv.acquire_other (hinv : FleetInv w₀ log s) {job : Job} {c : Call}
    {next : c.Response → AcquireProg} {r : c.Response}
    (hphase : s.phases k = .acquiring job (.call c next))
    (hcall : SharedClock job.host s.clock c s.world r w) (hspares : s.Spares (.call k)) :
    SameButLock s.world w ∧ ∀ j, (s.phases j).Holds → w = s.world := by
  obtain ⟨stage, hprog, hclocked⟩ : (WriterPhase.acquiring job (.call c next)).WellFormed :=
    hphase ▸ hinv.phases k
  obtain ⟨-, hunlocked, hcase⟩ := acquire_cases hclocked hinv.clock hprog.symm hcall
  refine ⟨.of_unlocked hunlocked, fun j hj => ?_⟩
  rcases hcase with ⟨now, -, -, hfree, -⟩ | ⟨-, rfl | hfree | ⟨key, rfl⟩⟩
  · exact absurd hfree (hinv.locked j hj)
  · rfl
  · exact absurd hfree (hinv.locked j hj)
  · exact absurd hj (hspares ⟨_, _, _, hphase⟩ j)

/-- A release deletes the lock, or nothing. -/
theorem FleetInv.release_sameButLock (hinv : FleetInv w₀ log s) {job : Job} {result : job.Outcome}
    {c : Call} {next : c.Response → ReleaseProg} {r : c.Response}
    (hphase : s.phases k = .releasing job result (.call c next))
    (hcall : SharedClock job.host s.clock c s.world r w) : SameButLock s.world w := by
  have hwellFormed : (WriterPhase.releasing job result (.call c next)).WellFormed :=
    hphase ▸ hinv.phases k
  rcases hwellFormed with hprog | ⟨r', hret⟩
  · cases hprog
    rcases hcall with ⟨-, rfl⟩ | ⟨e, -, rfl | ⟨r', -, rfl⟩⟩
    · exact s.world.sameButLock_unlocked
    · exact SameButLock.refl _
    · exact s.world.sameButLock_unlocked
  · cases hret

/-- **Step lemma.** -/
theorem kept_step {a : FleetAction K} (hinv : FleetInv w₀ log s) (hw₀ : CrateWritten w₀.store)
    (hw : CrateWritten s.world.store) (hintact : Intact w₀.store id chain)
    (h : Kept (chainKeys chain) w₀ s) (hstep : FleetStep SharedClock s a s')
    (hspares : s.Spares a) (hsnapshot : s.SparesSnapshot id (chain.map (·.snapshotId)) a) :
    Kept (chainKeys chain) w₀ s' := by
  have hlock := hintact.lock_notMem hw₀
  cases hstep with
  | tick hle hnow => exact ⟨h.agree, h.working⟩
  | start hdone =>
    exact h.outside hlock rfl (SameButLock.refl _) (fun _ _ _ => nofun) fun _ _ _ => rfl
  | acquire hphase hcall =>
    obtain ⟨hsame, hother⟩ := hinv.acquire_other hphase hcall hspares
    exact h.outside hlock rfl hsame (fun _ _ _ => nofun) fun j _ hj => hother j hj
  | @enter k job lock hphase =>
    refine h.update rfl h.agree (fun job' lock' rest' heq => ?_) fun _ _ _ => rfl
    cases heq
    have hwork : wpE job.host.MayFail (fun w => AgreeOn (chainKeys chain) s.world.store w.store)
        job.operation.work (fun _ _ => True) (fun _ _ => True) s.world :=
      wpE_work_keeps hw (hintact.of_agree hw₀.snapshotId h.agree) (hsnapshot job _ hphase)
    exact wp.mono hwork (fun _ hagree => h.agree.trans hagree) fun _ _ _ _ => trivial
  | @work k job lock c next r w hphase hcall =>
    have hrest := (h.working k job lock _ hphase).2 r w (hcall.mayFail hinv.clock)
    have hholds : (s.phases k).Holds := by
      rw [hphase]
      trivial
    refine h.update rfl hrest.now (fun job' lock' rest' heq => ?_) fun j hj hj' =>
      absurd (hinv.exclusive j k hj' hholds) hj
    cases heq
    exact hrest
  | leave hphase =>
    exact h.outside hlock rfl (SameButLock.refl _) (fun _ _ _ => nofun) fun _ _ _ => rfl
  | @release k job result c next r w hphase hcall =>
    have hholds : (s.phases k).Holds := by
      rw [hphase]
      trivial
    exact h.outside hlock rfl (hinv.release_sameButLock hphase hcall) (fun _ _ _ => nofun)
      fun j hj hj' => absurd (hinv.exclusive j k hj' hholds) hj
  | stop =>
    exact h.outside hlock rfl (SameButLock.refl _) (fun _ _ _ => nofun) fun _ _ _ => rfl

/-- **Run lemma.** -/
theorem kept_run (hread : ManifestsReadBack) (h₀ : s₀.Initial)
    (hreach : ReachableRepository s₀.world) (hintact : Intact s₀.world.store id chain)
    (hrun : SparingRun id (chain.map (·.snapshotId)) s₀ s) :
    (∃ log, FleetInv s₀.world log s) ∧ CrateWritten s.world.store ∧
      Kept (chainKeys chain) s₀.world s := by
  have hcrate : ∀ log (s : Fleet K), FleetInv s₀.world log s → CrateWritten s.world.store := by
    intro log s hinv
    obtain ⟨w, hw, hsame⟩ := hinv.reachable hreach
    exact (hw.tidy hread).crateWritten.of_sameButLock hsame
  induction hrun with
  | refl =>
    exact ⟨⟨[], fleetInv_initial h₀⟩, hcrate _ _ (fleetInv_initial h₀), kept_initial h₀⟩
  | tail _ hstep ih =>
    rcases ih with ⟨⟨log, hinv⟩, hw, hkept⟩
    rcases hstep with ⟨a, hstep, hspares, hsnapshot⟩
    have hinv' := fleetInv_step hinv hstep hspares
    exact ⟨⟨_, hinv'⟩, hcrate _ _ hinv', kept_step hinv (hreach.tidy hread).crateWritten hw hintact hkept
      hstep hspares hsnapshot⟩

/-- **Snapshots are durable.**  As long as no client takes the lock from another that
    has it, the calls of any number of clients may interleave, fail, or stop: a
    snapshot that their operations spare stays intact, and every blob of its chain
    as it is. -/
theorem snapshots_are_durable (hread : ManifestsReadBack) (h₀ : s₀.Initial)
    (hreach : ReachableRepository s₀.world) (hintact : Intact s₀.world.store id chain)
    (hrun : SparingRun id (chain.map (·.snapshotId)) s₀ s) :
    Intact s.world.store id chain ∧ AgreeOn (chainKeys chain) s₀.world.store s.world.store := by
  obtain ⟨-, -, hkept⟩ := kept_run hread h₀ hreach hintact hrun
  exact ⟨hintact.of_agree (hreach.tidy hread).crateWritten.snapshotId hkept.agree, hkept.agree⟩

end Codec

/-! ## A backup and a deletion beside a snapshot -/

section Beside

open Reference

theorem admits_sparesSnapshot : Admits (K := Bool)
    (fun s a => s.Spares a ∧ s.SparesSnapshot (uuid 1) [uuid 1] a) TurnJob := by
  intro s a hspares hjobs
  refine ⟨hspares, ?_⟩
  cases a with
  | enter k =>
    intro job rest hphase
    rcases hjobs k job rest rfl hphase with rfl | rfl
    · exact (by decide : uuid 2 ∉ [uuid 1])
    · exact (by decide : uuid 1 ≠ uuid 2)
  | _ => trivial

theorem LoggedRun.sparingRun {s₀ s : Fleet Bool} {log : List (Bool × Progress)}
    (h : LoggedRun (fun s a => s.Spares a ∧ s.SparesSnapshot (uuid 1) [uuid 1] a) s₀ log s) :
    SparingRun (uuid 1) [uuid 1] s₀ s :=
  h.run

/-- A child of the snapshot is written, and deleted by another client. -/
theorem snapshots_are_durable_backupAndDeletion : ∃ backup deletion w root,
    SparingRun (uuid 1) [uuid 1] (twoWriters backedUpWorld) (backupDone backup) ∧
      SparingRun (uuid 1) [uuid 1] (backupDone backup) (deletionDone backup deletion w) ∧
      snapshotManifestKey (uuid 2) ∉ (deletionDone backup deletion w).world.store ∧
      Intact (backupDone backup).world.store (uuid 1) [root] ∧
      Intact (deletionDone backup deletion w).world.store (uuid 1) [root] := by
  rcases intact_backedUpWorld with ⟨root, hintact, hroot⟩
  obtain ⟨backup, hbackup⟩ := exists_backupDone admits_sparesSnapshot
  obtain ⟨deletion, w, hgone, hdeletion⟩ := exists_deletionDone admits_sparesSnapshot backup
  have hdurable : ∀ s, SparingRun (uuid 1) [uuid 1] (twoWriters backedUpWorld) s →
      Intact s.world.store (uuid 1) [root] := by
    intro s hrun
    have hspares : SparingRun (uuid 1) ([root].map (·.snapshotId)) (twoWriters backedUpWorld) s := by
      rwa [List.map_singleton, hroot]
    exact (snapshots_are_durable manifestsReadBack (twoWriters_initial _) reachable_backedUpWorld
      hintact hspares).1
  exact ⟨backup, deletion, w, root, hbackup.sparingRun, (hdeletion _ _ .start).sparingRun, hgone,
    hdurable _ hbackup.sparingRun, hdurable _ (hdeletion _ _ hbackup).sparingRun⟩

end Beside

end GraphqlOrmBackup
