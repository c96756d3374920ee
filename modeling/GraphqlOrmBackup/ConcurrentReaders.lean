import GraphqlOrmBackup.ConcurrentDurability
import GraphqlOrmBackup.ReaderCalls

/-!
# Restores beside writers

A restore takes no lock: it reads the repository while clients back up, compact,
prune and delete.  As long as these operations spare its snapshot, it cannot
tell: whatever it returns, and whatever it has handed to its database, it could
have returned and handed over in the repository it has started in, alone.
-/

namespace GraphqlOrmBackup

open Interaction

/-- A call may also fail with an error in `E`, before or after it has taken effect. -/
def Host.FailsWith (host : Host) (E : BackupError → Prop) (c : Call) (w : World) (r : c.Response)
    (w' : World) : Prop :=
  host.Answers c w r w' ∨ ∃ e, E e ∧ r = .error e ∧ (w' = w ∨ ∃ r', host.Answers c w r' w')

/-- A reader whose calls are each answered in some repository that satisfies `I`.
    Of its world only what it has handed to its database is its own. -/
def Host.Beside (host : Host) (E : BackupError → Prop) (I : Store → Prop) (c : Call)
    (calls : List RestoreCall) (r : c.Response) (calls' : List RestoreCall) : Prop :=
  ∃ w w', I w.store ∧ w.restored = calls ∧ host.FailsWith E c w r w' ∧ w'.restored = calls'

/-- The reader alone, in the repository `s₀`. -/
def Alone (s₀ : Store) (calls : List RestoreCall) (w : World) : Prop :=
  w.store = s₀ ∧ w.restored = calls

section Beside

variable {host : Host} {E : BackupError → Prop} {I : Store → Prop} {s₀ : Store}
  {calls calls' : List RestoreCall} {c : Call} {r : c.Response} {α : Type}

theorem Host.Beside.sees (h : host.Beside E I c calls r calls') : c.Sees E I r := by
  cases c with
  | view =>
    rcases h with ⟨w, w', hI, -, ⟨rfl, -⟩ | ⟨e, he, rfl, -⟩, -⟩
    · exact Or.inl ⟨_, hI, rfl⟩
    · exact Or.inr ⟨e, he, rfl⟩
  | _ => trivial

theorem Host.Beside.reads (hc : c.Reads) (h : host.Beside E I c calls r calls') :
    calls' = calls := by
  cases c with
  | view =>
    rcases h with ⟨w, w', -, rfl, ⟨-, rfl⟩ | ⟨e, -, -, rfl | ⟨r', -, rfl⟩⟩, rfl⟩
    · rfl
    · rfl
    · rfl
  | _ => exact hc.elim

/-- What `x'` can do beside others, `x` can do alone. -/
abbrev SimulatesAlone (host : Host) (E : BackupError → Prop) (I : Store → Prop) (s₀ : Store)
    (P : α → Prop) (x' x : BackupM α) : Prop :=
  SimulatesE (host.Beside E I) (host.FailsWith E) (Alone s₀) P x' x

/-- What is read in many calls beside others is read in one call alone. -/
theorem simulates_reads {f : Store → Except BackupError α} {x' : BackupM α}
    (h : ReadsAs E I x' (f s₀)) :
    SimulatesAlone host E I s₀ (fun a => f s₀ = .ok a) x' (read f) := by
  refine Yields.simulates h (fun c calls w r calls' _ hcall => hcall.sees)
    (fun c calls w r calls' hc hs hcall => hcall.reads hc ▸ hs) ?_ ?_
  · rintro calls w ⟨rfl, rfl⟩
    exact Reaches.head (Or.inl ⟨rfl, rfl⟩) (Reaches.refl _ _)
  · rintro calls w e ⟨rfl, rfl⟩ he
    exact Reaches.head (Or.inr ⟨e, he, rfl, Or.inl rfl⟩) (Reaches.refl _ _)

/-- The call concerns the restore target. -/
def Call.OfTarget : Call → Prop
  | .schemaSnapshot | .restoreTargetIsEmpty | .restore _ => True
  | _ => False

/-- The restore target answers alike. -/
theorem simulates_target (hc : c.OfTarget) :
    SimulatesAlone host E I s₀ (fun _ => True) (call c) (call c) := by
  refine simulates_perform (fun _ _ _ => trivial) ?_
  rintro calls w r calls' ⟨rfl, rfl⟩ ⟨w₁, w₁', -, hrestored, hfails, rfl⟩
  cases c with
  | schemaSnapshot =>
    rcases hfails with ⟨rfl, rfl⟩ | ⟨e, he, rfl, rfl | ⟨r', -, rfl⟩⟩
    · exact ⟨w, Or.inl ⟨rfl, rfl⟩, rfl, hrestored.symm⟩
    · exact ⟨w, Or.inr ⟨e, he, rfl, Or.inl rfl⟩, rfl, hrestored.symm⟩
    · exact ⟨w, Or.inr ⟨e, he, rfl, Or.inl rfl⟩, rfl, hrestored.symm⟩
  | restoreTargetIsEmpty =>
    rcases hfails with ⟨rfl, rfl⟩ | ⟨e, he, rfl, rfl | ⟨r', -, rfl⟩⟩
    · exact ⟨w, Or.inl ⟨rfl, rfl⟩, rfl, hrestored.symm⟩
    · exact ⟨w, Or.inr ⟨e, he, rfl, Or.inl rfl⟩, rfl, hrestored.symm⟩
    · exact ⟨w, Or.inr ⟨e, he, rfl, Or.inl rfl⟩, rfl, hrestored.symm⟩
  | restore request =>
    let w' : World := { w with restored := w.restored ++ [request] }
    have hans : host.Answers (.restore request) w
        (host.database.restore (w.restored ++ [request])) w' := ⟨rfl, rfl⟩
    rcases hfails with ⟨rfl, rfl⟩ | ⟨e, he, rfl, rfl | ⟨r', -, rfl⟩⟩
    · exact ⟨w', Or.inl (hrestored ▸ hans), rfl, by rw [hrestored]⟩
    · exact ⟨w, Or.inr ⟨e, he, rfl, Or.inl rfl⟩, rfl, hrestored.symm⟩
    · exact ⟨w', Or.inr ⟨e, he, rfl, Or.inr ⟨_, hans⟩⟩, rfl, by rw [hrestored]⟩
  | _ => exact hc.elim

theorem simulates_applyRestore (context : RestoreContext) (request : RestoreCall) :
    SimulatesAlone host E I s₀ (fun _ => True) (applyRestore context request)
      (applyRestore context request) := by
  unfold applyRestore
  cases context.mode with
  | dryRun => exact simulatesE_pure trivial
  | emptyDatabase => exact simulates_target (c := .restore request) trivial

theorem simulates_targetIsEmpty (context : RestoreContext) :
    SimulatesAlone host E I s₀ (fun _ => True) (targetIsEmpty context) (targetIsEmpty context) := by
  unfold targetIsEmpty
  cases context.mode with
  | dryRun => exact simulatesE_pure trivial
  | emptyDatabase => exact simulates_target (c := .restoreTargetIsEmpty) trivial

theorem simulates_verifyRestoreSchema (manifest : BackupSnapshotManifest) :
    SimulatesAlone host E I s₀ (fun _ => True) (verifyRestoreSchema manifest)
      (verifyRestoreSchema manifest) := by
  refine SimulatesE.bind (simulates_target trivial) fun target _ => ?_
  split
  · exact simulatesE_throw
  · exact simulatesE_pure trivial

variable [Crates] {id : Uuid} {chain : List BackupSnapshotManifest}

/-- **A restore beside others simulates the restore alone**, if its chain is intact
    and the others leave the blobs of the chain as they are. -/
theorem restore_simulates (sched : BackupSnapshotManifest → CheckSchedule)
    (order : BackupSnapshotManifest → CompletionOrder) (context : RestoreContext)
    (hintact : Intact s₀ id chain)
    (hids : ∀ id manifest, loadManifest s₀ id = .ok manifest → manifest.snapshotId = id) :
    SimulatesAlone host E (AgreeOn (chainKeys chain) s₀) s₀ (fun _ => True)
      (CallByCall.restoreSnapshot sched id context) (restoreSnapshot order id context) := by
  have hloads : loadVerifiedChain order s₀ id = .ok chain :=
    loadVerifiedChain_eq_ok.mpr (intact_iff.mp hintact)
  have hsame : ∀ manifest ∈ chain, ∀ s, AgreeOn (chainKeys chain) s₀ s → SameBlobs s₀ s manifest :=
    fun manifest hmem s hagree => hagree.mono fun key hkey => ⟨manifest, hmem, Or.inr hkey⟩
  have hchain : ReadsAs E (AgreeOn (chainKeys chain) s₀) (CallByCall.loadVerifiedChain sched id)
      (loadVerifiedChain order s₀ id) := hloads ▸ readsAs_loadVerifiedChain sched hintact hids
  refine SimulatesE.bind (simulates_reads (f := fun s => loadVerifiedChain order s id) hchain) ?_
  intro chain' hchain'
  obtain rfl : chain = chain' := Except.ok.inj (hloads.symm.trans hchain')
  refine SimulatesE.bind simulatesE_ofExcept fun root hroot => ?_
  have hrootMem : root ∈ chain := by
    cases chain with
    | nil => cases hroot
    | cons first rest =>
      obtain rfl : first = root := Except.ok.inj hroot
      exact List.mem_cons_self
  refine SimulatesE.bind (simulates_verifyRestoreSchema root) fun schema _ => ?_
  refine SimulatesE.bind (simulates_targetIsEmpty context) fun empty _ => ?_
  refine SimulatesE.bind simulatesE_ofExcept fun _ _ => ?_
  refine SimulatesE.bind (simulates_reads (readsAs_loadTableExports (hsame root hrootMem)))
    fun tables _ => ?_
  refine SimulatesE.bind (simulates_applyRestore context _) fun _ _ => ?_
  refine SimulatesE.bind (SimulatesE.mapM' _ fun manifest hmem => ?_) fun counts _ =>
    simulatesE_pure trivial
  refine SimulatesE.bind (simulates_reads (readsAs_loadChangeExports
    (hsame manifest (List.mem_of_mem_tail hmem)))) fun changes _ => ?_
  exact (simulates_applyRestore context _).bind fun _ _ => simulatesE_pure trivial

end Beside

/-! ## The calls of the reader -/

section Calls

variable {host : Host} {E : BackupError → Prop} {w w' : World} {c : Call} {r : c.Response}

/-- A restore changes nothing but its target. -/
theorem Host.FailsWith.world (hc : c.OfRestore) (h : host.FailsWith E c w r w') :
    w' = { w with restored := w'.restored } := by
  cases c with
  | view =>
    rcases h with ⟨-, rfl⟩ | ⟨e, -, -, rfl | ⟨r', -, rfl⟩⟩ <;> rfl
  | schemaSnapshot =>
    rcases h with ⟨-, rfl⟩ | ⟨e, -, -, rfl | ⟨r', -, rfl⟩⟩ <;> rfl
  | restoreTargetIsEmpty =>
    rcases h with ⟨-, rfl⟩ | ⟨e, -, -, rfl | ⟨r', -, rfl⟩⟩ <;> rfl
  | restore request =>
    rcases h with ⟨-, rfl⟩ | ⟨e, -, -, rfl | ⟨r', -, rfl⟩⟩ <;> rfl
  | _ => exact hc.elim

/-- The program makes only calls of a restore. -/
abbrev OnlyRestores {α : Type} (x : BackupM α) : Prop :=
  Keeps (fun _ _ => True) Call.OfRestore x

theorem onlyRestores_read {α : Type} (f : Store → Except BackupError α) : OnlyRestores (read f) :=
  Fallible.within_bind ((keeps_call trivial).mono fun _ _ => trivial) fun _ _ => keeps_ofExcept _

theorem onlyRestores_applyRestore (context : RestoreContext) (request : RestoreCall) :
    OnlyRestores (applyRestore context request) := by
  unfold applyRestore
  cases context.mode with
  | dryRun => exact keeps_done _
  | emptyDatabase =>
    exact (keeps_call (c := .restore request) trivial).mono fun _ _ => trivial

variable [Crates]

theorem onlyRestores_loadManifestChainLoop (seen : List Uuid) (chain : List BackupSnapshotManifest)
    (id : Uuid) : OnlyRestores (CallByCall.loadManifestChainLoop seen chain id) := by
  induction seen, chain, id using CallByCall.loadManifestChainLoop.induct with
  | case1 seen chain id hseen =>
    rw [CallByCall.loadManifestChainLoop, dif_pos hseen]
    exact keeps_ofExcept _
  | case2 seen chain id hseen ih =>
    rw [CallByCall.loadManifestChainLoop, dif_neg hseen]
    refine Fallible.within_bind (onlyRestores_read _) fun manifest _ => ?_
    split
    · exact keeps_done _
    · exact ih manifest _

theorem onlyRestores_verifyChecks (blobConcurrency : Nat) (sched : List Poll)
    (checks : List (String × String)) :
    OnlyRestores (CallByCall.verifyChecks blobConcurrency sched checks) := by
  refine Fallible.within_bind (within_tryCollect (P := fun _ => True) fun t ht => ?_)
    fun _ _ => keeps_done _
  rcases List.mem_map.mp ht with ⟨x, hx, rfl⟩
  rcases List.mem_map.mp hx with ⟨check, -, rfl⟩
  exact onlyRestores_read _

theorem onlyRestores_loadVerifiedChain (sched : BackupSnapshotManifest → CheckSchedule) (id : Uuid) :
    OnlyRestores (CallByCall.loadVerifiedChain sched id) := by
  refine Fallible.within_bind (Fallible.within_bind (onlyRestores_loadManifestChainLoop _ _ _)
    fun chain _ => Fallible.within_bind (keeps_ofExcept _) fun _ _ => keeps_done _) fun chain _ => ?_
  refine Fallible.within_bind (Fallible.within_forM _ fun manifest _ => ?_) fun _ _ => keeps_done _
  refine Fallible.within_bind (keeps_ofExcept _) fun _ _ => ?_
  exact Fallible.within_bind (onlyRestores_verifyChecks _ _ _) fun _ _ =>
    onlyRestores_verifyChecks _ _ _

theorem onlyRestores_restoreManifest (context : RestoreContext) (manifest : BackupSnapshotManifest) :
    OnlyRestores (CallByCall.restoreManifest context manifest) := by
  refine Fallible.within_bind (Fallible.within_bind (Fallible.within_mapM' _ fun entry _ =>
    onlyRestores_read _) fun _ _ => keeps_done _) fun changes _ => ?_
  exact Fallible.within_bind (onlyRestores_applyRestore _ _) fun _ _ => keeps_done _

theorem onlyRestores_restoreSnapshot (sched : BackupSnapshotManifest → CheckSchedule) (id : Uuid)
    (context : RestoreContext) : OnlyRestores (CallByCall.restoreSnapshot sched id context) := by
  have hasks : OnlyRestores (targetIsEmpty context) := by
    unfold targetIsEmpty
    cases context.mode with
    | dryRun => exact keeps_done _
    | emptyDatabase => exact (keeps_call (c := .restoreTargetIsEmpty) trivial).mono fun _ _ => trivial
  refine Fallible.within_bind (onlyRestores_loadVerifiedChain sched id) fun chain _ => ?_
  refine Fallible.within_bind (keeps_ofExcept _) fun root _ => ?_
  refine Fallible.within_bind (P := fun _ => True) ?_ fun schema _ => ?_
  · refine Fallible.within_bind (keeps_call (c := .schemaSnapshot) trivial) fun target _ => ?_
    split
    · exact Fallible.within_throw
    · exact keeps_done _
  refine Fallible.within_bind hasks fun empty _ => ?_
  refine Fallible.within_bind (keeps_ofExcept _) fun _ _ => ?_
  refine Fallible.within_bind (Fallible.within_mapM' _ fun table _ =>
    Fallible.within_bind (onlyRestores_read _) fun rows _ => keeps_done _) fun tables _ => ?_
  refine Fallible.within_bind (onlyRestores_applyRestore _ _) fun _ _ => ?_
  exact Fallible.within_bind (Fallible.within_mapM' _ fun manifest _ =>
    onlyRestores_restoreManifest context manifest) fun counts _ => keeps_done _

/-- A restore first looks for the manifest. -/
theorem exists_restoreSnapshot_eq (sched : BackupSnapshotManifest → CheckSchedule) (id : Uuid)
    (context : RestoreContext) :
    ∃ next, (CallByCall.restoreSnapshot sched id context).run = .call .view next := by
  unfold CallByCall.restoreSnapshot CallByCall.loadVerifiedChain CallByCall.loadManifestChain
  rw [CallByCall.loadManifestChainLoop, dif_neg List.not_mem_nil]
  exact ⟨_, rfl⟩

end Calls

/-! ## A reader among writers -/

/-- Writers, and a restore beside them: what it has handed to its database, and what
    is left of it. -/
structure Scene (K : Type) where
  fleet : Fleet K
  restored : List RestoreCall
  rest : Prog Call.Response (Except BackupError RestoreResult)

/-- The world of the reader: the repository of the writers, and its own database. -/
def Scene.world {K : Type} (s : Scene K) : World := { s.fleet.world with restored := s.restored }

/-- The scene after a call of the reader that leaves it the world `w`. -/
def Scene.afterRead {K : Type} (s : Scene K) (w : World)
    (rest : Prog Call.Response (Except BackupError RestoreResult)) : Scene K where
  fleet := { s.fleet with world := { w with restored := s.fleet.world.restored } }
  restored := w.restored
  rest := rest

section Scene

variable [Crates] {K : Type} [DecidableEq K]

/-- One call of the reader, or one step of a writer that spares the snapshot. -/
inductive SceneStep (host : Host) (E : BackupError → Prop) (id : Uuid) (ids : List Uuid) :
    Scene K → Scene K → Prop where
  | writer {s : Scene K} {a : FleetAction K} {fleet : Fleet K}
      (hstep : FleetStep SharedClock s.fleet a fleet) (hspares : s.fleet.Spares a)
      (hsnapshot : s.fleet.SparesSnapshot id ids a) :
      SceneStep host E id ids s { s with fleet := fleet }
  | reader {s : Scene K} {c : Call} {w : World}
      {next : c.Response → Prog Call.Response (Except BackupError RestoreResult)} {r : c.Response}
      (hrest : s.rest = .call c next) (hcall : host.FailsWith E c s.world r w) :
      SceneStep host E id ids s (s.afterRead w (next r))

abbrev SceneRun (host : Host) (E : BackupError → Prop) (id : Uuid) (ids : List Uuid) :
    Scene K → Scene K → Prop :=
  Relation.ReflTransGen (SceneStep host E id ids)

variable {host : Host} {E : BackupError → Prop} {id : Uuid} {ids : List Uuid}
  {chain : List BackupSnapshotManifest} {s s' s₀ : Scene K}

/-- What holds of a scene that has come from `s₀`. -/
structure SceneInv (host : Host) (E : BackupError → Prop) (id : Uuid)
    (chain : List BackupSnapshotManifest) (s₀ s : Scene K) : Prop where
  writers : SparingRun id (chain.map (·.snapshotId)) s₀.fleet s.fleet
  calls : s.rest.Within (fun _ _ => True) Call.OfRestore fun _ => True
  reader : Reaches (host.Beside E (AgreeOn (chainKeys chain) s₀.fleet.world.store)) s₀.restored
    s₀.rest s.restored s.rest

omit [DecidableEq K] [Crates] in
theorem Scene.afterRead_fleet {c : Call} {r : c.Response} {w : World}
    {rest : Prog Call.Response (Except BackupError RestoreResult)} (hc : c.OfRestore)
    (hcall : host.FailsWith E c s.world r w) : (s.afterRead w rest).fleet = s.fleet := by
  have hworld := hcall.world hc
  rw [Scene.afterRead, hworld]
  rfl

/-- **Step lemma.** -/
theorem sceneInv_step
    (hkeeps : ∀ fleet, SparingRun id (chain.map (·.snapshotId)) s₀.fleet fleet →
      AgreeOn (chainKeys chain) s₀.fleet.world.store fleet.world.store)
    (h : SceneInv host E id chain s₀ s)
    (hstep : SceneStep host E id (chain.map (·.snapshotId)) s s') :
    SceneInv host E id chain s₀ s' := by
  cases hstep with
  | writer hstep hspares hsnapshot =>
    exact ⟨h.writers.tail ⟨_, hstep, hspares, hsnapshot⟩, h.calls, h.reader⟩
  | @reader c w next r hrest hcall =>
    obtain ⟨hc, hnext⟩ : (Prog.call c next).Within (fun _ _ => True) Call.OfRestore
        (fun _ => True) := hrest ▸ h.calls
    have hbeside : host.Beside E (AgreeOn (chainKeys chain) s₀.fleet.world.store) c s.restored r
        w.restored := ⟨s.world, w, hkeeps _ h.writers, rfl, hcall, rfl⟩
    refine ⟨?_, hnext r trivial, ?_⟩
    · rw [Scene.afterRead_fleet hc hcall]
      exact h.writers
    · have hreader := h.reader
      rw [hrest] at hreader
      exact hreader.trans (Reaches.head hbeside (Reaches.refl _ _))

/-- **Run lemma.** -/
theorem sceneInv_run (hread : ManifestsReadBack) (h₀ : s₀.fleet.Initial)
    (hreach : ReachableRepository s₀.fleet.world) (hintact : Intact s₀.fleet.world.store id chain)
    (hcalls : s₀.rest.Within (fun _ _ => True) Call.OfRestore fun _ => True)
    (hrun : SceneRun host E id (chain.map (·.snapshotId)) s₀ s) :
    SceneInv host E id chain s₀ s := by
  induction hrun with
  | refl => exact ⟨.refl, hcalls, Reaches.refl _ _⟩
  | tail _ hstep ih =>
    refine sceneInv_step (fun fleet hrun => ?_) ih hstep
    exact (kept_run hread h₀ hreach hintact hrun).2.2.agree

/-- **Restores beside writers.**  A restore whose calls interleave in any way with
    those of any number of writers that spare its snapshot returns what it can
    return alone, in the repository it has started in, and has then handed the
    same to its database; it meets no error that it could not meet there. -/
theorem restores_beside_writers (hread : ManifestsReadBack) (h₀ : s₀.fleet.Initial)
    (hreach : ReachableRepository s₀.fleet.world) (hintact : Intact s₀.fleet.world.store id chain)
    {sched : BackupSnapshotManifest → CheckSchedule} {context : RestoreContext}
    (hstart : s₀.rest = (CallByCall.restoreSnapshot sched id context).run)
    (hrun : SceneRun host E id (chain.map (·.snapshotId)) s₀ s)
    {r : Except BackupError RestoreResult} (hend : s.rest = .ret r)
    (order : BackupSnapshotManifest → CompletionOrder) :
    ∃ w, Returns (host.FailsWith E) s₀.world (restoreSnapshot order id context).run r w ∧
      w.restored = s.restored := by
  have hcalls : s₀.rest.Within (fun _ _ => True) Call.OfRestore fun _ => True :=
    hstart ▸ Prog.Within.mono (onlyRestores_restoreSnapshot sched id context) fun _ _ => trivial
  have hreturns := (sceneInv_run hread h₀ hreach hintact hcalls hrun).reader
  rw [hend, hstart] at hreturns
  have hids := (hreach.tidy hread).crateWritten.snapshotId
  obtain ⟨-, w, hret, hstore, hrestored⟩ :=
    restore_simulates sched order context hintact hids _ s₀.world _ _ ⟨rfl, rfl⟩ hreturns
  exact ⟨w, hret, hrestored⟩

/-- A restore that the writers leave to itself comes to its end. -/
theorem exists_sceneRun (s : Scene K)
    (hcalls : s.rest.Within (fun _ _ => True) Call.OfRestore fun _ => True) :
    ∃ s' r, SceneRun host E id ids s s' ∧ s'.rest = .ret r := by
  generalize hrest : s.rest = rest at hcalls
  induction rest generalizing s with
  | ret r => exact ⟨s, r, .refl, hrest⟩
  | call c next ih =>
    rcases hcalls with ⟨hc, hnext⟩
    obtain ⟨r, w, hans⟩ := Call.OfRestore.answered host c s.world hc
    obtain ⟨s', r', hrun, hend⟩ := ih r (s.afterRead w (next r)) rfl (hnext r trivial)
    exact ⟨s', r', .head (.reader hrest (Or.inl hans)) hrun, hend⟩

/-- The reader sees the repository as it is. -/
theorem sceneStep_looks {next : Except BackupError Store →
      Prog Call.Response (Except BackupError RestoreResult)} (hrest : s.rest = .call .view next) :
    SceneStep host E id ids s ⟨s.fleet, s.restored, next (.ok s.fleet.world.store)⟩ := by
  have hcall : host.FailsWith E .view s.world (.ok s.world.store) s.world := Or.inl ⟨rfl, rfl⟩
  exact .reader hrest hcall

theorem SparingRun.scene {fleet fleet' : Fleet K} {restored : List RestoreCall}
    {rest : Prog Call.Response (Except BackupError RestoreResult)}
    (h : SparingRun id ids fleet fleet') :
    SceneRun host E id ids ⟨fleet, restored, rest⟩ ⟨fleet', restored, rest⟩ := by
  induction h with
  | refl => exact .refl
  | tail _ hstep ih =>
    rcases hstep with ⟨a, hstep, hspares, hsnapshot⟩
    exact ih.tail (.writer hstep hspares hsnapshot)

end Scene

/-! ## A restore beside a backup and a deletion -/

section Beside

open Reference

/-- A restore of the first snapshot. -/
def firstRestore : Prog Call.Response (Except BackupError RestoreResult) :=
  (CallByCall.restoreSnapshot (fun _ => ⟨[], []⟩) (uuid 1) .emptyDatabase).run

/-- It beside two writers, when `rest` is left of it. -/
def restoreScene (rest : Prog Call.Response (Except BackupError RestoreResult))
    (fleet : Fleet Bool) : Scene Bool :=
  ⟨fleet, [], rest⟩

abbrev BesideRun : Scene Bool → Scene Bool → Prop :=
  SceneRun (database [] []) (fun _ => False) (uuid 1) [uuid 1]

/-- It looks for its manifest after the backup, and for all else after the deletion. -/
theorem restores_beside_writers_backupAndDeletion : ∃ backup deletion w next s r,
    firstRestore = .call .view next ∧
      BesideRun (restoreScene firstRestore (twoWriters backedUpWorld))
        (restoreScene firstRestore (backupDone backup)) ∧
      BesideRun (restoreScene firstRestore (backupDone backup))
        (restoreScene (next (.ok (backupDone backup).world.store)) (backupDone backup)) ∧
      BesideRun (restoreScene (next (.ok (backupDone backup).world.store)) (backupDone backup))
        (restoreScene (next (.ok (backupDone backup).world.store))
          (deletionDone backup deletion w)) ∧
      snapshotManifestKey (uuid 2) ∉ (deletionDone backup deletion w).world.store ∧
      BesideRun (restoreScene (next (.ok (backupDone backup).world.store))
        (deletionDone backup deletion w)) s ∧
      s.rest = .ret r ∧ ∃ w', Returns ((database [] []).FailsWith fun _ => False)
        (restoreScene firstRestore (twoWriters backedUpWorld)).world
        (restoreSnapshot (fun _ _ => []) (uuid 1) .emptyDatabase).run r w' ∧
        w'.restored = s.restored := by
  rcases intact_backedUpWorld with ⟨root, hintact, hroot⟩
  obtain ⟨backup, hbackup⟩ := exists_backupDone admits_sparesSnapshot
  obtain ⟨deletion, w, hgone, hdeletion⟩ := exists_deletionDone admits_sparesSnapshot backup
  have hcalls : firstRestore.Within (fun _ _ => True) Call.OfRestore fun _ => True :=
    Prog.Within.mono (onlyRestores_restoreSnapshot _ _ _) fun _ _ => trivial
  obtain ⟨next, hfirst⟩ : ∃ next, firstRestore = .call .view next :=
    exists_restoreSnapshot_eq _ _ _
  rw [hfirst] at hcalls
  obtain ⟨s, r, hrest, hend⟩ : ∃ s r, BesideRun (restoreScene
      (next (.ok (backupDone backup).world.store)) (deletionDone backup deletion w)) s ∧
      s.rest = .ret r :=
    exists_sceneRun _ (hcalls.2 _ trivial)
  have hbackedUp : BesideRun (restoreScene firstRestore (twoWriters backedUpWorld))
      (restoreScene firstRestore (backupDone backup)) := hbackup.sparingRun.scene
  have hlooks : BesideRun (restoreScene firstRestore (backupDone backup))
      (restoreScene (next (.ok (backupDone backup).world.store)) (backupDone backup)) :=
    .single (sceneStep_looks hfirst)
  have hdeleted : BesideRun (restoreScene (next (.ok (backupDone backup).world.store))
      (backupDone backup)) (restoreScene (next (.ok (backupDone backup).world.store))
        (deletionDone backup deletion w)) := (hdeletion _ _ .start).sparingRun.scene
  have hrun : SceneRun (database [] []) (fun _ => False) (uuid 1) ([root].map (·.snapshotId))
      (restoreScene firstRestore (twoWriters backedUpWorld)) s := by
    rw [List.map_singleton, hroot]
    exact hbackedUp.trans (hlooks.trans (hdeleted.trans hrest))
  exact ⟨backup, deletion, w, next, s, r, hfirst, hbackedUp, hlooks, hdeleted, hgone, hrest, hend,
    restores_beside_writers manifestsReadBack (twoWriters_initial _) reachable_backedUpWorld
      hintact rfl hrun hend fun _ _ => []⟩

end Beside

end GraphqlOrmBackup
