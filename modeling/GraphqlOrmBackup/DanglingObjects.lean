import GraphqlOrmBackup.ChainLoadability
import GraphqlOrmBackup.Durability
import GraphqlOrmBackup.Garbage
import GraphqlOrmBackup.ObjectStranding
import GraphqlOrmBackup.OperationCalls

/-!
# No dangling objects

In a repository that is reached from an empty one, every object that a stored
manifest references is stored, wherever the operations have stopped: objects
are written before the manifest that references them, and deleted after the
last one.  If in addition the application's sources give the objects they
promise, every such object has the checksum that the manifest records.
-/

namespace GraphqlOrmBackup

open Interaction

section Codec

variable [Crates]

/-! ## Applications that give what they promise -/

/-- What is loaded for a reference hashes to its checksum. -/
def Host.Sound (host : Host) : Prop :=
  ∀ object bytes, host.objects.loadObjectStream object (.ok (.ok bytes)) →
    sha256Hex bytes = object.sha256Hex

/-- The objects that are seen are those that were promised. -/
def Call.SeesSound : (c : Call) → c.Response → Prop
  | .loadObjectStream object, r => ∀ bytes, r = .ok (.ok bytes) →
      sha256Hex bytes = object.sha256Hex
  | _, _ => True

/-- The call writes no object under a key that is not its own. -/
def Call.WritesHonestly : Call → Prop
  | .putBlob key _ => ∃ id, InSnapshotDir id key
  | .putBlobStreamIfAbsent key body => InObjectStore key → ∀ bytes, body = .ok bytes →
      sha256Hex bytes = lastSegment key
  | _ => True

section Honest

variable {host : Host} {w w' : World} {c : Call} {r : c.Response} {operation : Operation}

theorem admitsWorks_honest : AdmitsWorks Call.SeesSound Call.WritesHonestly where
  asks c hc := by
    cases c with
    | putBlob key body => exact hc.elim
    | putBlobStreamIfAbsent key body => exact hc.elim
    | _ => trivial
  put id key body hdir := ⟨id, hdir⟩
  object object source hsource := by
    rintro - bytes rfl
    have hsha := hsource bytes rfl
    exact hsha.trans (lastSegment_of_met hsha).symm
  discard _ := trivial
  deleteSnapshot _ _ _ _ _ := trivial
  deleteObjects _ _ _ _ := trivial

theorem Host.Sound.seesSound (hsound : host.Sound) (h : host.MayFail c w r w') :
    c.SeesSound r := by
  cases c with
  | loadObjectStream object =>
    intro bytes heq
    rcases h with ⟨hload, -⟩ | ⟨e, rfl, -⟩
    · exact hsound object bytes (heq ▸ hload)
    · cases heq
  | _ => trivial

theorem Host.Answers.honestObjects (h : host.Answers c w r w') (hc : c.WritesHonestly)
    (hw : HonestObjects w.store) : HonestObjects w'.store := by
  cases c with
  | putBlob key body =>
    rcases h with ⟨-, rfl⟩
    rcases hc with ⟨id, hdir⟩
    intro key' hobj
    refine honestAt_putBlob (fun _ => hw key' hobj) fun heq => ?_
    exact absurd (heq ▸ hdir) (hobj.not_inSnapshotDir id)
  | putBlobStreamIfAbsent key body =>
    rcases h with ⟨s', hputs, rfl⟩
    unfold PutsIfAbsent at hputs
    split at hputs
    · next bytes _ =>
      rw [World.withStore_store, hputs.2]
      exact fun key' hobj => honestAt_putBlob (fun _ => hw key' hobj)
        fun heq => hc (heq ▸ hobj) bytes rfl
    all_goals
      rw [World.withStore_store, hputs.2]
      exact hw
  | deleteBlob key =>
    rcases h with ⟨-, rfl⟩
    exact fun key' hobj => honestAt_deleteBlob fun _ => hw key' hobj
  | restore request =>
    rcases h with ⟨-, rfl⟩
    exact hw
  | _ =>
    rcases h with ⟨-, rfl⟩
    exact hw

/-- The objects stay honest, wherever the operation stops. -/
theorem Operation.Takes.honestObjects (hsound : host.Sound) (hw : HonestObjects w.store)
    (htakes : operation.Takes host w w') : HonestObjects w'.store := by
  rcases htakes with ⟨rest, hrun⟩
  refine hrun.crash (admitsWorks_honest.wpE_operation (I := fun w => HonestObjects w.store)
    (fun w w' hsame h => h.of_sameButLock hsame) (fun c w r w' h => hsound.seesSound h)
    (fun c w r w' hc hw h => h.honestObjects hc hw) operation hw)

end Honest

/-! ## The blobs of new entries -/

/-- A task that is past its write relies on its blob. -/
def ObjectStage.Placed (s : Store) (object : BackupObjectRef) : ObjectStage → Prop
  | .recheck => objectContentKey object.sha256Hex ∈ s
  | .done (.ok entry) => InObjectStore entry.2.contentKey ∧ entry.2.contentKey ∈ s
  | _ => True

/-- Unless the pool is going to fail, the blobs of its entries are in place. -/
def Placing (pool : ObjectPool) (w : World) : Prop :=
  (∃ task ∈ pool.flight, task.stage.Fails) ∨
    ((∀ task ∈ pool.flight, task.stage.Placed w.store task.object) ∧
      ∀ entry ∈ pool.collected, InObjectStore entry.2.contentKey ∧ entry.2.contentKey ∈ w.store)

section Pool

variable {host : Host} {index n admitted i : Nat} {object : BackupObjectRef} {w w₁ w' : World}
  {stage stage' : ObjectStage} {flight : List ObjectFlight}
  {collected : List (Nat × ObjectBackupEntry)} {pool pool' : ObjectPool} {task : ObjectFlight}
  {objectRefs : List BackupObjectRef}

omit [Crates] in
theorem ObjectStage.Placed.mono {s s' : Store} (h : stage.Placed s object)
    (hkeep : ∀ key ∈ s, key ∈ s') : stage.Placed s' object := by
  cases stage with
  | recheck => exact hkeep _ h
  | done result =>
    cases result with
    | ok entry => exact ⟨h.1, hkeep _ h.2⟩
    | error e => trivial
  | load => trivial
  | put source => trivial
  | discard actual => trivial

/-- A step that does not fail takes no blob out. -/
theorem StageStep.placed (hmove : StageStep host index object w₁ stage w' stage')
    (hnot : ¬ stage.Fails) (hnot' : ¬ stage'.Fails) (hplaced : stage.Placed w₁.store object) :
    stage'.Placed w'.store object ∧ ∀ key ∈ w₁.store, key ∈ w'.store := by
  cases hmove with
  | @written bytes hfree =>
    rw [stageAfterPut] at hnot' ⊢
    split at hnot'
    · rw [if_pos ‹_›]
      exact ⟨⟨inObjectStore_objectContentKey _, (AList.mem_insert _).mpr (Or.inl rfl)⟩,
        fun key hkey => (AList.mem_insert _).mpr (Or.inr hkey)⟩
    · exact absurd trivial hnot'
  | @rechecked source hload =>
    refine ⟨?_, fun _ hkey => hkey⟩
    cases source with
    | error e => exact absurd trivial hnot'
    | ok bytes =>
      rw [stageAfterRecheck] at hnot' ⊢
      split at hnot'
      · rw [if_pos ‹_›]
        exact ⟨inObjectStore_objectContentKey _, hplaced⟩
      · exact absurd trivial hnot'
  | loaded => exact ⟨trivial, fun _ hkey => hkey⟩
  | «exists» hmem => exact ⟨hmem, fun _ hkey => hkey⟩
  | notLoaded => exact absurd trivial hnot'
  | broken => exact absurd trivial hnot'
  | notRechecked => exact absurd trivial hnot'
  | discarded => exact absurd trivial hnot

theorem Placing.step (h : Placing ⟨admitted, flight, collected⟩ w₁) (htask : flight[i]? = some task)
    (hmove : StageStep host task.index task.object w₁ task.stage w' stage') :
    Placing ⟨admitted, flight.set i { task with stage := stage' }, collected⟩ w' := by
  have hlt : i < flight.length := (List.getElem?_eq_some_iff.mp htask).1
  by_cases hfails : stage'.Fails
  · exact Or.inl ⟨_, List.mem_set hlt _, hfails⟩
  rcases h with hex | ⟨hplaced, hentries⟩
  · exact Or.inl (fails_set htask hmove.fails hex)
  have hold : ¬ task.stage.Fails := fun hold => hfails (hmove.fails hold)
  obtain ⟨hplaced', hkeep⟩ := hmove.placed hold hfails (hplaced task (List.mem_of_getElem? htask))
  refine Or.inr ⟨fun t ht => ?_, fun entry hentry =>
    ⟨(hentries entry hentry).1, hkeep _ (hentries entry hentry).2⟩⟩
  rcases List.mem_or_eq_of_mem_set ht with ht | rfl
  · exact (hplaced t ht).mono hkeep
  · exact hplaced'

theorem Placing.poolStep
    (hstep : ObjectPoolStep (StageMayFail host) objectRefs n (w₁, pool) (w', pool'))
    (h : Placing pool w₁) : Placing pool' w' := by
  cases hstep with
  | enter hobject hroom =>
    rcases h with ⟨t, ht, hfails⟩ | ⟨hplaced, hentries⟩
    · exact Or.inl ⟨t, List.mem_append_left _ ht, hfails⟩
    · refine Or.inr ⟨fun t ht => ?_, hentries⟩
      rcases List.mem_append.mp ht with ht | ht
      · exact hplaced t ht
      · rw [List.mem_singleton.mp ht]
        trivial
  | move htask hmove =>
    have hlt := (List.getElem?_eq_some_iff.mp htask).1
    cases hmove with
    | step hstage => exact h.step htask hstage
    | failed e => exact Or.inl ⟨_, List.mem_set hlt _, trivial⟩
    | failedAfter e hstage => exact Or.inl ⟨_, List.mem_set hlt _, trivial⟩
  | @collect _ admitted i index flight collected object entry htask =>
    have hsub : List.Sublist (flight.eraseIdx i) flight := List.eraseIdx_sublist _ _
    rcases h with ⟨t, ht, hfails⟩ | ⟨hplaced, hentries⟩
    · refine Or.inl ⟨t, ?_, hfails⟩
      rcases List.mem_iff_getElem?.mp ht with ⟨k, hk⟩
      refine List.mem_eraseIdx_iff_getElem?.mpr ⟨k, ?_, hk⟩
      rintro rfl
      rw [htask] at hk
      rw [← Option.some.inj hk] at hfails
      exact hfails
    · refine Or.inr ⟨fun t ht => hplaced t (hsub.subset ht), fun entry' hentry' => ?_⟩
      rcases List.mem_append.mp hentry' with hentry' | hentry'
      · exact hentries entry' hentry'
      · rw [List.mem_singleton.mp hentry']
        exact hplaced _ (List.mem_of_getElem? htask)

/-- **The blobs of the entries are in place**, whatever the sources give. -/
theorem wpE_writeObjectEntries_placed (sched : List Poll) (objectRefs : List BackupObjectRef)
    (objectConcurrency : Nat) (w : World) :
    wpE host.MayFail (AddsObjects w) (writeObjectEntries sched objectRefs objectConcurrency)
      (fun entries w' => ∀ entry ∈ entries, InObjectStore entry.contentKey ∧
        entry.contentKey ∈ w'.store) (fun _ _ => True) w := by
  have hpool : wpE host.MayFail (AddsObjects w)
      (tryCollect (max objectConcurrency 1) sched (objectTasks objectRefs))
      (fun entries w' => ∀ entry ∈ entries, InObjectStore entry.2.contentKey ∧
        entry.2.contentKey ∈ w'.store) (fun _ _ => True) w := by
    refine wp_objectPool (J := fun pool w' => Adding w pool w' ∧ Placing pool w')
      (movesOf_stageMayFail host) (by omega)
      (fun _ _ _ _ hstep h => ⟨h.1.poolStep hstep, h.2.poolStep hstep⟩) (fun _ _ h => h.1.adds) ?_
      (fun _ _ _ _ _ _ _ _ => trivial) sched ?_
    · rintro admitted collected w' - ⟨-, ⟨t, ht, -⟩ | ⟨-, hentries⟩⟩
      · exact absurd ht List.not_mem_nil
      · exact hentries
    · refine ⟨⟨AddsObjects.refl w, fun _ ht => absurd ht List.not_mem_nil,
        fun hhonest => Or.inr ⟨hhonest, fun _ ht => absurd ht List.not_mem_nil,
          fun _ hentry => absurd hentry List.not_mem_nil⟩⟩, Or.inr ⟨?_, ?_⟩⟩
      · exact fun _ ht => absurd ht List.not_mem_nil
      · exact fun _ hentry => absurd hentry List.not_mem_nil
  refine wpE.seq hpool fun entries w' hadds hentries => ⟨hadds, fun entry hentry => ?_⟩
  rcases List.mem_map.mp hentry with ⟨pair, hpair, rfl⟩
  exact hentries pair (List.mem_mergeSort.mp hpair)

end Pool

/-! ## Writers -/

/-- The reference is to an object that is stored, and stands in the relation `R`
    to the recorded checksum. -/
def Held (R : String → Bytes → Prop) (s : Store) (check : String × String) : Prop :=
  InObjectStore check.1 ∧ ∃ body, s.lookup check.1 = some body ∧ R check.2 body

/-- The objects that the stored manifests reference are held. -/
def ObjectsHeld (R : String → Bytes → Prop) (s : Store) : Prop :=
  ∀ id manifest, loadManifest s id = .ok manifest → ∀ check ∈ manifest.objectChecks, Held R s check

omit [Crates] in
/-- No manifest is written, and no object is taken out or replaced. -/
structure Supplements (w w' : World) : Prop where
  manifests : ∀ id, w'.store.lookup (manifestKey id) = w.store.lookup (manifestKey id)
  objects : ∀ key, InObjectStore key → key ∈ w.store → w'.store.lookup key = w.store.lookup key

omit [Crates] in
/-- Neither manifests nor objects are touched. -/
structure Prepares (w w' : World) : Prop where
  manifests : ∀ id, w'.store.lookup (manifestKey id) = w.store.lookup (manifestKey id)
  objects : ∀ key, InObjectStore key → w'.store.lookup key = w.store.lookup key

/-- Objects that are written to the repository, or found in it, are held. -/
def StoresHeld (R : String → Bytes → Prop) (host : Host) (s : Store) : Prop :=
  ∀ w₁ : World, (∀ key, InObjectStore key → w₁.store.lookup key = s.lookup key) →
    ∀ sched objectRefs objectConcurrency,
      wpE host.MayFail (AddsObjects w₁) (writeObjectEntries sched objectRefs objectConcurrency)
        (fun entries w' => ∀ entry ∈ entries, Held R w'.store (entry.contentKey, entry.sha256Hex))
        (fun _ _ => True) w₁

section Writers

variable {R : String → Bytes → Prop} {host : Host} {w w₁ w₂ w' : World}

omit [Crates] in
theorem Prepares.refl (w : World) : Prepares w w := ⟨fun _ => rfl, fun _ _ => rfl⟩

omit [Crates] in
theorem Prepares.trans (h : Prepares w w₁) (h' : Prepares w₁ w') : Prepares w w' :=
  ⟨fun id => (h'.manifests id).trans (h.manifests id),
    fun key hobj => (h'.objects key hobj).trans (h.objects key hobj)⟩

omit [Crates] in
theorem Prepares.supplements (h : Prepares w w') : Supplements w w' :=
  ⟨h.manifests, fun key hobj _ => h.objects key hobj⟩

omit [Crates] in
/-- Object tasks supplement what was prepared. -/
theorem Prepares.adds (h : Prepares w w₁) (hadds : AddsObjects w₁ w') : Supplements w w' where
  manifests id := (hadds.lookup _ (Or.inr fun hobj =>
    hobj.not_inSnapshotDir id (inSnapshotDir_snapshotManifestKey id))).trans (h.manifests id)
  objects key hobj hkey :=
    (hadds.lookup key (Or.inl ((Store.mem_congr (h.objects key hobj)).mpr hkey))).trans
      (h.objects key hobj)

omit [Crates] in
theorem SameButLock.prepares (h : SameButLock w w') : Prepares w w' where
  manifests id := h.1 _ (inSnapshotDir_snapshotManifestKey id).ne_lock
  objects key hobj := h.1 key hobj.ne_lock

omit [Crates] in
theorem prepares_put {id : Uuid} {key : String} (hdir : InSnapshotDir id key)
    (hne : key ≠ snapshotManifestKey id) (body : Bytes) : Prepares w (w.put key body) where
  manifests id' := by
    refine Store.lookup_putBlob_of_ne _ _ ?_
    rintro rfl
    obtain rfl := hdir.unique (inSnapshotDir_snapshotManifestKey id')
    exact hne rfl
  objects key' hobj := by
    refine Store.lookup_putBlob_of_ne _ _ ?_
    rintro rfl
    exact hobj.not_inSnapshotDir id hdir

omit [Crates] in
theorem Held.congr {s s' : Store} {check : String × String} (h : Held R s check)
    (hlookup : s'.lookup check.1 = s.lookup check.1) : Held R s' check := by
  rcases h with ⟨hobj, body, hbody, hR⟩
  exact ⟨hobj, body, hlookup.trans hbody, hR⟩

theorem ObjectsHeld.supplement (h : ObjectsHeld R w.store) (hsupp : Supplements w w') :
    ObjectsHeld R w'.store := by
  intro id manifest hload check hcheck
  rw [loadManifest_congr (hsupp.manifests id)] at hload
  obtain ⟨hobj, body, hbody, hR⟩ := h id manifest hload check hcheck
  exact ⟨hobj, body, (hsupp.objects _ hobj (Store.mem_of_lookup hbody)).trans hbody, hR⟩

theorem lockFree_objectsHeld : LockFree fun w => ObjectsHeld R w.store :=
  fun _ _ hsame h => h.supplement hsame.prepares.supplements

/-- Payloads are preparation. -/
theorem wpE_payloads_prepares {T γ : Type} [SerializeJson T] {id : Uuid} {key name : γ → String}
    {entries : γ → List T} (hdir : ∀ x, InSnapshotDir id (key x))
    (hne : ∀ x, key x ≠ snapshotManifestKey id) (l : List γ) :
    wpE host.MayFail (Prepares w) (l.mapM' fun x => writePayload (key x) (name x) (entries x))
      (fun _ _ => True) (fun _ _ => True) w := by
  refine wpE_mapM' (P := fun _ _ _ => True) l [] trivial (Prepares.refl w) ?_
  intro x done rest w₁ _ hw₁ _
  exact (wpE_writePayload hw₁ fun body => hw₁.trans (prepares_put (hdir x) (hne x) body)).mono
    (fun _ _ _ _ => trivial) fun _ _ _ _ => trivial

/-- The manifest is written when its objects are in place. -/
theorem wpE_writeManifest_held (hread : ManifestsReadBack) (h : ObjectsHeld R w.store)
    {base : BackupSnapshotManifest}
    (hbase : ∀ entry ∈ base.objects, Held R w.store (entry.contentKey, entry.sha256Hex)) :
    wpE host.MayFail (fun w' => ObjectsHeld R w'.store) (writeManifest base) (fun _ _ => True)
      (fun _ _ => True) w := by
  refine wpE.seq (P := fun manifest w' => setManifestChecksum base = .ok manifest ∧ w' = w)
    (wpE_ofExcept.mpr ⟨h, ?_⟩) ?_
  · cases hset : setManifestChecksum base with
    | ok manifest => exact ⟨rfl, rfl⟩
    | error e => trivial
  rintro manifest w - ⟨hset, rfl⟩
  refine wpE.seq (P := fun body w' => Crates.manifestToVecPretty manifest = .ok body ∧ w' = w)
    (wpE_ofExcept.mpr ⟨h, ?_⟩) ?_
  · cases hbody : Crates.manifestToVecPretty manifest with
    | ok body => exact ⟨rfl, rfl⟩
    | error e => trivial
  rintro body w - ⟨hbody, rfl⟩
  rcases setManifestChecksum_eq_ok.mp hset with ⟨checksum, -, rfl⟩
  have hdoc := hread _ _ hbody
  have hkeep : ∀ check, Held R w.store check →
      Held R (w.put (snapshotManifestKey base.snapshotId) body).store check := by
    intro check hheld
    refine hheld.congr (Store.lookup_putBlob_of_ne _ _ fun heq => ?_)
    exact (heq ▸ hheld.1).not_inSnapshotDir _ (inSnapshotDir_snapshotManifestKey _)
  have hput : ObjectsHeld R (w.put (snapshotManifestKey base.snapshotId) body).store := by
    intro id manifest hload check hcheck
    by_cases hid : manifestKey id = snapshotManifestKey base.snapshotId
    · rcases loadManifest_eq_ok.mp hload with ⟨doc, hlookup, hdoc', -⟩
      rw [hid, World.put_store, Store.lookup_putBlob_self] at hlookup
      obtain rfl := Option.some.inj hlookup
      rw [hdoc] at hdoc'
      obtain rfl := Except.ok.inj hdoc'
      rcases List.mem_map.mp hcheck with ⟨entry, hentry, rfl⟩
      exact hkeep _ (hbase entry hentry)
    · rw [World.put_store, loadManifest_congr (Store.lookup_putBlob_of_ne _ _ hid)] at hload
      exact hkeep _ (h id manifest hload check hcheck)
  refine wpE.seq (P := fun _ _ => True) (wpE_putBlob h (fun _ _ _ => trivial) hput trivial) ?_
  exact fun _ _ hheld _ => ⟨hheld, trivial⟩

/-- After its payloads, a backup writes its objects and then its manifest. -/
theorem wpE_finish_held {α : Type} (hread : ManifestsReadBack) (h : ObjectsHeld R w.store)
    (hstores : StoresHeld R host w.store) (hprep : Prepares w w₁) (sched : List Poll)
    (objectRefs : List BackupObjectRef) (objectConcurrency : Nat)
    {base : List ObjectBackupEntry → BackupSnapshotManifest} (hbase : ∀ l, (base l).objects = l)
    (result : BackupSnapshotManifest → α) :
    wpE host.MayFail (fun w' => ObjectsHeld R w'.store) (do
      let objectEntries ← writeObjectEntries sched objectRefs objectConcurrency
      let manifest ← writeManifest (base objectEntries)
      pure (result manifest)) (fun _ _ => True) (fun _ _ => True) w₁ := by
  refine wpE.seq ((hstores w₁ hprep.objects sched objectRefs objectConcurrency).relax
    (fun w₂ hadds => h.supplement (hprep.adds hadds)) fun _ _ _ h => h) ?_
  rintro objectEntries w₂ - ⟨hadds, hheld⟩
  refine wpE.seq (wpE_writeManifest_held hread (h.supplement (hprep.adds hadds)) ?_)
    fun _ _ hheld _ => ⟨hheld, trivial⟩
  rwa [hbase]

theorem wpE_createFullBackupInner_held (hread : ManifestsReadBack)
    (h : ObjectsHeld R w.store) (hstores : StoresHeld R host w.store) (sched : List Poll)
    (request : FullBackupRequest) (options : BackupExecutionOptions) :
    wpE host.MayFail (fun w' => ObjectsHeld R w'.store)
      (createFullBackupInner sched request options) (fun _ _ => True) (fun _ _ => True) w := by
  apply wpE.seq (wpE_planFullBackup h)
  rintro ⟨schema, tables, objects⟩ w - ⟨-, rfl⟩
  refine wpE.seq ((wpE_payloads_prepares (fun table : BackupTableExport =>
    inSnapshotDir_databaseTableKey request.snapshotId table.tableName)
    (fun _ => databaseTableKey_ne_snapshotManifestKey _ _) tables).relax
    (fun _ hprep => h.supplement hprep.supplements) fun _ _ _ h => h) ?_
  rintro tableEntries w₁ - ⟨hprep, -⟩
  exact wpE_finish_held hread h hstores hprep sched _ _ (fun _ => rfl) _

theorem wpE_createIncrementalBackupInner_held (hread : ManifestsReadBack)
    (h : ObjectsHeld R w.store) (hstores : StoresHeld R host w.store)
    (sched : List Poll) (request : IncrementalBackupRequest) (options : BackupExecutionOptions) :
    wpE host.MayFail (fun w' => ObjectsHeld R w'.store)
      (createIncrementalBackupInner sched request options) (fun _ _ => True) (fun _ _ => True) w := by
  have hquery : ∀ c : Call, (∀ r w', host.Answers c w r w' → w' = w) →
      wpE host.MayFail (fun w' => ObjectsHeld R w'.store) (call c) (fun _ w' => w' = w)
        (fun _ _ => True) w := fun c hc =>
    (wpE_query (P := fun _ => True) h fun r w' hans => ⟨hc r w' hans, fun _ _ => trivial⟩).mono
      (fun _ _ _ h => h.2) fun _ _ _ h => h
  apply wpE.seq (hquery .schemaSnapshot fun r w' hans => hans.2)
  rintro schema _ - rfl
  apply wpE.seq (hquery (.exportIncremental _) fun r w' hans => hans.2)
  rintro changes _ - rfl
  apply wpE.seq (hquery (.listObjectsForIncrementalBackup _) fun r w' hans => hans.2)
  rintro objectRefs w - rfl
  refine wpE.seq ((wpE_payloads_prepares (fun group : ChangeGroup =>
    inSnapshotDir_databaseChangesKey request.snapshotId group.tableName)
    (fun _ => databaseChangesKey_ne_snapshotManifestKey _ _) _).relax
    (fun _ hprep => h.supplement hprep.supplements) fun _ _ _ h => h) ?_
  rintro changeEntries w₁ - ⟨hprep, -⟩
  exact wpE_finish_held hread h hstores hprep sched _ _ (fun _ => rfl) _

theorem wpE_compactChainInner_held (hread : ManifestsReadBack) (hw : CrateWritten w.store)
    (h : ObjectsHeld R w.store) (hR : ∀ body, R (sha256Hex body) body)
    (order : BackupSnapshotManifest → CompletionOrder) (request : CompactChainRequest) :
    wpE host.MayFail (fun w' => ObjectsHeld R w'.store) (compactChainInner order request)
      (fun _ _ => True) (fun _ _ => True) w := by
  have hsame : ∀ w', w' = w → ObjectsHeld R w'.store := by
    rintro w' rfl
    exact h
  have hreadStore : ∀ {α : Type} (f : Store → Except BackupError α),
      wpE host.MayFail (fun w' => ObjectsHeld R w'.store) (read f)
        (fun a w' => w' = w ∧ f w.store = .ok a) (fun _ _ => True) w := fun f =>
    (wpE_read (I := (· = w)) (P := fun a _ => f w.store = .ok a) rfl (fun _ _ _ => trivial)
      fun _ ha => ha).relax hsame fun _ _ _ h => h
  apply wpE.seq (hreadStore _)
  rintro chain w - ⟨rfl, hload⟩
  refine wpE.seq (P := fun _ w' => w' = w) (wpE_ofExcept.mpr ⟨h, ?_⟩) ?_
  · cases (chain.head?).elim emptyChain (pure : _ → Except BackupError _) with
    | ok root => rfl
    | error e => trivial
  rintro root w - rfl
  apply wpE.seq (hreadStore _)
  rintro tableRows w - ⟨rfl, -⟩
  refine wpE.seq ((wpE_payloads_prepares (fun table : String × Std.TreeMap String BackupRow =>
    inSnapshotDir_databaseTableKey request.snapshotId table.1)
    (fun _ => databaseTableKey_ne_snapshotManifestKey _ _) _).relax
    (fun _ hprep => h.supplement hprep.supplements) fun _ _ _ h => h) ?_
  rintro tableEntries w₁ hheld ⟨hprep, -⟩
  refine wpE.seq (P := fun _ w' => w' = w₁) (wpE_ofExcept.mpr ⟨hheld, ?_⟩) ?_
  · cases (chain.getLast?).elim emptyChain (pure : _ → Except BackupError _) with
    | ok latest => rfl
    | error e => trivial
  rintro latest w₁ - rfl
  refine wpE.seq (wpE_writeManifest_held hread hheld fun entry hentry => ?_)
    fun _ _ hheld _ => ⟨hheld, trivial⟩
  -- the objects of a synthetic snapshot are objects of the chain, which was verified
  obtain ⟨manifest, hmem, hentry⟩ := mem_compactObjectEntries hentry
  obtain ⟨body, hbody, hsha⟩ := ((loadVerifiedChain_eq_ok.mp hload).2 manifest hmem).2
    (entry.contentKey, entry.sha256Hex)
    (List.mem_append_left _ (List.mem_map.mpr ⟨entry, hentry, rfl⟩))
  have hobj := (hw.chainKeysStored request.sourceSnapshotId chain
    (loadVerifiedChain_eq_ok.mp hload).1 manifest hmem).1 entry hentry
  exact ⟨hobj, body, (hprep.objects _ hobj).trans hbody, hsha ▸ hR body⟩

end Writers

/-! ## Deletions -/

/-- Of the manifests only kept ones are left, and their objects are as they were. -/
structure Collecting (w : World) (kept : BackupSnapshotManifest → Prop) (w' : World) : Prop where
  manifests : ∀ id manifest, loadManifest w'.store id = .ok manifest →
    loadManifest w.store id = .ok manifest ∧ kept manifest
  objects : ∀ id manifest, loadManifest w.store id = .ok manifest → kept manifest →
    ∀ check ∈ manifest.objectChecks, w'.store.lookup check.1 = w.store.lookup check.1

section Deletions

variable {R : String → Bytes → Prop} {host : Host} {w w₁ w' : World}
  {kept : BackupSnapshotManifest → Prop} {key : String}

theorem ObjectsHeld.collect (h : ObjectsHeld R w.store) (hcollect : Collecting w kept w') :
    ObjectsHeld R w'.store := by
  intro id manifest hload check hcheck
  obtain ⟨hload, hkept⟩ := hcollect.manifests id manifest hload
  exact (h id manifest hload check hcheck).congr
    (hcollect.objects id manifest hload hkept check hcheck)

theorem Collecting.refl (w : World) : Collecting w (fun _ => True) w :=
  ⟨fun _ _ hload => ⟨hload, trivial⟩, fun _ _ _ _ _ _ => rfl⟩

theorem loadManifest_of_deleteBlob {s : Store} {id : Uuid} {manifest : BackupSnapshotManifest}
    (h : loadManifest (s.deleteBlob key) id = .ok manifest) : loadManifest s id = .ok manifest := by
  by_cases hid : manifestKey id = key
  · rcases loadManifest_eq_ok.mp h with ⟨doc, hlookup, -⟩
    rw [hid, Store.lookup_deleteBlob_self] at hlookup
    cases hlookup
  · rwa [loadManifest_congr (Store.lookup_deleteBlob_of_ne s hid)] at h

theorem Collecting.delete (h : Collecting w kept w')
    (hkey : ∀ id manifest, loadManifest w.store id = .ok manifest → kept manifest →
      ∀ check ∈ manifest.objectChecks, check.1 ≠ key) :
    Collecting w kept (w'.withStore (w'.store.deleteBlob key)) where
  manifests id manifest hload := h.manifests id manifest (loadManifest_of_deleteBlob hload)
  objects id manifest hload hkept check hcheck :=
    (Store.lookup_deleteBlob_of_ne _ (hkey id manifest hload hkept check hcheck)).trans
      (h.objects id manifest hload hkept check hcheck)

omit [Crates] in
/-- Deletions that keep an invariant one by one. -/
theorem wpE_deleteBlobs_keeps {I : World → Prop} {keys : List String}
    (hkeys : ∀ key ∈ keys, ∀ w, I w → I (w.withStore (w.store.deleteBlob key))) (hw : I w) :
    wpE host.MayFail I (deleteBlobs keys) (fun _ _ => True) (fun _ _ => True) w := by
  refine wpE.seq (wpE_forM (P := fun _ _ => True) keys trivial hw ?_) fun _ _ hI _ => ⟨hI, trivial⟩
  rintro key rest w' ⟨pre, hpre⟩ hI -
  exact wpE_deleteBlob hI (fun _ _ _ => trivial) (hkeys key (hpre ▸ by simp) w' hI) trivial

theorem wpE_deleteSnapshotBlobs_collecting (hw : CrateWritten w.store) {id : Uuid}
    (h : Collecting w kept w') :
    wpE host.MayFail (Collecting w kept) (deleteSnapshotBlobs id) (fun _ _ => True)
      (fun _ _ => True) w' := by
  refine wpE.seq (wpE_listBlobs (P := fun keys _ => ∀ key ∈ keys,
    startsWith key (snapshotPrefix id) = true) h (fun _ _ _ => trivial)
    fun keys hkeys key hkey => ((hkeys.2 key).mp hkey).2) ?_
  intro keys w₁ hcollect hkeys
  refine wpE_deleteBlobs_keeps (fun key hkey w₂ h => h.delete ?_) hcollect
  rintro id' manifest hload - check hcheck rfl
  have hobj := hw.objects id' manifest hload check hcheck
  exact absurd ((hkeys _ hkey).symm.trans (hobj.not_snapshots id)) (by decide)

theorem wpE_deleteUnreachable_collecting {retained : List BackupSnapshotManifest}
    (h : Collecting w (· ∈ retained) w') :
    wpE host.MayFail (Collecting w (· ∈ retained))
      (deleteUnreachable (retained.flatMap collectReachableKeys)) (fun _ _ => True)
      (fun _ _ => True) w' := by
  refine wpE.seq (wpE_listBlobs (P := fun _ _ => True) h (fun _ _ _ => trivial)
    fun _ _ => trivial) ?_
  intro keys w₁ hcollect _
  refine wpE_deleteBlobs_keeps (fun key hkey w₂ h => h.delete ?_) hcollect
  rintro id manifest - hkept check hcheck rfl
  refine of_decide_eq_true (List.mem_filter.mp hkey).2 ?_
  exact List.mem_flatMap.mpr ⟨manifest, hkept,
    mem_collectReachableKeys (List.mem_map_of_mem hcheck)⟩

/-- The expired snapshots are taken out, and with the last of them their
    manifests are gone. -/
theorem wpE_expire_collecting (hw : CrateWritten w.store) (expired : List Uuid) :
    wpE host.MayFail (Collecting w fun _ => True) (expired.mapM' deleteSnapshotBlobs)
      (fun _ w₁ => ∀ id ∈ expired, w₁.store.lookup (manifestKey id) = none) (fun _ _ => True) w := by
  have hcollect := wpE_mapM' (H := host.MayFail) (E := fun _ _ => True) (f := deleteSnapshotBlobs)
    (P := fun _ _ _ => True) expired [] trivial (Collecting.refl w) fun id _ _ w₁ _ h _ =>
      (wpE_deleteSnapshotBlobs_collecting hw h).mono (fun _ _ _ h => h) fun _ _ _ h => h
  have herased := wpE_mapM'_erased (@wpE_deleteSnapshotBlobs_erased host) expired w
  refine ((hcollect.and herased).relax (fun _ h => h.1) fun _ _ _ _ => trivial).mono ?_
    fun _ _ _ _ => trivial
  intro blobs w₁ _ hr id hid
  refine (hr.2.2 (manifestKey id)).1 ⟨id, hid, ?_⟩
  exact InSnapshotDir.startsWith_prefix (inSnapshotDir_snapshotManifestKey id)

/-- Once the expired manifests are gone, the objects of the others are kept. -/
theorem wpE_deleteUnreachable_held (h : ObjectsHeld R w.store)
    (expired : List Uuid) {retained : List BackupSnapshotManifest}
    (hretained : ∀ id manifest, loadManifest w.store id = .ok manifest → id ∉ expired →
      manifest ∈ retained) (hcollect : Collecting w (fun _ => True) w')
    (hgone : ∀ id ∈ expired, w'.store.lookup (manifestKey id) = none) :
    wpE host.MayFail (fun w' => ObjectsHeld R w'.store)
      (deleteUnreachable (retained.flatMap collectReachableKeys)) (fun _ _ => True)
      (fun _ _ => True) w' := by
  have hcollect' : Collecting w (· ∈ retained) w' := by
    refine ⟨fun id manifest hload => ?_, fun id manifest hload _ =>
      hcollect.objects id manifest hload trivial⟩
    obtain ⟨hload', -⟩ := hcollect.manifests id manifest hload
    refine ⟨hload', hretained id manifest hload' fun hexpired => ?_⟩
    rcases loadManifest_eq_ok.mp hload with ⟨doc, hlookup, -⟩
    exact absurd ((hgone id hexpired).symm.trans hlookup) (by simp)
  exact ((wpE_deleteUnreachable_collecting hcollect').relax
    (fun _ hcollect => h.collect hcollect) fun _ _ _ h => h).mono (fun _ _ _ _ => trivial)
    fun _ _ _ h => h

theorem wpE_pruneInner_held (order : HashOrder) (keepPolicy : KeepPolicy)
    (hw : CrateWritten w.store) (h : ObjectsHeld R w.store) :
    wpE host.MayFail (fun w' => ObjectsHeld R w'.store) (pruneInner order keepPolicy)
      (fun _ _ => True) (fun _ _ => True) w := by
  have hsame : ∀ w', w' = w → ObjectsHeld R w'.store := by
    rintro w' rfl
    exact h
  apply wpE.seq ((wpE_loadAllManifests hw).relax hsame fun _ _ _ h => h)
  rintro manifests w - ⟨rfl, hlist, -⟩
  apply wpE.seq ((wpE_mapM'_read _).relax hsame fun _ _ _ h => h)
  rintro chains w - ⟨rfl, hchains⟩
  refine wpE.seq ((wpE_expire_collecting hw _).relax (fun _ hcollect => h.collect hcollect)
    fun _ _ _ h => h) ?_
  rintro snapshotBlobs w₁ - ⟨hcollect, hgone⟩
  refine wpE.seq (wpE_deleteUnreachable_held h _ (fun id manifest hload hid => ?_)
    hcollect hgone) fun _ _ hheld _ => ⟨hheld, trivial⟩
  -- a manifest whose id is not expired is one that is retained
  obtain rfl := hw.snapshotId _ _ hload
  have hmem : manifest ∈ manifests.mergeSort newerFirst :=
    List.mem_mergeSort.mpr ((hlist.mem_iff manifest).mpr ⟨_, hload⟩)
  rw [(order.perm _).mem_iff, List.mem_filter, decide_eq_true_eq, List.mem_dedup, List.mem_dedup,
    not_and, not_not] at hid
  rcases List.mem_map.mp (hid (List.mem_map_of_mem hmem)) with ⟨manifest', hmem', heq⟩
  have hload' := ((mem_flatten_iff hw hlist hchains).mp hmem').2
  rw [heq, hload] at hload'
  rwa [Except.ok.inj hload']

theorem wpE_deleteSnapshotInner_held (deleted : Uuid) (hw : CrateWritten w.store)
    (h : ObjectsHeld R w.store) :
    wpE host.MayFail (fun w' => ObjectsHeld R w'.store) (deleteSnapshotInner deleted)
      (fun _ _ => True) (fun _ _ => True) w := by
  have hsame : ∀ w', w' = w → ObjectsHeld R w'.store := by
    rintro w' rfl
    exact h
  apply wpE.seq ((wpE_loadAllManifests hw).relax hsame fun _ _ _ h => h)
  rintro manifests w - ⟨rfl, hlist, -⟩
  split
  · exact ⟨h, trivial⟩
  split
  · exact ⟨h, trivial⟩
  have hdelete : wpE host.MayFail (Collecting w fun _ => True) (deleteSnapshotBlobs deleted)
      (fun _ _ => True) (fun _ _ => True) w :=
    wpE_deleteSnapshotBlobs_collecting hw (Collecting.refl w)
  have hphase := hdelete.and (wpE_deleteSnapshotBlobs_erased deleted w)
  refine wpE.seq (hphase.relax (fun _ hphase => h.collect hphase.1) fun _ _ _ _ => trivial) ?_
  rintro snapshotBlobs w₁ - ⟨⟨hcollect, -⟩, -, herased⟩
  refine wpE.seq (wpE_deleteUnreachable_held h [deleted]
    (fun id manifest hload hid => ?_) hcollect fun id hid => ?_)
    fun _ _ hheld _ => ⟨hheld, trivial⟩
  · obtain rfl := hw.snapshotId _ _ hload
    refine List.mem_filter.mpr ⟨(hlist.mem_iff manifest).mpr ⟨_, hload⟩, decide_eq_true ?_⟩
    exact fun heq => hid (List.mem_singleton.mpr heq)
  · rw [List.mem_singleton.mp hid]
    exact (herased (manifestKey deleted)).1
      (InSnapshotDir.startsWith_prefix (inSnapshotDir_snapshotManifestKey deleted))

end Deletions

/-! ## Runs -/

section Runs

variable {R : String → Bytes → Prop} {host : Host} {w w' : World} {operation : Operation}

/-- **Step lemma.** -/
theorem Operation.Takes.objectsHeld (hread : ManifestsReadBack)
    (hR : ∀ body, R (sha256Hex body) body) (hw : CrateWritten w.store)
    (hstores : StoresHeld R host w.store) (h : ObjectsHeld R w.store)
    (htakes : operation.Takes host w w') : ObjectsHeld R w'.store := by
  rcases htakes with ⟨rest, hrun⟩
  rw [operation.run_eq] at hrun
  refine hrun.crash (wpE_withLock lockFree_objectsHeld (fun _ _ _ _ _ => trivial) h
    fun w₁ hsame => ?_)
  have hw := hw.of_sameButLock hsame
  have h := lockFree_objectsHeld _ _ hsame h
  have hstores : StoresHeld R host w₁.store := fun w₂ hobjects => hstores w₂ fun key hobj =>
    (hobjects key hobj).trans (hsame.prepares.objects key hobj)
  cases operation with
  | createFullBackup sched request options =>
    exact wpE_createFullBackupInner_held hread h hstores sched request options
  | createIncrementalBackup sched request options =>
    exact wpE_createIncrementalBackupInner_held hread h hstores sched request options
  | compactChain order request options =>
    exact wpE_compactChainInner_held hread hw h hR order request
  | prune order keepPolicy => exact wpE_pruneInner_held order keepPolicy hw h
  | deleteSnapshot snapshotId lockOptions => exact wpE_deleteSnapshotInner_held snapshotId hw h

theorem storesHeld_stored (host : Host) (s : Store) :
    StoresHeld (fun _ _ => True) host s := by
  intro w₁ _ sched objectRefs objectConcurrency
  refine (wpE_writeObjectEntries_placed sched objectRefs objectConcurrency w₁).mono ?_
    fun _ _ _ h => h
  intro entries w' _ hplaced entry hentry
  obtain ⟨hobj, hmem⟩ := hplaced entry hentry
  obtain ⟨body, hbody⟩ := Store.exists_lookup hmem
  exact ⟨hobj, body, hbody, trivial⟩

theorem storesHeld_checksum (host : Host) {s : Store} (hhonest : HonestObjects s) :
    StoresHeld (fun sha body => sha256Hex body = sha) host s := by
  intro w₁ hobjects sched objectRefs objectConcurrency
  refine (wpE_writeObjectEntries_mayFail sched objectConcurrency).mono ?_ fun _ _ _ h => h
  intro entries w' _ hholds entry hentry
  have hhonest₁ : HonestObjects w₁.store := fun key hobj body hbody =>
    hhonest key hobj body ((hobjects key hobj).symm.trans hbody)
  exact (hholds hhonest₁).2 entry hentry

theorem objectsHeld_empty (R : String → Bytes → Prop) : ObjectsHeld R ∅ := fun _ _ hload =>
  absurd (lookup_of_loadManifest hload) (AList.notMem_empty _)

/-- **Run lemma.**  Nothing a manifest references is missing. -/
theorem ReachableRepository.objectsStored (hread : ManifestsReadBack)
    (h : ReachableRepository w) : ObjectsHeld (fun _ _ => True) w.store := by
  induction h with
  | empty hempty =>
    rw [hempty]
    exact objectsHeld_empty _
  | step hreach hrun ih =>
    have htakes : Operation.Takes _ _ _ _ := ⟨_, hrun⟩
    exact htakes.objectsHeld hread (fun _ => trivial) (hreach.tidy hread).crateWritten
      (storesHeld_stored _ _) ih

/-- One operation of an application whose sources are sound. -/
def SoundStep (w w' : World) : Prop :=
  ∃ (host : Host) (operation : Operation), host.Sound ∧ operation.Takes host w w'

/-- **Run lemma** of sound applications. -/
theorem soundRun (hread : ManifestsReadBack) {w₀ : World} (hempty : w₀.store = ∅)
    (hrun : Relation.ReflTransGen SoundStep w₀ w) :
    ReachableRepository w ∧ HonestObjects w.store ∧
      ObjectsHeld (fun sha body => sha256Hex body = sha) w.store := by
  induction hrun with
  | refl =>
    refine ⟨.empty hempty, ?_, ?_⟩
    · rw [hempty]
      exact honestObjects_empty
    · rw [hempty]
      exact objectsHeld_empty _
  | tail _ hstep ih =>
    rcases hstep with ⟨host, operation, hsound, htakes⟩
    obtain ⟨hreach, hhonest, hheld⟩ := ih
    exact ⟨hreach.takes htakes, htakes.honestObjects hsound hhonest,
      htakes.objectsHeld hread (fun _ => rfl) (hreach.tidy hread).crateWritten
        (storesHeld_checksum _ hhonest) hheld⟩

/-- **No dangling objects.**  In every reachable repository, after operations
    that have returned, failed, or stopped at any of their calls, an object that
    a stored manifest references is stored.  If the sources of all applications
    were sound, it has the recorded checksum. -/
theorem no_dangling_objects (hread : ManifestsReadBack) :
    (∀ w, ReachableRepository w → ∀ id manifest, loadManifest w.store id = .ok manifest →
      ∀ entry ∈ manifest.objects, entry.contentKey ∈ w.store) ∧
    ∀ w₀ w : World, w₀.store = ∅ → Relation.ReflTransGen SoundStep w₀ w → ∀ id manifest,
      loadManifest w.store id = .ok manifest →
        ∀ entry ∈ manifest.objects, HoldsBlob w.store entry.contentKey entry.sha256Hex := by
  have hcheck : ∀ {manifest : BackupSnapshotManifest} {entry : ObjectBackupEntry},
      entry ∈ manifest.objects → (entry.contentKey, entry.sha256Hex) ∈ manifest.objectChecks :=
    fun hentry => List.mem_map.mpr ⟨_, hentry, rfl⟩
  constructor
  · intro w hreach id manifest hload entry hentry
    obtain ⟨-, body, hbody, -⟩ := hreach.objectsStored hread id manifest hload _ (hcheck hentry)
    exact Store.mem_of_lookup hbody
  · intro w₀ w hempty hrun id manifest hload entry hentry
    exact ((soundRun hread hempty hrun).2.2 id manifest hload _ (hcheck hentry)).2

end Runs

end Codec

/-! ## A backup with an object -/

section KeptObject

open Reference

/-- The one object there is. -/
def keptSource : BackupObjectRef → Except BackupError StorageByteStream := fun object =>
  if object = declaredObject 1 then .ok (.ok [1]) else .error (.missingBlob object.storageKey)

def keepingApplication : Host := application [notes] [] [declaredObject 1] keptSource

theorem sound_keepingApplication : keepingApplication.Sound := by
  intro object bytes hload
  have hload : (.ok (.ok bytes) : Except BackupError StorageByteStream) = keptSource object := hload
  rw [keptSource] at hload
  split at hload
  · have hbytes : bytes = [1] := Except.ok.inj (Except.ok.inj hload)
    rw [hbytes, ‹object = _›, declaredObject]
  · cases hload

def keepingBackup : Except BackupError FullBackupResult × World :=
  (createFullBackupWithOptions [] (fullRequest (uuid 1)) options).run.run
    (keepingApplication.respond keptSource) emptyWorld

theorem objects_keepingBackup : keepingBackup.1.toOption.map (·.manifest.objects) =
    some [objectBackupEntry (declaredObject 1)] := by
  decide +kernel

theorem returns_keepingBackup : ∃ result, Returns keepingApplication.MayFail emptyWorld
    (createFullBackupWithOptions [] (fullRequest (uuid 1)) options).run (.ok result)
    keepingBackup.2 ∧ result.manifest.objects = [objectBackupEntry (declaredObject 1)] := by
  have hloads : ∀ object, keepingApplication.objects.loadObjectStream object (keptSource object) :=
    fun _ => rfl
  have hret := returns_mayFail (Host.returns_run hloads
    (createFullBackupWithOptions [] (fullRequest (uuid 1)) options).run emptyWorld)
  have hobjects := objects_keepingBackup
  change Returns _ _ _ keepingBackup.1 keepingBackup.2 at hret
  cases hrun : keepingBackup.1 with
  | error e =>
    rw [hrun] at hobjects
    cases hobjects
  | ok result =>
    rw [hrun] at hobjects hret
    exact ⟨result, hret, Option.some.inj hobjects⟩

theorem no_dangling_objects_keepingBackup :
    ∃ manifest, loadManifest keepingBackup.2.store (uuid 1) = .ok manifest ∧
      manifest.objects = [objectBackupEntry (declaredObject 1)] ∧
      ∀ entry ∈ manifest.objects, entry.contentKey ∈ keepingBackup.2.store ∧
        HoldsBlob keepingBackup.2.store entry.contentKey entry.sha256Hex := by
  obtain ⟨result, hret, hobjects⟩ := returns_keepingBackup
  obtain ⟨hwriting, hfull⟩ := returns_createFullBackup (fun h : False => h.elim) hret
  have hload := (hwriting.replaces manifestsReadBack hfull.written).self
  have htakes : Operation.Takes keepingApplication
      (.createFullBackup [] (fullRequest (uuid 1)) options) emptyWorld keepingBackup.2 := ⟨_, hret⟩
  obtain ⟨hstored, hheld⟩ := no_dangling_objects manifestsReadBack
  refine ⟨result.manifest, hload, hobjects, fun entry hentry => ⟨?_, ?_⟩⟩
  · exact hstored _ ((ReachableRepository.empty rfl).takes htakes) _ _ hload entry hentry
  · exact hheld emptyWorld _ rfl (.single ⟨_, _, sound_keepingApplication, htakes⟩) _ _ hload
      entry hentry

end KeptObject

end GraphqlOrmBackup
