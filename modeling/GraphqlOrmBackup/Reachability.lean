import GraphqlOrmBackup.CrashConsistency
import GraphqlOrmBackup.Interaction.Within

/-!
# Repositories the crate has written

An invariant of every repository that is reached from an empty one by the five
operations that write, however often they fail or stop: each key is the lock,
lies in the directory of a snapshot or in the object store, and each manifest
that loads is filed under its own id and references keys of these places.
-/

namespace GraphqlOrmBackup

open Interaction

variable [Crates]

/-- The manifest belongs under the key of the id. -/
structure Located (id : Uuid) (manifest : BackupSnapshotManifest) : Prop where
  snapshotId : manifest.snapshotId = id
  entries : ∀ check ∈ manifest.entryChecks, InSnapshotDir id check.1
  objects : ∀ check ∈ manifest.objectChecks, InObjectStore check.1

def InPlaceKey (key : String) : Prop :=
  key = repositoryLockKey ∨ (∃ id, InSnapshotDir id key) ∨ InObjectStore key

structure Tidy (s : Store) : Prop where
  keys : ∀ key ∈ s, InPlaceKey key
  manifests : ∀ id manifest, loadManifest s id = .ok manifest → Located id manifest

section Invariant

variable {s : Store} {key : String} {body : Bytes}

theorem Tidy.empty : Tidy (∅ : Store) := by
  constructor
  · intro key hkey
    exact absurd hkey (AList.notMem_empty key)
  · intro id manifest hload
    exact absurd (lookup_of_loadManifest hload) (AList.notMem_empty _)

omit [Crates] in
theorem eq_of_append_slash {left right : List Char} {rest rest' : List Char}
    (hleft : '/' ∉ left) (hright : '/' ∉ right) (h : left ++ '/' :: rest = right ++ '/' :: rest') :
    left = right := by
  have htake : ∀ (pre : List Char) (post : List Char), '/' ∉ pre →
      (pre ++ '/' :: post).takeWhile (· ≠ '/') = pre := by
    intro pre post hpre
    rw [List.takeWhile_append_of_pos]
    · simp
    · intro c hc
      exact decide_eq_true fun heq => hpre (heq ▸ hc)
  rw [← htake left rest hleft, h, htake right rest' hright]

omit [Crates] in
/-- The key of a manifest in a directory is the directory's manifest key. -/
theorem InSnapshotDir.eq_snapshotManifestKey {id id' : Uuid} (h : InSnapshotDir id key)
    (hkey : snapshotIdFromManifestKey key = some id') : key = snapshotManifestKey id' := by
  obtain ⟨name, hslash, hparse, hname⟩ := snapshotIdFromManifestKey_eq_some.mp hkey
  rw [InSnapshotDir, startsWith_iff] at h
  rcases h with ⟨rest, hrest⟩
  have hdir : "snapshots/".toList ++ (id.toChars ++ '/' :: rest) =
      "snapshots/".toList ++ (name ++ '/' :: "manifest.json".toList) := by
    rw [← show "/manifest.json".toList = '/' :: "manifest.json".toList from rfl, ← hname, ← hrest]
    simp [snapshotPrefix]
  have heq := eq_of_append_slash (Uuid.slash_notMem_toChars id) hslash
    (List.append_cancel_left hdir)
  rw [← heq, Uuid.parseStr_toChars] at hparse
  rw [← Option.some.inj hparse]
  apply String.toList_inj.mp
  rw [hname, ← heq, toList_snapshotManifestKey]

omit [Crates] in
theorem InObjectStore.snapshotIdFromManifestKey (h : InObjectStore key) :
    snapshotIdFromManifestKey key = none := by
  cases hkey : GraphqlOrmBackup.snapshotIdFromManifestKey key with
  | none => rfl
  | some id =>
    obtain ⟨name, -, -, hname⟩ := snapshotIdFromManifestKey_eq_some.mp hkey
    have hhead := h.head?
    rw [hname] at hhead
    exact absurd (Option.some.inj hhead) (by decide)

theorem Tidy.crateWritten (h : Tidy s) : CrateWritten s where
  canonical key hkey id hid := by
    rcases h.keys key hkey with rfl | ⟨id', hdir⟩ | hobj
    · rw [show snapshotIdFromManifestKey repositoryLockKey = none from rfl] at hid
      contradiction
    · exact hdir.eq_snapshotManifestKey hid
    · rw [hobj.snapshotIdFromManifestKey] at hid
      contradiction
  snapshotId id manifest hload := (h.manifests id manifest hload).snapshotId
  entries id manifest hload := (h.manifests id manifest hload).entries
  objects id manifest hload := (h.manifests id manifest hload).objects

theorem Tidy.putBlob (h : Tidy s) (hkey : InPlaceKey key)
    (hdoc : ∀ id, key = snapshotManifestKey id → ∀ manifest,
      DeserializeJson.fromSlice body = .ok manifest → Located id manifest) :
    Tidy (s.putBlob key body) := by
  constructor
  · intro key' hmem
    rcases (AList.mem_insert s).mp hmem with rfl | hmem
    · exact hkey
    · exact h.keys key' hmem
  · intro id manifest hload
    by_cases hid : manifestKey id = key
    · rcases loadManifest_eq_ok.mp hload with ⟨doc, hlookup, hread, -⟩
      rw [hid, Store.lookup_putBlob_self] at hlookup
      obtain rfl := Option.some.inj hlookup
      exact hdoc id hid.symm manifest hread
    · rw [loadManifest_congr (Store.lookup_putBlob_of_ne s body hid)] at hload
      exact h.manifests id manifest hload

theorem Tidy.deleteBlob (h : Tidy s) (key : String) : Tidy (s.deleteBlob key) := by
  constructor
  · intro key' hmem
    exact h.keys key' (AList.mem_erase.mp hmem).2
  · intro id manifest hload
    by_cases hid : manifestKey id = key
    · rcases loadManifest_eq_ok.mp hload with ⟨doc, hlookup, -⟩
      rw [hid, Store.lookup_deleteBlob, if_pos rfl] at hlookup
      contradiction
    · rw [loadManifest_congr (Store.lookup_deleteBlob_of_ne s hid)] at hload
      exact h.manifests id manifest hload

end Invariant

/-! ## Calls that keep a repository tidy -/

/-- The kind of calls the operations make: blobs are written in the directories
    of snapshots, objects and the lock under a condition. -/
def Call.Tame : Call → Prop
  | .putBlob key body => (∃ id, InSnapshotDir id key) ∧
      ∀ id, key = snapshotManifestKey id → ∀ manifest,
        DeserializeJson.fromSlice body = .ok manifest → Located id manifest
  | .putBlobStreamIfAbsent key _ => key = repositoryLockKey ∨ InObjectStore key
  | _ => True

/-- What is seen of the repository is tidy. -/
def Call.SeesTidy : (c : Call) → c.Response → Prop
  | .view, r => ∀ s, r = .ok s → Tidy s
  | _, _ => True

/-- The program makes tame calls, and its results satisfy `P`. -/
abbrev KeepsTidy {α : Type} (P : α → Prop) (x : BackupM α) : Prop :=
  x.Within Call.SeesTidy Call.Tame P

section Calls

variable {host : Host} {w w' : World} {c : Call} {r : c.Response}

theorem Host.Answers.tidy (h : host.Answers c w r w') (hc : c.Tame) (hw : Tidy w.store) :
    Tidy w'.store := by
  cases c with
  | putBlob key body =>
    rcases h with ⟨-, rfl⟩
    exact hw.putBlob (Or.inr (Or.inl hc.1)) hc.2
  | putBlobStreamIfAbsent key body =>
    rcases h with ⟨s', hputs, rfl⟩
    have hplace : InPlaceKey key := hc.imp_right Or.inr
    have hnot : ∀ id, key ≠ snapshotManifestKey id := by
      rintro id rfl
      have hdir := inSnapshotDir_snapshotManifestKey id
      rcases hc with hlock | hobj
      · exact hdir.ne_lock hlock
      · exact hobj.not_inSnapshotDir id hdir
    unfold PutsIfAbsent at hputs
    split at hputs
    · rw [World.withStore_store, hputs.2]
      exact hw.putBlob hplace fun id heq => absurd heq (hnot id)
    all_goals
      rw [World.withStore_store, hputs.2]
      exact hw
  | deleteBlob key =>
    rcases h with ⟨-, rfl⟩
    exact hw.deleteBlob key
  | restore request =>
    rcases h with ⟨-, rfl⟩
    exact hw
  | _ =>
    rcases h with ⟨-, rfl⟩
    exact hw

theorem Host.MayFail.tidy (h : host.MayFail c w r w') (hc : c.Tame) (hw : Tidy w.store) :
    Tidy w'.store := by
  rcases h with hans | ⟨e, -, rfl | ⟨r', hans⟩⟩
  · exact hans.tidy hc hw
  · exact hw
  · exact hans.tidy hc hw

theorem Host.MayFail.seesTidy (h : host.MayFail c w r w') (hw : Tidy w.store) :
    c.SeesTidy r := by
  cases c with
  | view =>
    intro s heq
    rcases h with ⟨hans, -⟩ | ⟨e, rfl, -⟩
    · rw [hans] at heq
      rw [← Except.ok.inj heq]
      exact hw
    · contradiction
  | _ => trivial

/-- Wherever the program stops, the repository is tidy. -/
theorem wpE_of_keepsTidy {α : Type} {P : α → Prop} {x : BackupM α} (h : KeepsTidy P x)
    (hw : Tidy w.store) :
    wpE host.MayFail (fun w => Tidy w.store) x (fun a _ => P a) (fun _ _ => True) w := by
  refine wp.mono (h.wp (fun c w r w' hw hcall => hcall.seesTidy hw)
    (fun c w r w' hc hw hcall => hcall.tidy hc hw) hw) (fun _ h => h) ?_
  intro r w' _ hr
  cases r with
  | ok a => exact hr a rfl
  | error e => trivial

end Calls

/-! ## The operations -/

section Operations

variable {α : Type} {P : α → Prop}

theorem keepsTidy_call {c : Call} (hc : c.Tame) : KeepsTidy (fun _ => True) (call c) :=
  ⟨hc, fun _ _ _ _ => trivial⟩

theorem keepsTidy_read {f : Store → Except BackupError α}
    (h : ∀ s a, Tidy s → f s = .ok a → P a) : KeepsTidy P (read f) := by
  have hview : KeepsTidy (fun s => Tidy s) (call .view) :=
    ⟨trivial, fun r hr s heq => hr s heq⟩
  exact Fallible.within_bind hview fun s hs => Fallible.within_ofExcept fun a ha => h s a hs ha

theorem keepsTidy_acquire (options : RepositoryLockOptions) :
    KeepsTidy (fun lock => lock.key = repositoryLockKey) (RepositoryLock.acquire options) := by
  have hput : ∀ now, KeepsTidy (fun _ => True)
      (putBlobIfAbsent repositoryLockKey (lockBody now)) := fun now =>
    keepsTidy_call (c := .putBlobStreamIfAbsent _ _) (Or.inl rfl)
  refine Fallible.within_bind (keepsTidy_call (c := .unixSeconds) trivial) fun now _ => ?_
  refine Fallible.within_bind (hput now) fun written _ => ?_
  split
  · exact Fallible.within_pure rfl
  apply Fallible.within_bind (keepsTidy_read (P := fun _ => True) fun _ _ _ _ => trivial)
  intro existing _
  split
  · exact Fallible.within_throw
  refine Fallible.within_bind (keepsTidy_call (c := .deleteBlob _) trivial) fun _ _ => ?_
  refine Fallible.within_bind (hput now) fun written _ => ?_
  split
  · exact Fallible.within_pure rfl
  · exact Fallible.within_throw

theorem keepsTidy_withLock {options : RepositoryLockOptions} {inner : BackupM α}
    (h : KeepsTidy P inner) : KeepsTidy (fun _ => True) (withLock options inner) := by
  refine Fallible.within_bind (keepsTidy_acquire options) fun lock _ => ?_
  refine Fallible.within_bind (Fallible.within_attempt h) fun result _ => ?_
  have hrelease : KeepsTidy (fun _ => True) lock.release :=
    keepsTidy_call (c := .deleteBlob _) trivial
  refine Fallible.within_bind (Fallible.within_attempt hrelease) fun releaseResult _ => ?_
  exact Fallible.within_ofExcept fun _ _ => trivial

theorem keepsTidy_writePayload {T : Type} [SerializeJson T] {id : Uuid} {key name : String}
    {entries : List T} (hdir : InSnapshotDir id key) (hne : key ≠ snapshotManifestKey id) :
    KeepsTidy (fun entry => InSnapshotDir id entry.contentKey) (writePayload key name entries) := by
  apply Fallible.within_bind (P := fun _ => True) (Fallible.within_ofExcept fun _ _ => trivial)
  intro bytes _
  refine Fallible.within_bind (keepsTidy_call (c := .putBlob key bytes) ⟨⟨id, hdir⟩, ?_⟩) ?_
  · intro id' heq
    obtain rfl := hdir.unique (heq ▸ inSnapshotDir_snapshotManifestKey id')
    exact absurd heq hne
  · exact fun _ _ => Fallible.within_pure hdir

/-- A manifest that references the right places, and is read back. -/
theorem keepsTidy_writeManifest (hread : ManifestsReadBack) {base : BackupSnapshotManifest}
    (hlocated : Located base.snapshotId base) :
    KeepsTidy (fun _ => True) (writeManifest base) := by
  apply Fallible.within_bind (Fallible.within_ofExcept fun manifest hset => hset)
  intro manifest hset
  apply Fallible.within_bind (Fallible.within_ofExcept fun body hbody => hbody)
  intro body hbody
  rcases setManifestChecksum_eq_ok.mp hset with ⟨checksum, -, rfl⟩
  have hdoc := hread _ _ (mapError_eq_ok.mp hbody)
  have hdir := inSnapshotDir_snapshotManifestKey base.snapshotId
  refine Fallible.within_bind
    (keepsTidy_call (c := .putBlob (snapshotManifestKey base.snapshotId) body) ⟨⟨_, hdir⟩, ?_⟩) ?_
  · intro id heq manifest' hmanifest'
    obtain rfl := snapshotManifestKey_injective heq
    rw [hdoc] at hmanifest'
    obtain rfl := Except.ok.inj hmanifest'
    exact ⟨hlocated.snapshotId, hlocated.entries, hlocated.objects⟩
  · exact fun _ _ => Fallible.within_pure trivial

theorem keepsTidy_objectTask (index : Nat) (object : BackupObjectRef) :
    KeepsTidy (fun entry => InObjectStore entry.2.contentKey) (objectTask index object) := by
  have hkey := inObjectStore_objectContentKey object.sha256Hex
  have hload : KeepsTidy (fun _ => True) (loadObjectStream object) :=
    keepsTidy_call (c := .loadObjectStream object) trivial
  have hhash : ∀ source, KeepsTidy (fun _ => True) (Fallible.ofExcept (hashObjectSource source)) :=
    fun source => Fallible.within_ofExcept fun _ _ => trivial
  refine Fallible.within_bind hload fun source _ => ?_
  refine Fallible.within_bind (keepsTidy_call (c := .putBlobStreamIfAbsent _ source) (Or.inr hkey))
    fun written _ => ?_
  split
  · refine Fallible.within_bind (hhash source) fun actual _ => ?_
    split
    · refine Fallible.within_bind (keepsTidy_call (c := .deleteBlob _) trivial) fun _ _ => ?_
      exact Fallible.within_throw
    · exact Fallible.within_pure hkey
  · refine Fallible.within_bind hload fun source' _ => ?_
    refine Fallible.within_bind (hhash source') fun actual _ => ?_
    split
    · exact Fallible.within_throw
    · exact Fallible.within_pure hkey

theorem keepsTidy_writeObjectEntries (sched : List Poll) (objectRefs : List BackupObjectRef)
    (objectConcurrency : Nat) :
    KeepsTidy (fun entries => ∀ entry ∈ entries, InObjectStore entry.contentKey)
      (writeObjectEntries sched objectRefs objectConcurrency) := by
  have htasks : ∀ task ∈ objectTasks objectRefs, Prog.Within Call.SeesTidy Call.Tame
      (fun r => ∀ entry : Nat × ObjectBackupEntry, r = .ok entry →
        InObjectStore entry.2.contentKey) task := by
    intro task htask
    rcases List.mem_map.mp htask with ⟨⟨object, index⟩, -, rfl⟩
    exact keepsTidy_objectTask index object
  refine Fallible.within_bind (within_tryCollect htasks) fun entries hentries => ?_
  refine Fallible.within_pure fun entry hentry => ?_
  rcases List.mem_map.mp hentry with ⟨pair, hpair, rfl⟩
  exact hentries pair (List.mem_mergeSort.mp hpair)

omit [Crates] in
/-- A manifest whose payload entries and object entries are in their places. -/
theorem located_of_entries {manifest : BackupSnapshotManifest}
    (hentries : ∀ entry ∈ manifest.database.tables ++ manifest.database.changes,
      InSnapshotDir manifest.snapshotId entry.contentKey)
    (hobjects : ∀ entry ∈ manifest.objects, InObjectStore entry.contentKey) :
    Located manifest.snapshotId manifest where
  snapshotId := rfl
  entries check hcheck := by
    rcases List.mem_map.mp hcheck with ⟨entry, hentry, rfl⟩
    exact hentries entry hentry
  objects check hcheck := by
    rcases List.mem_map.mp hcheck with ⟨entry, hentry, rfl⟩
    exact hobjects entry hentry

theorem keepsTidy_createFullBackupInner (hread : ManifestsReadBack) (sched : List Poll)
    (request : FullBackupRequest) (options : BackupExecutionOptions) :
    KeepsTidy (fun _ => True) (createFullBackupInner sched request options) := by
  have hplan : KeepsTidy (fun _ => True) planFullBackup := by
    refine Fallible.within_bind (keepsTidy_call (c := .schemaSnapshot) trivial) fun _ _ => ?_
    refine Fallible.within_bind (keepsTidy_call (c := .exportFull) trivial) fun _ _ => ?_
    apply Fallible.within_bind (keepsTidy_call (c := .listObjectsForFullBackup) trivial)
    exact fun _ _ => Fallible.within_pure trivial
  refine Fallible.within_bind hplan fun plan _ => ?_
  refine Fallible.within_bind (Fallible.within_mapM' plan.tables fun table _ =>
    keepsTidy_writePayload (inSnapshotDir_databaseTableKey request.snapshotId table.tableName)
      (databaseTableKey_ne_snapshotManifestKey _ _)) fun tableEntries htables => ?_
  refine Fallible.within_bind (keepsTidy_writeObjectEntries sched _ _)
    fun objectEntries hobjects => ?_
  refine Fallible.within_bind (keepsTidy_writeManifest hread (located_of_entries ?_ hobjects))
    fun manifest _ => Fallible.within_pure trivial
  rw [fullManifest, List.append_nil]
  exact htables

theorem keepsTidy_createIncrementalBackupInner (hread : ManifestsReadBack) (sched : List Poll)
    (request : IncrementalBackupRequest) (options : BackupExecutionOptions) :
    KeepsTidy (fun _ => True) (createIncrementalBackupInner sched request options) := by
  refine Fallible.within_bind (keepsTidy_call (c := .schemaSnapshot) trivial) fun schema _ => ?_
  refine Fallible.within_bind (keepsTidy_call (c := .exportIncremental _) trivial)
    fun changes _ => ?_
  refine Fallible.within_bind (keepsTidy_call (c := .listObjectsForIncrementalBackup _) trivial)
    fun objectRefs _ => ?_
  refine Fallible.within_bind (Fallible.within_mapM' (groupChangesByTable changes) fun group _ =>
    keepsTidy_writePayload (inSnapshotDir_databaseChangesKey request.snapshotId group.tableName)
      (databaseChangesKey_ne_snapshotManifestKey _ _)) fun changeEntries hchanges => ?_
  refine Fallible.within_bind (keepsTidy_writeObjectEntries sched _ _)
    fun objectEntries hobjects => ?_
  exact Fallible.within_bind (keepsTidy_writeManifest hread (located_of_entries hchanges hobjects))
    fun manifest _ => Fallible.within_pure trivial

theorem keepsTidy_compactChainInner (hread : ManifestsReadBack)
    (order : BackupSnapshotManifest → CompletionOrder) (request : CompactChainRequest) :
    KeepsTidy (fun _ => True) (compactChainInner order request) := by
  have hchain : KeepsTidy (fun chain : List BackupSnapshotManifest =>
      ∀ manifest ∈ chain, ∀ entry ∈ manifest.objects, InObjectStore entry.contentKey)
      (read fun s => loadVerifiedChain order s request.sourceSnapshotId) := by
    refine keepsTidy_read fun s chain hs hload => ?_
    have hkeys := hs.crateWritten.chainKeysStored request.sourceSnapshotId chain
      (loadVerifiedChain_eq_ok.mp hload).1
    exact fun manifest hmem => (hkeys manifest hmem).1
  refine Fallible.within_bind hchain fun chain hobjects => ?_
  apply Fallible.within_bind (P := fun _ => True) (Fallible.within_ofExcept fun _ _ => trivial)
  intro root _
  apply Fallible.within_bind (keepsTidy_read (P := fun _ => True) fun _ _ _ _ => trivial)
  intro tableRows _
  refine Fallible.within_bind (Fallible.within_mapM' tableRows.toList fun table _ =>
    keepsTidy_writePayload (inSnapshotDir_databaseTableKey request.snapshotId table.1)
      (databaseTableKey_ne_snapshotManifestKey _ _)) fun tableEntries htables => ?_
  apply Fallible.within_bind (P := fun _ => True) (Fallible.within_ofExcept fun _ _ => trivial)
  intro latest _
  refine Fallible.within_bind (keepsTidy_writeManifest hread (located_of_entries ?_ ?_))
    fun manifest _ => Fallible.within_pure trivial
  · rw [syntheticManifest, List.append_nil]
    exact htables
  · intro entry hentry
    obtain ⟨manifest, hmem, hentry⟩ := mem_compactObjectEntries hentry
    exact hobjects manifest hmem entry hentry

theorem keepsTidy_loadAllManifests : KeepsTidy (fun _ => True) loadAllManifests := by
  refine Fallible.within_bind (keepsTidy_call (c := .listBlobs _) trivial) fun keys _ => ?_
  exact (Fallible.within_mapM' (P := fun _ => True) _ fun id _ =>
    keepsTidy_read fun _ _ _ _ => trivial).mono fun _ _ => trivial

theorem keepsTidy_deleteBlobs (keys : List String) :
    KeepsTidy (fun _ => True) (deleteBlobs keys) :=
  Fallible.within_bind
    (Fallible.within_forM keys fun key _ => keepsTidy_call (c := .deleteBlob key) trivial)
    fun _ _ => Fallible.within_pure trivial

theorem keepsTidy_deleteSnapshotBlobs (id : Uuid) :
    KeepsTidy (fun _ => True) (deleteSnapshotBlobs id) :=
  Fallible.within_bind (keepsTidy_call (c := .listBlobs _) trivial)
    fun keys _ => keepsTidy_deleteBlobs keys

theorem keepsTidy_deleteUnreachable (reachable : List String) :
    KeepsTidy (fun _ => True) (deleteUnreachable reachable) :=
  Fallible.within_bind (keepsTidy_call (c := .listBlobs _) trivial)
    fun _ _ => keepsTidy_deleteBlobs _

theorem keepsTidy_pruneInner (order : HashOrder) (keepPolicy : KeepPolicy) :
    KeepsTidy (fun _ => True) (pruneInner order keepPolicy) := by
  refine Fallible.within_bind keepsTidy_loadAllManifests fun manifests _ => ?_
  refine Fallible.within_bind (Fallible.within_mapM' (P := fun _ => True) _ fun id _ =>
    keepsTidy_read fun _ _ _ _ => trivial) fun chains _ => ?_
  refine Fallible.within_bind (Fallible.within_mapM' _ fun id _ =>
    keepsTidy_deleteSnapshotBlobs id) fun snapshotBlobs _ => ?_
  exact Fallible.within_bind (keepsTidy_deleteUnreachable _)
    fun objectBlobs _ => Fallible.within_pure trivial

theorem keepsTidy_deleteSnapshotInner (id : Uuid) :
    KeepsTidy (fun _ => True) (deleteSnapshotInner id) := by
  refine Fallible.within_bind keepsTidy_loadAllManifests fun manifests _ => ?_
  split
  · exact Fallible.within_throw
  split
  · exact Fallible.within_throw
  refine Fallible.within_bind (keepsTidy_deleteSnapshotBlobs id) fun snapshotBlobs _ => ?_
  exact Fallible.within_bind (keepsTidy_deleteUnreachable _)
    fun objectBlobs _ => Fallible.within_pure trivial

end Operations

/-! ## Runs from an empty repository -/

/-- The operations that write to a repository, with their arguments. -/
inductive Operation where
  | createFullBackup (sched : List Poll) (request : FullBackupRequest)
      (options : BackupExecutionOptions)
  | createIncrementalBackup (sched : List Poll) (request : IncrementalBackupRequest)
      (options : BackupExecutionOptions)
  | compactChain (order : BackupSnapshotManifest → CompletionOrder)
      (request : CompactChainRequest) (options : BackupExecutionOptions)
  | prune (order : HashOrder) (keepPolicy : KeepPolicy)
  | deleteSnapshot (snapshotId : Uuid) (lockOptions : RepositoryLockOptions)

omit [Crates] in
def Operation.Result : Operation → Type
  | .createFullBackup .. => FullBackupResult
  | .createIncrementalBackup .. => IncrementalBackupResult
  | .compactChain .. => CompactChainResult
  | .prune .. => PruneResult
  | .deleteSnapshot .. => DeleteSnapshotResult

def Operation.run : (operation : Operation) → BackupM operation.Result
  | .createFullBackup sched request options => createFullBackupWithOptions sched request options
  | .createIncrementalBackup sched request options =>
      createIncrementalBackupWithOptions sched request options
  | .compactChain order request options => compactChainWithOptions order request options
  | .prune order keepPolicy => GraphqlOrmBackup.prune order keepPolicy
  | .deleteSnapshot snapshotId lockOptions =>
      GraphqlOrmBackup.deleteSnapshot snapshotId lockOptions

/-- The repository is reached from an empty one by operations each of which has
    returned, failed, or stopped at one of its calls.  The application may be
    another one in each step. -/
inductive ReachableRepository : World → Prop where
  | empty {w : World} (h : w.store = ∅) : ReachableRepository w
  | step {host : Host} {w w' : World} {operation : Operation}
      {rest : Prog Call.Response (Except BackupError operation.Result)}
      (h : ReachableRepository w) (hrun : Reaches host.MayFail w operation.run.run w' rest) :
      ReachableRepository w'

theorem keepsTidy_operation (hread : ManifestsReadBack) (operation : Operation) :
    KeepsTidy (fun _ => True) operation.run := by
  cases operation with
  | createFullBackup sched request options =>
    exact keepsTidy_withLock (keepsTidy_createFullBackupInner hread sched request options)
  | createIncrementalBackup sched request options =>
    exact keepsTidy_withLock (keepsTidy_createIncrementalBackupInner hread sched request options)
  | compactChain order request options =>
    exact keepsTidy_withLock (keepsTidy_compactChainInner hread order request)
  | prune order keepPolicy => exact keepsTidy_withLock (keepsTidy_pruneInner order keepPolicy)
  | deleteSnapshot snapshotId lockOptions =>
    exact keepsTidy_withLock (keepsTidy_deleteSnapshotInner snapshotId)

/-- **Reachable repositories are tidy.** -/
theorem ReachableRepository.tidy (hread : ManifestsReadBack) {w : World}
    (h : ReachableRepository w) : Tidy w.store := by
  induction h with
  | empty hempty =>
    rw [hempty]
    exact Tidy.empty
  | step _ hrun ih => exact hrun.crash (wpE_of_keepsTidy (keepsTidy_operation hread _) ih)

end GraphqlOrmBackup
