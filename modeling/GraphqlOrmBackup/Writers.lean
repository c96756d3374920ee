import GraphqlOrmBackup.ChangeGroups
import GraphqlOrmBackup.Intact
import GraphqlOrmBackup.ObjectEntries
import GraphqlOrmBackup.PayloadWrites

/-!
# What the writers leave behind

One run lemma for each of the three writers.  Until the manifest is written,
a writer adds to the directory of its snapshot and to the free keys of the
object store; the manifest that it then writes references blobs that are in
place.
-/

namespace GraphqlOrmBackup

open Interaction

variable [Crates]

/-- Nothing has changed that was there before, outside the directory of the
    snapshot and apart from the lock. -/
def Extends (snapshotId : Uuid) (w w' : World) : Prop :=
  ∀ key, key ≠ repositoryLockKey → ¬ InSnapshotDir snapshotId key →
    key ∈ w.store ∨ ¬ InObjectStore key → w'.store.lookup key = w.store.lookup key

/-- The manifest has not been written. -/
def NoManifest (snapshotId : Uuid) (w w' : World) : Prop :=
  ∃ new, w'.puts = w.puts ++ new ∧ snapshotManifestKey snapshotId ∉ new

/-- The reference is to a blob that is in place, in the snapshot's directory or
    in the object store. -/
def InPlace (snapshotId : Uuid) (s : Store) (ref : String × String) : Prop :=
  (InSnapshotDir snapshotId ref.1 ∧ ref.1 ≠ snapshotManifestKey snapshotId ∨
    InObjectStore ref.1) ∧ HoldsBlob s ref.1 ref.2

/-- The manifest is stored and, if `Sound` holds, all that it references. -/
structure Written (Sound : Prop) (snapshotId : Uuid) (s : Store)
    (manifest : BackupSnapshotManifest) : Prop where
  id : manifest.snapshotId = snapshotId
  checksum : verifyManifestChecksum manifest = .ok ()
  stored : ∃ doc, Crates.manifestToVecPretty manifest = .ok doc ∧
    s.lookup (snapshotManifestKey snapshotId) = some doc
  blobs : Sound → ∀ ref ∈ manifest.references, InPlace snapshotId s ref

/-- What holds wherever a writer stops. -/
structure Writing (Sound : Prop) (snapshotId : Uuid) (w w' : World) : Prop where
  extends_ : Extends snapshotId w w'
  manifest : NoManifest snapshotId w w' ∨ ∃ manifest, Written Sound snapshotId w'.store manifest

section

variable {Sound : Prop} {host : Host} {snapshotId : Uuid} {w w₁ w' : World}

theorem Writing.refl (snapshotId : Uuid) (w : World) : Writing Sound snapshotId w w :=
  ⟨fun _ _ _ _ => rfl, Or.inl ⟨[], by simp, List.not_mem_nil⟩⟩

omit [Crates] in
theorem Extends.mem (h : Extends snapshotId w w') {key : String} (hlock : key ≠ repositoryLockKey)
    (hdir : ¬ InSnapshotDir snapshotId key) (hkey : key ∈ w.store) : key ∈ w'.store :=
  (Store.mem_congr (h key hlock hdir (Or.inl hkey))).mpr hkey

/-! ## The phases of a writer -/

/-- Before the manifest is written. -/
structure Preparing (snapshotId : Uuid) (w w' : World) : Prop where
  extends_ : Extends snapshotId w w'
  manifest : NoManifest snapshotId w w'

theorem Preparing.writing (h : Preparing snapshotId w w') : Writing Sound snapshotId w w' :=
  ⟨h.extends_, Or.inl h.manifest⟩

omit [Crates] in
theorem Preparing.refl (snapshotId : Uuid) (w : World) : Preparing snapshotId w w :=
  ⟨fun _ _ _ _ => rfl, [], by simp, List.not_mem_nil⟩

omit [Crates] in
theorem Preparing.payloads (h : Preparing snapshotId w w₁)
    (hwrites : WritesPayloads snapshotId w₁ w') : Preparing snapshotId w w' := by
  obtain ⟨new, hputs, hnew⟩ := h.manifest
  obtain ⟨new', hputs', hnew'⟩ := hwrites.puts
  refine ⟨fun key hlock hdir hcase =>
    (hwrites.lookup key hdir).trans (h.extends_ key hlock hdir hcase), new ++ new', ?_, ?_⟩
  · rw [hputs', hputs, List.append_assoc]
  · rw [List.mem_append, not_or]
    exact ⟨hnew, hnew'⟩

omit [Crates] in
theorem Preparing.objects (h : Preparing snapshotId w w₁) (hadds : AddsObjects w₁ w') :
    Preparing snapshotId w w' := by
  refine ⟨fun key hlock hdir hcase => ?_,
    h.manifest.imp fun new hnew => ⟨hadds.puts.trans hnew.1, hnew.2⟩⟩
  refine (hadds.lookup key ?_).trans (h.extends_ key hlock hdir hcase)
  exact hcase.imp_left (h.extends_.mem hlock hdir)

/-- Payload writes leave the object store honest. -/
theorem WritesPayloads.honestObjects (h : WritesPayloads snapshotId w w')
    (hhonest : HonestObjects w.store) : HonestObjects w'.store := by
  intro key hkey body hbody
  rw [h.lookup key (hkey.not_inSnapshotDir snapshotId)] at hbody
  exact hhonest key hkey body hbody

/-- So does a manifest. -/
theorem HonestObjects.of_other {s s' : Store} (h : HonestObjects s)
    (hother : ∀ key, key ≠ snapshotManifestKey snapshotId → s'.lookup key = s.lookup key) :
    HonestObjects s' := by
  intro key hkey body hbody
  rw [hother key] at hbody
  · exact h key hkey body hbody
  · rintro rfl
    exact hkey.not_inSnapshotDir snapshotId (inSnapshotDir_snapshotManifestKey snapshotId)

/-- Object writes leave described payloads in place. -/
theorem Describes.addsObjects {T : Type} [SerializeJson T] {key name : String} {entries : List T}
    {entry : TableBackupEntry} (h : Describes w₁.store key name entries entry)
    (hdir : InSnapshotDir snapshotId key) (hadds : AddsObjects w₁ w') :
    Describes w'.store key name entries entry :=
  h.mono (hadds.lookup key (Or.inr fun hobj => hobj.not_inSnapshotDir snapshotId hdir))

/-- The last write of a writer. -/
theorem wpE_writeManifest {base : BackupSnapshotManifest} (hid : base.snapshotId = snapshotId)
    (h : Preparing snapshotId w w₁)
    (hblobs : Sound → ∀ ref ∈ base.references, InPlace snapshotId w₁.store ref) :
    wpE host.MayFail (Writing Sound snapshotId w) (writeManifest base)
      (fun manifest w' => setManifestChecksum base = .ok manifest ∧
        Written Sound snapshotId w'.store manifest ∧
        ∀ key, key ≠ snapshotManifestKey snapshotId → w'.store.lookup key = w₁.store.lookup key)
      (fun _ _ => True) w₁ := by
  refine wpE.seq (P := fun manifest w' => setManifestChecksum base = .ok manifest ∧ w' = w₁)
    (wpE_ofExcept.mpr ⟨h.writing, ?_⟩) ?_
  · cases hset : setManifestChecksum base with
    | ok manifest => exact ⟨rfl, rfl⟩
    | error e => trivial
  rintro manifest w₁ - ⟨hset, rfl⟩
  rcases setManifestChecksum_eq_ok.mp hset with ⟨checksum, _, hmanifest⟩
  refine wpE.seq (P := fun body w' => Crates.manifestToVecPretty manifest = .ok body ∧ w' = w₁)
    (wpE_ofExcept.mpr ⟨h.writing, ?_⟩) ?_
  · cases hbody : Crates.manifestToVecPretty manifest with
    | ok body => exact ⟨rfl, rfl⟩
    | error e => trivial
  rintro body w₁ - ⟨hbody, rfl⟩
  have hkey : snapshotManifestKey manifest.snapshotId = snapshotManifestKey snapshotId := by
    rw [hmanifest, ← hid]
  have hother : ∀ key, key ≠ snapshotManifestKey snapshotId →
      (w₁.put (snapshotManifestKey manifest.snapshotId) body).store.lookup key =
        w₁.store.lookup key := fun key hne =>
    Store.lookup_putBlob_of_ne _ _ (hkey ▸ hne)
  have hwritten : Written Sound snapshotId
      (w₁.put (snapshotManifestKey manifest.snapshotId) body).store manifest := by
    refine ⟨by rw [hmanifest, ← hid], verifyManifestChecksum_of_set hset, ⟨body, hbody, ?_⟩, ?_⟩
    · rw [← hkey]
      exact Store.lookup_putBlob_self _ _ _
    · intro hsound ref href
      have href' : ref ∈ base.references := by
        rw [hmanifest] at href
        exact href
      obtain ⟨hplace, bytes, hlookup, hsha⟩ := hblobs hsound ref href'
      refine ⟨hplace, bytes, (hother _ ?_).trans hlookup, hsha⟩
      rcases hplace with ⟨_, hne⟩ | hobj
      · exact hne
      · intro heq
        exact hobj.not_inSnapshotDir snapshotId (heq ▸ inSnapshotDir_snapshotManifestKey snapshotId)
  refine wpE.seq (P := fun _ w' => w' = w₁.put (snapshotManifestKey manifest.snapshotId) body)
    (wpE_putBlob h.writing (fun _ _ _ => trivial) ?_ rfl) ?_
  · refine ⟨fun key hlock hdir hcase => ?_, Or.inr ⟨manifest, hwritten⟩⟩
    refine (hother key ?_).trans (h.extends_ key hlock hdir hcase)
    rintro rfl
    exact hdir (inSnapshotDir_snapshotManifestKey snapshotId)
  · rintro _ _ hI rfl
    exact ⟨hI, hset, hwritten, hother⟩

omit [Crates] in
/-- A call that only asks the application. -/
theorem wpE_query {I : World → Prop} {c : Call} {P : c.Result → Prop} (hI : I w)
    (h : ∀ r w', host.Answers c w r w' → w' = w ∧ ∀ a, r = .ok a → P a) :
    wpE host.MayFail I (call c) (fun a w' => P a ∧ w' = w) (fun _ _ => True) w := by
  apply wpE_call_mayFail hI (fun _ _ _ => trivial)
  intro r w' hans
  obtain ⟨rfl, hP⟩ := h r w' hans
  refine ⟨hI, ?_⟩
  cases r with
  | ok a => exact ⟨hP a rfl, rfl⟩
  | error e => trivial

/-- The payloads of a run. -/
theorem wpE_payloads {T γ : Type} [SerializeJson T] (key name : γ → String)
    (entries : γ → List T) {l : List γ} (h : Preparing snapshotId w w₁)
    (hdir : ∀ x, InSnapshotDir snapshotId (key x))
    (hne : ∀ x, key x ≠ snapshotManifestKey snapshotId) :
    wpE host.MayFail (Writing Sound snapshotId w)
      (l.mapM' fun x => writePayload (key x) (name x) (entries x))
      (fun written w' => WritesPayloads snapshotId w₁ w' ∧ ((l.map key).Nodup →
        List.Forall₂ (fun x entry => Describes w'.store (key x) (name x) (entries x) entry)
          l written))
      (fun _ _ => True) w₁ :=
  (wpE_writePayloads hdir hne).relax
    (fun _ hwrites => (h.payloads hwrites).writing) fun _ _ _ _ => trivial

/-- The objects of a run, after its payloads. -/
theorem wpE_objects (h : Preparing snapshotId w w₁) {objectRefs : List BackupObjectRef}
    (sched : List Poll) (objectConcurrency : Nat) :
    wpE host.MayFail (Writing Sound snapshotId w)
      (writeObjectEntries sched objectRefs objectConcurrency)
      (fun entries w' => AddsObjects w₁ w' ∧ (HonestObjects w₁.store →
        HonestObjects w'.store ∧ ∀ entry ∈ entries, HoldsObject w'.store entry))
      (fun _ _ => True) w₁ :=
  (wpE_writeObjectEntries_mayFail sched objectConcurrency).relax
    (fun _ hadds => (h.objects hadds).writing) fun _ _ _ _ => trivial

/-- The references of object entries and of described payloads are in place. -/
theorem inPlace_references {s : Store} {manifest : BackupSnapshotManifest}
    (hobjects : ∀ entry ∈ manifest.objects, HoldsObject s entry)
    (hentries : ∀ entry ∈ manifest.database.tables ++ manifest.database.changes,
      InSnapshotDir snapshotId entry.contentKey ∧
        entry.contentKey ≠ snapshotManifestKey snapshotId ∧
        HoldsBlob s entry.contentKey entry.sha256Hex) :
    ∀ ref ∈ manifest.references, InPlace snapshotId s ref := by
  intro ref href
  rcases List.mem_append.mp href with href | href
  · rcases List.mem_map.mp href with ⟨entry, hentry, rfl⟩
    exact ⟨Or.inr (hobjects entry hentry).1, (hobjects entry hentry).2⟩
  · rcases List.mem_map.mp href with ⟨entry, hentry, rfl⟩
    obtain ⟨hdir, hne, hblob⟩ := hentries entry hentry
    exact ⟨Or.inl ⟨hdir, hne⟩, hblob⟩

/-- What the entries of a payload loop give for the manifest. -/
theorem inPlace_of_describes {T γ : Type} [SerializeJson T] {s : Store} {l : List γ}
    {key name : γ → String} {entries : γ → List T} {written : List TableBackupEntry}
    (h : List.Forall₂ (fun x entry => Describes s (key x) (name x) (entries x) entry) l written)
    (hdir : ∀ x, InSnapshotDir snapshotId (key x))
    (hne : ∀ x, key x ≠ snapshotManifestKey snapshotId) :
    ∀ entry ∈ written, InSnapshotDir snapshotId entry.contentKey ∧
      entry.contentKey ≠ snapshotManifestKey snapshotId ∧
      HoldsBlob s entry.contentKey entry.sha256Hex := by
  intro entry hentry
  obtain ⟨x, _, hdesc⟩ := forall₂_mem_right h entry hentry
  exact ⟨hdesc.contentKey ▸ hdir x, hdesc.contentKey ▸ hne x, hdesc.holdsBlob⟩

/-! ## Full backups -/

omit [Crates] in
theorem wpE_planFullBackup {I : World → Prop} (hI : I w) :
    wpE host.MayFail I planFullBackup
      (fun plan w' => (host.database.schemaSnapshot = .ok plan.schema ∧
        host.database.exportFull = .ok plan.tables ∧
        host.objects.listObjectsForFullBackup = .ok plan.objects) ∧ w' = w)
      (fun _ _ => True) w := by
  refine wpE.seq (wpE_query (c := .schemaSnapshot)
    (P := fun schema => host.database.schemaSnapshot = .ok schema) hI ?_) ?_
  · rintro r w' ⟨rfl, rfl⟩
    exact ⟨rfl, fun _ h => h⟩
  rintro schema w - ⟨hschema, rfl⟩
  refine wpE.seq (wpE_query (c := .exportFull)
    (P := fun tables => host.database.exportFull = .ok tables) hI ?_) ?_
  · rintro r w' ⟨rfl, rfl⟩
    exact ⟨rfl, fun _ h => h⟩
  rintro tables w - ⟨htables, rfl⟩
  refine wpE.seq (wpE_query (c := .listObjectsForFullBackup)
    (P := fun objects => host.objects.listObjectsForFullBackup = .ok objects) hI ?_) ?_
  · rintro r w' ⟨rfl, rfl⟩
    exact ⟨rfl, fun _ h => h⟩
  rintro objects w - ⟨hobjects, rfl⟩
  exact ⟨hI, ⟨hschema, htables, hobjects⟩, rfl⟩

/-- What a full backup that succeeds has written. -/
structure FullWritten (Sound : Prop) (host : Host) (request : FullBackupRequest) (s : Store)
    (manifest : BackupSnapshotManifest) : Prop where
  written : Written Sound request.snapshotId s manifest
  honest : Sound → HonestObjects s
  contents : ∃ schema tables tableEntries objectEntries,
    host.database.schemaSnapshot = .ok schema ∧ host.database.exportFull = .ok tables ∧
    (Sound → List.Forall₂ (fun (table : BackupTableExport) entry => Describes s
      (databaseTableKey request.snapshotId table.tableName) table.tableName table.rows entry)
      tables tableEntries) ∧
    setManifestChecksum (fullManifest request schema tableEntries objectEntries) = .ok manifest

/-- The export names no table twice. -/
def DistinctTables (host : Host) : Prop :=
  ∀ tables, host.database.exportFull = .ok tables → (tables.map (·.tableName)).Nodup

/-- **Full backups.** -/
theorem wpE_createFullBackupInner (sched : List Poll) (request : FullBackupRequest)
    (options : BackupExecutionOptions)
    (hsound : Sound → HonestObjects w.store ∧ DistinctTables host) :
    wpE host.MayFail (Writing Sound request.snapshotId w)
      (createFullBackupInner sched request options)
      (fun result w' => FullWritten Sound host request w'.store result.manifest)
      (fun _ _ => True) w := by
  apply wpE.seq (wpE_planFullBackup (Writing.refl _ w))
  rintro ⟨schema, tables, objects⟩ w - ⟨⟨hschema, htables, _⟩, rfl⟩
  have hkeys : Sound → (tables.map fun table : BackupTableExport =>
      databaseTableKey request.snapshotId table.tableName).Nodup := by
    intro hs
    have h := ((hsound hs).2 tables htables).map (databaseTableKey_injective request.snapshotId)
    rwa [List.map_map] at h
  have hdir : ∀ table : BackupTableExport, InSnapshotDir request.snapshotId
      (databaseTableKey request.snapshotId table.tableName) := fun _ =>
    inSnapshotDir_databaseTableKey _ _
  have hne : ∀ table : BackupTableExport,
      databaseTableKey request.snapshotId table.tableName ≠ snapshotManifestKey request.snapshotId :=
    fun _ => databaseTableKey_ne_snapshotManifestKey _ _
  apply wpE.seq (wpE_payloads (fun table : BackupTableExport =>
    databaseTableKey request.snapshotId table.tableName) (·.tableName) (·.rows)
    (Preparing.refl _ w) hdir hne)
  rintro tableEntries w₁ - ⟨hwrites, hentries⟩
  have hpreparing := (Preparing.refl _ w).payloads hwrites
  apply wpE.seq (wpE_objects hpreparing sched _)
  rintro objectEntries w₂ - ⟨hadds, hobjects⟩
  have hentries' := fun hs => (hentries (hkeys hs)).imp fun table entry hdesc =>
    hdesc.addsObjects (hdir table) hadds
  have hobjects' := fun hs => hobjects (hwrites.honestObjects (hsound hs).1)
  refine wpE.seq (wpE_writeManifest rfl (hpreparing.objects hadds) fun hs => ?_) ?_
  · refine inPlace_references (hobjects' hs).2 fun entry hentry => ?_
    rw [fullManifest, List.append_nil] at hentry
    exact inPlace_of_describes (hentries' hs) hdir hne entry hentry
  · rintro manifest w₃ hI ⟨hset, hwritten, hother⟩
    refine ⟨hI, hwritten, fun hs => (hobjects' hs).1.of_other hother, schema, tables,
      tableEntries, objectEntries, hschema, htables, ?_, hset⟩
    exact fun hs => (hentries' hs).imp fun table entry hdesc => hdesc.mono (hother _ (hne table))

/-! ## Incremental backups -/

/-- What an incremental backup that succeeds has written. -/
structure IncrementalWritten (Sound : Prop) (host : Host) (request : IncrementalBackupRequest)
    (s : Store) (manifest : BackupSnapshotManifest) : Prop where
  written : Written Sound request.snapshotId s manifest
  honest : Sound → HonestObjects s
  contents : ∃ schema changes changeEntries objectEntries,
    host.database.schemaSnapshot = .ok schema ∧
    host.database.exportIncremental request.parentSnapshotId = .ok changes ∧
    List.Forall₂ (fun (group : ChangeGroup) entry => Describes s
      (databaseChangesKey request.snapshotId group.tableName) group.tableName group.changes entry)
      (groupChangesByTable changes) changeEntries ∧
    setManifestChecksum (incrementalManifest request schema changes changeEntries objectEntries) =
      .ok manifest

/-- **Incremental backups.** -/
theorem wpE_createIncrementalBackupInner (sched : List Poll) (request : IncrementalBackupRequest)
    (options : BackupExecutionOptions) (hsound : Sound → HonestObjects w.store) :
    wpE host.MayFail (Writing Sound request.snapshotId w)
      (createIncrementalBackupInner sched request options)
      (fun result w' => IncrementalWritten Sound host request w'.store result.manifest)
      (fun _ _ => True) w := by
  refine wpE.seq (wpE_query (c := .schemaSnapshot)
    (P := fun schema => host.database.schemaSnapshot = .ok schema) (Writing.refl _ w) ?_) ?_
  · rintro r w' ⟨rfl, rfl⟩
    exact ⟨rfl, fun _ h => h⟩
  rintro schema w - ⟨hschema, rfl⟩
  refine wpE.seq (wpE_query (c := .exportIncremental request.parentSnapshotId)
    (P := fun changes => host.database.exportIncremental request.parentSnapshotId = .ok changes)
    (Writing.refl _ w) ?_) ?_
  · rintro r w' ⟨rfl, rfl⟩
    exact ⟨rfl, fun _ h => h⟩
  rintro changes w - ⟨hchanges, rfl⟩
  refine wpE.seq (wpE_query (c := .listObjectsForIncrementalBackup request.parentSnapshotId)
    (P := fun _ => True) (Writing.refl _ w) ?_) ?_
  · rintro r w' ⟨rfl, rfl⟩
    exact ⟨rfl, fun _ _ => trivial⟩
  rintro objectRefs w - ⟨-, rfl⟩
  have hkeys : ((groupChangesByTable changes).map fun group : ChangeGroup =>
      databaseChangesKey request.snapshotId group.tableName).Nodup := by
    have h := (grouped_groupChangesByTable changes).nodup.map
      (databaseChangesKey_injective request.snapshotId)
    rwa [List.map_map] at h
  have hdir : ∀ group : ChangeGroup, InSnapshotDir request.snapshotId
      (databaseChangesKey request.snapshotId group.tableName) := fun _ =>
    inSnapshotDir_databaseChangesKey _ _
  have hne : ∀ group : ChangeGroup, databaseChangesKey request.snapshotId group.tableName ≠
      snapshotManifestKey request.snapshotId :=
    fun _ => databaseChangesKey_ne_snapshotManifestKey _ _
  apply wpE.seq (wpE_payloads (fun group : ChangeGroup =>
    databaseChangesKey request.snapshotId group.tableName) (·.tableName) (·.changes)
    (Preparing.refl _ w) hdir hne)
  rintro changeEntries w₁ - ⟨hwrites, hentries⟩
  have hpreparing := (Preparing.refl _ w).payloads hwrites
  apply wpE.seq (wpE_objects hpreparing sched _)
  rintro objectEntries w₂ - ⟨hadds, hobjects⟩
  have hentries' := (hentries hkeys).imp fun group entry hdesc =>
    hdesc.addsObjects (hdir group) hadds
  have hobjects' := fun hs => hobjects (hwrites.honestObjects (hsound hs))
  refine wpE.seq (wpE_writeManifest rfl (hpreparing.objects hadds) fun hs => ?_) ?_
  · exact inPlace_references (hobjects' hs).2 fun entry hentry =>
      inPlace_of_describes hentries' hdir hne entry hentry
  · rintro manifest w₃ hI ⟨hset, hwritten, hother⟩
    refine ⟨hI, hwritten, fun hs => (hobjects' hs).1.of_other hother, schema, changes,
      changeEntries, objectEntries, hschema, hchanges, ?_, hset⟩
    exact hentries'.imp fun group entry hdesc => hdesc.mono (hother _ (hne group))

/-! ## Compaction -/

/-- What a compaction that succeeds has written. -/
structure CompactWritten (Sound : Prop) (request : CompactChainRequest) (s₀ s : Store)
    (manifest : BackupSnapshotManifest) : Prop where
  written : Written Sound request.snapshotId s manifest
  contents : ∃ root rest latest tableRows tableEntries,
    loadManifestChain s₀ request.sourceSnapshotId = .ok (root :: rest) ∧
    (∀ manifest ∈ root :: rest, HoldsBlobs s₀ manifest) ∧
    (root :: rest).getLast? = some latest ∧ compactRows s₀ root rest = .ok tableRows ∧
    List.Forall₂ (fun (table : String × Std.TreeMap String BackupRow) entry => Describes s
      (databaseTableKey request.snapshotId table.1) table.1 table.2.values entry)
      tableRows.toList tableEntries ∧
    setManifestChecksum (syntheticManifest request latest tableEntries
      (compactObjectEntries (root :: rest))) = .ok manifest

omit [Crates] in
/-- The entries that compaction keeps are entries of the chain. -/
theorem mem_compactObjectEntries {chain : List BackupSnapshotManifest} {entry : ObjectBackupEntry}
    (h : entry ∈ compactObjectEntries chain) : ∃ manifest ∈ chain, entry ∈ manifest.objects := by
  have hfold : ∀ (l : List ObjectBackupEntry) (objects : AList fun _ : Uuid => ObjectBackupEntry)
      (p : Sigma fun _ : Uuid => ObjectBackupEntry),
      p ∈ (l.foldl (fun objects object => objects.insert object.objectId object) objects).entries →
        p ∈ objects.entries ∨ p.2 ∈ l := by
    intro l
    induction l with
    | nil => exact fun _ _ hp => Or.inl hp
    | cons object l ih =>
      intro objects p hp
      rcases ih _ p hp with hp | hp
      · rw [AList.entries_insert, List.mem_cons] at hp
        rcases hp with rfl | hp
        · exact Or.inr List.mem_cons_self
        · exact Or.inl (List.kerase_sublist _ _ |>.subset hp)
      · exact Or.inr (List.mem_cons_of_mem _ hp)
  rw [compactObjectEntries, List.mem_mergeSort] at h
  rcases List.mem_map.mp h with ⟨p, hp, rfl⟩
  rcases hfold _ _ p hp with hp | hp
  · exact absurd hp List.not_mem_nil
  · exact List.mem_flatMap.mp (List.mem_filter.mp hp).1

omit [Crates] in
theorem nodup_databaseTableKeys (tableRows : TableRows) : (tableRows.toList.map fun table =>
    databaseTableKey snapshotId table.1).Nodup := by
  refine List.pairwise_map.mpr (Std.TreeMap.distinct_keys_toList.imp fun hne heq => ?_)
  exact hne (Std.LawfulEqCmp.compare_eq_iff_eq.mpr (databaseTableKey_injective snapshotId heq))

/-- The blobs of the chain of a snapshot lie where this crate puts them: objects
    in the object store, payloads in the directory of their snapshot. -/
def ChainKeysStored (s : Store) (id : Uuid) : Prop :=
  ∀ chain, loadManifestChain s id = .ok chain → ∀ manifest ∈ chain,
    (∀ entry ∈ manifest.objects, InObjectStore entry.contentKey) ∧
    ∀ entry ∈ manifest.database.tables ++ manifest.database.changes,
      InSnapshotDir manifest.snapshotId entry.contentKey

/-- **Compactions.** -/
theorem wpE_compactChainInner (order : BackupSnapshotManifest → CompletionOrder)
    (request : CompactChainRequest)
    (hsound : Sound → ChainKeysStored w.store request.sourceSnapshotId) :
    wpE host.MayFail (Writing Sound request.snapshotId w) (compactChainInner order request)
      (fun result w' => CompactWritten Sound request w.store w'.store result.manifest)
      (fun _ _ => True) w := by
  apply wpE.seq (P := fun chain w' =>
      loadVerifiedChain order w.store request.sourceSnapshotId = .ok chain ∧ w' = w)
    (wpE_read (Writing.refl _ w) (fun _ _ _ => trivial) fun chain hchain => ⟨hchain, rfl⟩)
  rintro chain w - ⟨hchain, rfl⟩
  rcases loadVerifiedChain_eq_ok.mp hchain with ⟨hload, hverify⟩
  refine wpE.seq (P := fun root w' => chain.head? = some root ∧ w' = w)
    (wpE_ofExcept.mpr ⟨Writing.refl _ w, ?_⟩) ?_
  · cases hhead : chain.head? with
    | some root => exact ⟨rfl, rfl⟩
    | none => trivial
  rintro root w - ⟨hhead, rfl⟩
  obtain ⟨rest, rfl⟩ : ∃ rest, chain = root :: rest := List.head?_eq_some_iff.mp hhead
  apply wpE.seq (P := fun tableRows w' => compactRows w.store root rest = .ok tableRows ∧ w' = w)
    (wpE_read (Writing.refl _ w) (fun _ _ _ => trivial) fun rows hrows => ⟨hrows, rfl⟩)
  rintro tableRows w - ⟨hrows, rfl⟩
  have hdir : ∀ table : String × Std.TreeMap String BackupRow, InSnapshotDir request.snapshotId
      (databaseTableKey request.snapshotId table.1) := fun _ => inSnapshotDir_databaseTableKey _ _
  have hne : ∀ table : String × Std.TreeMap String BackupRow,
      databaseTableKey request.snapshotId table.1 ≠ snapshotManifestKey request.snapshotId :=
    fun _ => databaseTableKey_ne_snapshotManifestKey _ _
  refine wpE.seq (wpE_payloads (fun table : String × Std.TreeMap String BackupRow =>
    databaseTableKey request.snapshotId table.1) (·.1) (·.2.values)
    (Preparing.refl _ w) hdir hne) ?_
  rintro tableEntries w₁ - ⟨hwrites, hentries⟩
  have hentries := hentries (nodup_databaseTableKeys tableRows)
  have hpreparing := (Preparing.refl _ w).payloads hwrites
  refine wpE.seq (P := fun latest w' => (root :: rest).getLast? = some latest ∧ w' = w₁)
    (wpE_ofExcept.mpr ⟨hpreparing.writing, ?_⟩) ?_
  · cases hlast : (root :: rest).getLast? with
    | some latest => exact ⟨rfl, rfl⟩
    | none => trivial
  rintro latest w₁ - ⟨hlast, rfl⟩
  refine wpE.seq (wpE_writeManifest rfl hpreparing fun hs => ?_) ?_
  · refine inPlace_references (fun entry hentry => ?_) fun entry hentry => ?_
    · obtain ⟨manifest, hmem, hentry⟩ := mem_compactObjectEntries hentry
      have hcheck : (entry.contentKey, entry.sha256Hex) ∈ manifest.objectChecks :=
        List.mem_map.mpr ⟨entry, hentry, rfl⟩
      have hkey := (hsound hs _ hload manifest hmem).1 entry hentry
      obtain ⟨body, hbody, hsha⟩ := (hverify manifest hmem).2 _ (List.mem_append_left _ hcheck)
      exact ⟨hkey, body,
        (hwrites.lookup _ (hkey.not_inSnapshotDir _)).trans hbody, hsha⟩
    · rw [syntheticManifest, List.append_nil] at hentry
      exact inPlace_of_describes hentries hdir hne entry hentry
  · rintro manifest w₂ hI ⟨hset, hwritten, hother⟩
    refine ⟨hI, hwritten, root, rest, latest, tableRows, tableEntries, hload,
      fun manifest hmem => (hverify manifest hmem).2, hlast, hrows, ?_, hset⟩
    exact hentries.imp fun table entry hdesc => hdesc.mono (hother _ (hne table))

end

end GraphqlOrmBackup
