import GraphqlOrmBackup.Compaction

/-!
# What is backed up is what is restored

A full backup and the incremental backups after it write a chain whose contents
are the exported tables and, for each incremental backup, its changes regrouped
by table.
-/

namespace GraphqlOrmBackup

open Interaction

section Codec

variable [Crates]

/-- Successful runs one after the other: a full backup of the tables, and an
    incremental backup of each list of changes, with the snapshot before it as
    its parent.  The snapshots have different ids and one application, and the
    databases that were backed up one schema. -/
inductive BackupChain (w : World) (appId : String) (schema : GraphqlOrmBackupSchema)
    (tables : List BackupTableExport) :
    List Uuid → List (List BackupChangeExport) → World → Prop where
  | full {host : Host} {sched : List Poll} {request : FullBackupRequest}
      {options : BackupExecutionOptions} {result : FullBackupResult} {w' : World}
      (happ : request.appId = appId) (hschema : host.database.schemaSnapshot = .ok schema)
      (htables : host.database.exportFull = .ok tables)
      (hret : Returns host.MayFail w (createFullBackupWithOptions sched request options).run
        (.ok result) w') : BackupChain w appId schema tables [request.snapshotId] [] w'
  | incremental {ids : List Uuid} {changes : List (List BackupChangeExport)} {w₁ w' : World}
      {host : Host} {sched : List Poll} {request : IncrementalBackupRequest}
      {options : BackupExecutionOptions} {result : IncrementalBackupResult}
      {list : List BackupChangeExport} (hchain : BackupChain w appId schema tables ids changes w₁)
      (hfresh : request.snapshotId ∉ ids) (hparent : ids.getLast? = some request.parentSnapshotId)
      (happ : request.appId = appId) (hschema : host.database.schemaSnapshot = .ok schema)
      (hlist : host.database.exportIncremental request.parentSnapshotId = .ok list)
      (hret : Returns host.MayFail w₁ (createIncrementalBackupWithOptions sched request options).run
        (.ok result) w') :
      BackupChain w appId schema tables (ids ++ [request.snapshotId]) (changes ++ [list]) w'

/-- The changes of an incremental snapshot, in the order in which they are stored. -/
def regroup (list : List BackupChangeExport) : List BackupChangeExport :=
  ungroup (groupChangesByTable list)

/-- The lists have the same changes of each table, in the same order. -/
def AgreeByTable (changes changes' : List BackupChangeExport) : Prop :=
  ∀ tableName, changesOf tableName changes = changesOf tableName changes'

omit [Crates] in
theorem AgreeByTable.perm {changes changes' : List BackupChangeExport}
    (h : AgreeByTable changes changes') : changes.Perm changes' := by
  classical
  rw [List.perm_iff_count]
  intro change
  have hcount : ∀ l, (changesOf change.tableName l).count change = l.count change := fun l =>
    List.count_filter (by simp)
  rw [← hcount changes, ← hcount changes', h]

omit [Crates] in
theorem agreeByTable_regroup (list : List BackupChangeExport) : AgreeByTable (regroup list) list :=
  changesOf_groupChangesByTable list

section

variable {w w₁ w' : World} {s s' : Store} {id : Uuid} {appId : String}
  {schema : GraphqlOrmBackupSchema} {tables : List BackupTableExport} {ids : List Uuid}
  {changes : List (List BackupChangeExport)} {root : BackupSnapshotManifest}
  {rest : List BackupSnapshotManifest} {manifest : BackupSnapshotManifest}

/-! ## What a chain of backups has stored -/

/-- The stored chain, root first. -/
structure BackedUp (s : Store) (id : Uuid) (appId : String) (schema : GraphqlOrmBackupSchema)
    (root : BackupSnapshotManifest) (rest : List BackupSnapshotManifest)
    (tables : List BackupTableExport) (changes : List (List BackupChangeExport)) : Prop where
  contents : Contents s id root rest tables (changes.map regroup)
  inPlace : ∀ manifest ∈ root :: rest, ∀ ref ∈ manifest.references,
    InPlace manifest.snapshotId s ref
  own : ∃ leaf, (root :: rest).getLast? = some leaf ∧ leaf.snapshotId = id
  header : ∀ manifest ∈ root :: rest, manifest.header = ⟨appId, schema.backend, schema.schemaHash⟩
  schema : manifestSchema root = schema
  honest : HonestObjects s

/-- The blobs of another snapshot stay as they are. -/
theorem Extends.sameBlobs {snapshotId : Uuid} (h : Extends snapshotId w w')
    (hne : manifest.snapshotId ≠ snapshotId)
    (hplace : ∀ ref ∈ manifest.references, InPlace manifest.snapshotId w.store ref) :
    SameBlobs w.store w'.store manifest := by
  intro key hkey
  rcases List.mem_map.mp hkey with ⟨ref, href, rfl⟩
  obtain ⟨hcase, body, hbody, _⟩ := hplace ref href
  refine h ref.1 (hplace ref href).ne_lock (fun hdir => ?_) (Or.inl ?_)
  · rcases hcase with ⟨hdir', _⟩ | hobj
    · exact hne (hdir.unique hdir')
    · exact hobj.not_inSnapshotDir _ hdir
  · exact Store.mem_of_lookup hbody

theorem InPlace.of_sameBlobs (hsame : SameBlobs s s' manifest)
    (h : ∀ ref ∈ manifest.references, InPlace manifest.snapshotId s ref) :
    ∀ ref ∈ manifest.references, InPlace manifest.snapshotId s' ref := by
  intro ref href
  obtain ⟨hcase, body, hbody, hsha⟩ := h ref href
  exact ⟨hcase, body, (hsame ref.1 (List.mem_map_of_mem href)).trans hbody, hsha⟩

/-- The manifest of the snapshot itself. -/
theorem BackedUp.leaf (h : BackedUp s id appId schema root rest tables changes) :
    ∃ leaf, loadManifest s id = .ok leaf ∧ leaf ∈ root :: rest ∧ leaf.snapshotId = id := by
  obtain ⟨leaf, hlast, hid⟩ := h.own
  rcases loadManifestChain_eq_ok.mp h.contents.loads with ⟨path, hpath, hmap, _⟩
  obtain ⟨pre, leaf', rfl, hload⟩ := hpath.exists_last
  rw [hmap, List.map_append, List.map_cons, List.map_nil, List.getLast?_concat] at hlast
  obtain rfl := Option.some.inj hlast
  exact ⟨_, hload, hmap ▸ by simp, hid⟩

/-- The changes of an incremental backup, loaded from any repository that has
    kept its payloads. -/
theorem loadChangeExports_of_createIncrementalBackup (hback : CratesReadBack) {host : Host}
    {sched : List Poll} {request : IncrementalBackupRequest} {options : BackupExecutionOptions}
    {result : IncrementalBackupResult} {list : List BackupChangeExport}
    (hlist : host.database.exportIncremental request.parentSnapshotId = .ok list)
    (hreadable : ∀ change ∈ list, change.Readable)
    (hret : Returns host.MayFail w (createIncrementalBackupWithOptions sched request options).run
      (.ok result) w₁)
    (hsame : SameBlobs w₁.store s result.manifest) :
    loadChangeExports s result.manifest = .ok (regroup list) := by
  obtain ⟨_, hincremental⟩ := returns_createIncrementalBackup (fun h : False => h.elim) hret
  obtain ⟨_, list', changeEntries, objectEntries, _, hlist', hentries, hset⟩ :=
    hincremental.contents
  obtain rfl := Except.ok.inj (hlist.symm.trans hlist')
  rcases setManifestChecksum_eq_ok.mp hset with ⟨checksum, _, hmanifest⟩
  have hread : ∀ group ∈ groupChangesByTable list, ∀ change ∈ group.changes, ReadsBack change :=
    fun group hgroup change hchange => hback.changes.readsBack change <|
      hreadable change ((agreeByTable_regroup list).perm.subset
        (List.mem_flatMap.mpr ⟨group, hgroup, hchange⟩))
  rw [hsame.loadChangeExports]
  exact loadChangeExports_of_describes hback.zstd (by rw [hmanifest]; exact hentries) hread
    (by rw [hmanifest]; rfl) (by rw [hmanifest]; rfl)

section Full

variable {host : Host} {sched : List Poll} {request : FullBackupRequest}
  {options : BackupExecutionOptions} {result : FullBackupResult} {loaded : List BackupTableExport}

omit [Crates] in
theorem distinctTables_of_exportFull (htables : host.database.exportFull = .ok tables)
    (hnodup : (tables.map (·.tableName)).Nodup) : DistinctTables host := by
  intro tables' htables'
  rwa [← Except.ok.inj (htables.symm.trans htables')]

/-- A full backup stores a chain of its own, with the tables that are loaded. -/
theorem contents_of_createFullBackup (hback : CratesReadBack) (hhonest : HonestObjects w.store)
    (hdistinct : DistinctTables host)
    (hret : Returns host.MayFail w (createFullBackupWithOptions sched request options).run
      (.ok result) w') (hload : loadTableExports w'.store result.manifest = .ok loaded) :
    Contents w'.store request.snapshotId result.manifest [] loaded [] := by
  obtain ⟨hwriting, hfull⟩ := returns_createFullBackup (fun _ : True => ⟨hhonest, hdistinct⟩) hret
  have hwritten := hfull.written
  obtain ⟨_, _, _, _, _, _, _, hset⟩ := hfull.contents
  rcases setManifestChecksum_eq_ok.mp hset with ⟨checksum, _, hmanifest⟩
  have hloads := (hwriting.replaces hback.manifests hwritten).chain_root
    (by rw [hmanifest]; rfl) (by rw [hmanifest]; exact Or.inl rfl)
  exact ⟨hloads, List.forall_mem_singleton.mpr (hwritten.verifies trivial).1, hload, .nil⟩

/-- **A full backup** stores the exported tables. -/
theorem backedUp_full (hback : CratesReadBack)
    (hschema : host.database.schemaSnapshot = .ok schema)
    (htables : host.database.exportFull = .ok tables) (hhonest : HonestObjects w.store)
    (hnodup : (tables.map (·.tableName)).Nodup)
    (hreadable : ∀ table ∈ tables, ∀ row ∈ table.rows, row.Readable)
    (hret : Returns host.MayFail w (createFullBackupWithOptions sched request options).run
      (.ok result) w') :
    BackedUp w'.store request.snapshotId request.appId schema result.manifest [] tables [] := by
  have hdistinct := distinctTables_of_exportFull htables hnodup
  obtain ⟨hwriting, hfull⟩ := returns_createFullBackup (fun _ : True => ⟨hhonest, hdistinct⟩) hret
  have hwritten := hfull.written
  obtain ⟨schema', tables', tableEntries, objectEntries, hschema', htables', hentries, hset⟩ :=
    hfull.contents
  obtain rfl := Except.ok.inj (hschema.symm.trans hschema')
  obtain rfl := Except.ok.inj (htables.symm.trans htables')
  rcases setManifestChecksum_eq_ok.mp hset with ⟨checksum, _, hmanifest⟩
  have hread : ∀ table ∈ tables, ∀ row ∈ table.rows, ReadsBack row := fun table htable row hrow =>
    hback.rows.readsBack row (hreadable table htable row hrow)
  have hload : loadTableExports w'.store result.manifest =
      .ok (tables.map fun table => ⟨table.tableName, table.rows⟩) :=
    loadTableExports_of_describes hback.zstd (by rw [hmanifest]; exact hentries trivial) hread
      (by rw [hmanifest]; rfl) (by rw [hmanifest]; rfl)
  rw [List.map_id'] at hload
  refine ⟨contents_of_createFullBackup hback hhonest hdistinct hret hload, ?_,
    ⟨_, rfl, hwritten.id⟩, ?_, by rw [hmanifest]; rfl, hfull.honest trivial⟩
  · rw [List.forall_mem_singleton, hwritten.id]
    exact hwritten.blobs trivial
  · rw [List.forall_mem_singleton, hmanifest]
    rfl

end Full

/-- **An incremental backup** adds its changes to the chain of its parent. -/
theorem BackedUp.incremental (hback : CratesReadBack) {host : Host} {sched : List Poll}
    {request : IncrementalBackupRequest} {options : BackupExecutionOptions}
    {result : IncrementalBackupResult} {list : List BackupChangeExport}
    (h : BackedUp w.store request.parentSnapshotId request.appId schema root rest tables changes)
    (hfresh : ∀ manifest ∈ root :: rest, manifest.snapshotId ≠ request.snapshotId)
    (hschema : host.database.schemaSnapshot = .ok schema)
    (hlist : host.database.exportIncremental request.parentSnapshotId = .ok list)
    (hreadable : ∀ change ∈ list, change.Readable)
    (hret : Returns host.MayFail w (createIncrementalBackupWithOptions sched request options).run
      (.ok result) w') :
    BackedUp w'.store request.snapshotId request.appId schema root (rest ++ [result.manifest])
      tables (changes ++ [list]) := by
  obtain ⟨hwriting, hincremental⟩ := returns_createIncrementalBackup (fun _ : True => h.honest) hret
  have hwritten := hincremental.written
  obtain ⟨schema', list', changeEntries, objectEntries, hschema', hlist', hentries, hset⟩ :=
    hincremental.contents
  obtain rfl := Except.ok.inj (hschema.symm.trans hschema')
  obtain rfl := Except.ok.inj (hlist.symm.trans hlist')
  rcases setManifestChecksum_eq_ok.mp hset with ⟨checksum, _, hmanifest⟩
  have hheader : result.manifest.header = ⟨request.appId, schema.backend, schema.schemaHash⟩ := by
    rw [hmanifest]
    rfl
  obtain ⟨leaf, hleaf, hmem, hid⟩ := h.leaf
  have hloads : loadManifestChain w'.store request.snapshotId =
      .ok (root :: (rest ++ [result.manifest])) := by
    refine ((hwriting.replaces hback.manifests hwritten).chain_child hwritten.id
      (by rw [hmanifest]; rfl)).mpr ⟨root :: rest, ⟨h.contents.loads, ⟨leaf, hleaf, hid, ?_⟩,
        hfresh⟩, rfl⟩
    rw [hheader]
    exact h.header leaf hmem
  have hsame : ∀ manifest ∈ root :: rest, SameBlobs w.store w'.store manifest :=
    fun manifest hmem => hwriting.extends_.sameBlobs (hfresh manifest hmem) (h.inPlace manifest hmem)
  have hload : loadChangeExports w'.store result.manifest = .ok (regroup list) :=
    loadChangeExports_of_createIncrementalBackup hback hlist hreadable hret fun _ _ => rfl
  have hforall : ∀ P : BackupSnapshotManifest → Prop, (∀ manifest ∈ root :: rest, P manifest) →
      P result.manifest → ∀ manifest ∈ root :: (rest ++ [result.manifest]), P manifest := by
    intro P hold hnew
    rw [← List.cons_append, List.forall_mem_append]
    exact ⟨hold, List.forall_mem_singleton.mpr hnew⟩
  refine ⟨⟨hloads, hforall _ (fun manifest hmem => ?_) (hwritten.verifies trivial).1,
    (hsame root List.mem_cons_self).loadTableExports.trans h.contents.tables, ?_⟩,
    hforall _ (fun manifest hmem => ?_) ?_, ⟨result.manifest, ?_, hwritten.id⟩,
    hforall _ h.header hheader, h.schema, hincremental.honest trivial⟩
  · exact (h.contents.blobs manifest hmem).of_agree (hsame manifest hmem)
  · rw [List.map_append]
    exact List.rel_append (forall₂_loadChangeExports
      (fun manifest hmem => hsame manifest (List.mem_cons_of_mem _ hmem)) h.contents.changes)
      (.cons hload .nil)
  · exact InPlace.of_sameBlobs (hsame manifest hmem) (h.inPlace manifest hmem)
  · rw [hwritten.id]
    exact hwritten.blobs trivial
  · rw [← List.cons_append, List.getLast?_concat]

/-- A chain of backups has stored its history. -/
theorem BackupChain.backedUp (hback : CratesReadBack) (hhonest : HonestObjects w.store)
    (hnodup : (tables.map (·.tableName)).Nodup)
    (hrows : ∀ table ∈ tables, ∀ row ∈ table.rows, row.Readable)
    (hchanges : ∀ list ∈ changes, ∀ change ∈ list, change.Readable)
    (h : BackupChain w appId schema tables ids changes w') :
    ∃ id root rest, ids.getLast? = some id ∧ (root :: rest).map (·.snapshotId) = ids ∧
      BackedUp w'.store id appId schema root rest tables changes := by
  induction h with
  | full happ hschema htables hret =>
    have hfull := backedUp_full hback hschema htables hhonest hnodup hrows hret
    obtain ⟨leaf, hlast, hid⟩ := hfull.own
    rw [List.getLast?_singleton, Option.some.injEq] at hlast
    exact ⟨_, _, [], rfl, by rw [List.map_singleton, hlast, hid], happ ▸ hfull⟩
  | incremental hchain hfresh hparent happ hschema hlist hret ih =>
    rw [List.forall_mem_append] at hchanges
    obtain ⟨id, root, rest, hid, hids, hbacked⟩ := ih hchanges.1
    obtain rfl := Option.some.inj (hid.symm.trans hparent)
    subst happ
    have hnew := hbacked.incremental hback (fun manifest hmem heq =>
      hfresh (hids ▸ heq ▸ List.mem_map_of_mem hmem)) hschema hlist
      (hchanges.2 _ List.mem_cons_self) hret
    obtain ⟨leaf, hlast, hleaf⟩ := hnew.own
    rw [← List.cons_append, List.getLast?_concat] at hlast
    obtain rfl := Option.some.inj hlast
    refine ⟨_, root, _, List.getLast?_concat, ?_, hnew⟩
    rw [← List.cons_append, List.map_append, hids, List.map_singleton, hleaf]

/-! ## The restored databases -/

/-- **What is backed up is what is restored.**  A restore of the last snapshot
    into an empty target of the same schema delivers the exported tables in one
    call, and each list of changes in a call of its own, in order.  The changes
    of a call are those of its list, in the order of the list for each table, and
    the calls make of an empty database what the history makes of it. -/
theorem backups_are_restored (hback : CratesReadBack) (hhonest : HonestObjects w.store)
    (hnodup : (tables.map (·.tableName)).Nodup)
    (hrows : ∀ table ∈ tables, ∀ row ∈ table.rows, row.Readable)
    (hchanges : ∀ list ∈ changes, ∀ change ∈ list, change.Readable)
    (h : BackupChain w appId schema tables ids changes w') :
    ∃ id root delivered, ids.getLast? = some id ∧ manifestSchema root = schema ∧
      List.Forall₂ (fun sent list => AgreeByTable sent list ∧ sent.Perm list) delivered changes ∧
      Restores w' id root (fun context => .restoreFull schema tables context ::
        delivered.map fun list => .restoreIncremental list context) ∧
      ∀ context, KeyedStore.ofCalls (.restoreFull schema tables context ::
        delivered.map fun list => .restoreIncremental list context) =
        KeyedStore.ofHistory tables changes := by
  obtain ⟨id, root, rest, hid, _, hbacked⟩ := h.backedUp hback hhonest hnodup hrows hchanges
  have hagree : List.Forall₂ AgreeByTable (changes.map regroup) changes := by
    rw [List.forall₂_map_left_iff, List.forall₂_same]
    exact fun list _ => agreeByTable_regroup list
  refine ⟨id, root, changes.map regroup, hid, hbacked.schema,
    hagree.imp fun sent list h => ⟨h, h.perm⟩, ?_, fun context => ?_⟩
  · have hrestores := hbacked.contents.restores
    rw [← hbacked.schema]
    exact hrestores
  · rw [← hbacked.schema, KeyedStore.ofCalls_restoreCalls, KeyedStore.ofHistory_congr hagree]

end

end Codec

/-! ## A chain of two backups -/

section Journal

open Reference

def deletion (tableName primaryKey : String) : BackupChangeExport where
  tableName := tableName
  primaryKey := primaryKey
  action := .delete
  row := none
  changedAt := 0

/-- A note and its two comments are deleted. -/
def journal : List BackupChangeExport :=
  [deletion "comments" "1", deletion "notes" "1", deletion "comments" "2"]

def fullRun : Except BackupError FullBackupResult × World :=
  runDatabase [notes] [] (createFullBackupWithOptions [] (fullRequest (uuid 1)) options) emptyWorld

def incrementalRun : Except BackupError IncrementalBackupResult × World :=
  runDatabase [] journal
    (createIncrementalBackupWithOptions [] (incrementalRequest (uuid 2) (uuid 1)) options) fullRun.2

theorem returns_fullRun : ∃ result, Returns (database [notes] []).MayFail emptyWorld
    (createFullBackupWithOptions [] (fullRequest (uuid 1)) options).run (.ok result) fullRun.2 := by
  have hok : fullRun.1.isOk = true := by decide +kernel
  obtain ⟨result, hret⟩ := returns_runDatabase hok
  exact ⟨result, returns_mayFail hret⟩

theorem returns_incrementalRun : ∃ result, Returns (database [] journal).MayFail fullRun.2
    (createIncrementalBackupWithOptions [] (incrementalRequest (uuid 2) (uuid 1)) options).run
    (.ok result) incrementalRun.2 := by
  have hok : incrementalRun.1.isOk = true := by decide +kernel
  obtain ⟨result, hret⟩ := returns_runDatabase hok
  exact ⟨result, returns_mayFail hret⟩

theorem backupChain_incrementalRun :
    BackupChain emptyWorld "app" schema [notes] [uuid 1, uuid 2] [journal] incrementalRun.2 := by
  rcases returns_fullRun with ⟨_, hfull⟩
  rcases returns_incrementalRun with ⟨_, hincremental⟩
  have hchain : BackupChain emptyWorld "app" schema [notes] [uuid 1] [] fullRun.2 :=
    .full rfl rfl rfl hfull
  exact .incremental hchain (by decide) rfl rfl rfl rfl hincremental

theorem readable_notes : ∀ table ∈ [notes], ∀ row ∈ table.rows, row.Readable := by
  intro table htable row hrow
  rw [List.mem_singleton.mp htable] at hrow
  rw [List.mem_singleton.mp hrow]
  exact readable_of_depth (by decide) rfl

theorem readable_journal : ∀ change ∈ journal, change.Readable := by
  have hdepth : ∀ change ∈ journal, change.depth ≤ Crates.recursionLimit := by decide
  have hfloats : ∀ change ∈ journal, ∀ row ∈ change.row, row.floats = [] := by decide
  intro change hmem
  exact readable_change_of_depth (hdepth change hmem) (hfloats change hmem)

theorem backups_are_restored_journal : ∃ root sent, sent.Perm journal ∧
    Restores incrementalRun.2 (uuid 2) root fun context =>
      [.restoreFull schema [notes] context, .restoreIncremental sent context] := by
  obtain ⟨id, root, delivered, hid, _, hsent, hrestores, _⟩ :=
    backups_are_restored cratesReadBack honestObjects_empty (by decide) readable_notes
      (List.forall_mem_singleton.mpr readable_journal) backupChain_incrementalRun
  obtain rfl : uuid 2 = id := Option.some.inj hid
  rcases List.forall₂_cons_right_iff.mp hsent with ⟨sent, rest, ⟨_, hperm⟩, hnil, rfl⟩
  rw [List.forall₂_nil_right_iff] at hnil
  subst hnil
  exact ⟨root, sent, hperm, hrestores⟩

/-! ## A float that is not restored -/

/-- The float with the shortest decimal 907.3038322028689. -/
def weight : Binary64 := ⟨false, 7980728907462233, -43, by decide⟩

/-- The float with the shortest decimal 907.3038322028688. -/
def drifted : Binary64 := ⟨false, 7980728907462232, -43, by decide⟩

example : weight.shortest = (9073038322028689, -13) ∧
    drifted.shortest = (9073038322028688, -13) := by decide +kernel

def parcels : BackupTableExport where
  tableName := "parcels"
  rows := [⟨"parcels", "1", "x", Json.Map.empty.insert "weight" (.read (.number (.float weight)))⟩]

def parcelsPayload : Bytes := (serializeTableExport parcels).toOption.getD []

theorem serializeTableExport_parcels : serializeTableExport parcels = .ok parcelsPayload :=
  serializeJsonlEntries_of_isOk (by decide +kernel)

/-- The payload is parsed as a row with another float. -/
theorem exists_parse_parcelsPayload : ∃ rows : List BackupRow,
    (decompressPayload parcelsPayload >>= parseJsonl) = .ok rows ∧
      rows.flatMap (·.floats) = [drifted] := by
  have hfloats : ((decompressPayload parcelsPayload >>= parseJsonl).toOption.map
      fun rows : List BackupRow => rows.flatMap (·.floats)) = some [drifted] := by decide +kernel
  cases hparse : (decompressPayload parcelsPayload >>= parseJsonl : Except _ (List BackupRow)) with
  | ok rows =>
    rw [hparse] at hfloats
    exact ⟨rows, rfl, Option.some.inj hfloats⟩
  | error e =>
    rw [hparse] at hfloats
    cases hfloats

def parcelsRun : Except BackupError FullBackupResult × World :=
  runDatabase [parcels] [] (createFullBackupWithOptions [] (fullRequest (uuid 1)) options) emptyWorld

theorem returns_parcelsRun : ∃ result, Returns (database [parcels] []).MayFail emptyWorld
    (createFullBackupWithOptions [] (fullRequest (uuid 1)) options).run (.ok result)
    parcelsRun.2 := by
  have hok : parcelsRun.1.isOk = true := by decide +kernel
  obtain ⟨result, hret⟩ := returns_runDatabase hok
  exact ⟨result, returns_mayFail hret⟩

/-- **A float need not come back.**  A table with the weight 907.3038322028689 is
    backed up, and every restore delivers one with the weight 907.3038322028688. -/
theorem float_is_not_restored :
    BackupChain emptyWorld "app" schema [parcels] [uuid 1] [] parcelsRun.2 ∧
    HonestObjects emptyWorld.store ∧
    (∀ row ∈ parcels.rows, row.depth ≤ Crates.recursionLimit ∧ row.floats = [weight]) ∧
    ∃ root rows, rows.flatMap (·.floats) = [drifted] ∧
      Restores parcelsRun.2 (uuid 1) root (fun context =>
        [.restoreFull schema [BackupTableExport.mk "parcels" rows] context]) ∧
      rows ≠ parcels.rows := by
  obtain ⟨result, hret⟩ := returns_parcelsRun
  obtain ⟨rows, hparse, hdrifted⟩ := exists_parse_parcelsPayload
  have hdistinct : DistinctTables (database [parcels] []) :=
    distinctTables_of_exportFull rfl (by decide)
  obtain ⟨-, hfull⟩ := returns_createFullBackup
    (fun _ : True => ⟨honestObjects_empty, hdistinct⟩) hret
  obtain ⟨schema', tables, tableEntries, objectEntries, hschema, htables, hentries, hset⟩ :=
    hfull.contents
  obtain rfl : schema = schema' := Except.ok.inj hschema
  obtain rfl : [parcels] = tables := Except.ok.inj htables
  rcases setManifestChecksum_eq_ok.mp hset with ⟨checksum, _, hmanifest⟩
  obtain ⟨entry, _, hdescribes, hnil, hentry⟩ := List.forall₂_cons_left_iff.mp (hentries trivial)
  rw [List.forall₂_nil_left_iff] at hnil
  subst hnil
  obtain ⟨bytes, hbytes, hlookup, _⟩ := hdescribes.stored
  have hpayload : bytes = parcelsPayload :=
    Except.ok.inj (hbytes.symm.trans serializeTableExport_parcels)
  rw [hpayload] at hlookup
  have hload : loadTableExports parcelsRun.2.store result.manifest = .ok [⟨"parcels", rows⟩] := by
    have hdatabase : result.manifest.database.tables = [entry] := by
      rw [hmanifest]
      exact hentry
    have hrows : loadJsonlEntries parcelsRun.2.store result.manifest entry = .ok rows :=
      loadJsonlEntries_of_parse (by rw [hmanifest]; rfl) (by rw [hmanifest]; rfl)
        (hdescribes.contentKey ▸ hlookup) hparse
    rw [loadTableExports, hdatabase, mapM'_eq_ok]
    refine .cons ?_ .nil
    rw [hrows, hdescribes.tableName]
    rfl
  have hcontents := contents_of_createFullBackup cratesReadBack honestObjects_empty hdistinct hret
    hload
  have hroot : manifestSchema result.manifest = schema := by
    rw [hmanifest]
    rfl
  refine ⟨.full rfl rfl rfl hret, honestObjects_empty, by decide, result.manifest, rows, hdrifted,
    ?_, ?_⟩
  · rw [← hroot]
    exact hcontents.restores
  · rintro rfl
    exact absurd hdrifted (by decide)

end Journal

end GraphqlOrmBackup
