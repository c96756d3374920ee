import GraphqlOrmBackup.BackupChains
import GraphqlOrmBackup.DanglingObjects

/-!
# The life of a backup

A backup over its whole life: a full snapshot, incremental snapshots on top of
it, compactions of the chain so far, incremental snapshots on top of these, and
in between any other operations that spare the chain, each of which may fail or
stop at any of its calls.  At every point a restore of the last snapshot gives
the database that the exports have described.
-/

namespace GraphqlOrmBackup

open Interaction

section Codec

variable [Crates]

/-- A backup of one application, with the ids of the snapshots that its last one
    depends on and the database that they describe. -/
inductive BackupHistory (w : World) (appId : String) (schema : GraphqlOrmBackupSchema) :
    List Uuid → KeyedStore → World → Prop where
  | full {host : Host} {sched : List Poll} {request : FullBackupRequest}
      {options : BackupExecutionOptions} {result : FullBackupResult} {w' : World}
      {tables : List BackupTableExport} (happ : request.appId = appId)
      (hschema : host.database.schemaSnapshot = .ok schema)
      (htables : host.database.exportFull = .ok tables)
      (hnodup : (tables.map (·.tableName)).Nodup)
      (hrows : ∀ table ∈ tables, ∀ row ∈ table.rows, row.Readable)
      (hret : Returns host.MayFail w (createFullBackupWithOptions sched request options).run
        (.ok result) w') :
      BackupHistory w appId schema [request.snapshotId] (KeyedStore.empty.applyTables tables) w'
  | incremental {ids : List Uuid} {db : KeyedStore} {w₁ w' : World} {host : Host}
      {sched : List Poll} {request : IncrementalBackupRequest} {options : BackupExecutionOptions}
      {result : IncrementalBackupResult} {list : List BackupChangeExport}
      (hhistory : BackupHistory w appId schema ids db w₁) (hfresh : request.snapshotId ∉ ids)
      (hparent : ids.getLast? = some request.parentSnapshotId) (happ : request.appId = appId)
      (hschema : host.database.schemaSnapshot = .ok schema)
      (hlist : host.database.exportIncremental request.parentSnapshotId = .ok list)
      (hchanges : ∀ change ∈ list, change.Readable ∧ change.CarriesOwnRow)
      (hret : Returns host.MayFail w₁ (createIncrementalBackupWithOptions sched request options).run
        (.ok result) w') :
      BackupHistory w appId schema (ids ++ [request.snapshotId]) (db.applyChanges list) w'
  | compact {ids : List Uuid} {db : KeyedStore} {w₁ w' : World} {host : Host}
      {order : BackupSnapshotManifest → CompletionOrder} {request : CompactChainRequest}
      {options : BackupExecutionOptions} {result : CompactChainResult}
      (hhistory : BackupHistory w appId schema ids db w₁)
      (hsource : ids.getLast? = some request.sourceSnapshotId) (happ : request.appId = appId)
      (hsound : host.Sound)
      (hret : Returns host.MayFail w₁ (compactChainWithOptions order request options).run
        (.ok result) w') :
      BackupHistory w appId schema [request.snapshotId] db w'
  | other {ids : List Uuid} {db : KeyedStore} {w₁ w' : World} {host : Host}
      {operation : Operation} {id : Uuid} (hhistory : BackupHistory w appId schema ids db w₁)
      (hlast : ids.getLast? = some id) (hspares : operation.Spares w₁.store id ids)
      (hsound : host.Sound) (htakes : operation.Takes host w₁ w') :
      BackupHistory w appId schema ids db w'

section

variable {w w₁ w' : World} {s : Store} {id : Uuid} {appId : String}
  {schema : GraphqlOrmBackupSchema} {ids : List Uuid} {db : KeyedStore}
  {tables : List BackupTableExport} {changes : List (List BackupChangeExport)}
  {root : BackupSnapshotManifest} {rest : List BackupSnapshotManifest} {host : Host}

theorem BackedUp.intact (h : BackedUp s id appId schema root rest tables changes) :
    Intact s id (root :: rest) :=
  intact_iff.mpr ⟨h.contents.loads, fun manifest hmem =>
    ⟨verifyManifestChecksum_of_loads h.contents.loads manifest hmem,
      h.contents.blobs manifest hmem⟩⟩

/-- An operation that spares the chain leaves what is backed up. -/
theorem BackedUp.takes (hw : CrateWritten w.store)
    (h : BackedUp w.store id appId schema root rest tables changes) {operation : Operation}
    (hspares : operation.Spares w.store id ((root :: rest).map (·.snapshotId)))
    (hsound : host.Sound) (htakes : operation.Takes host w w') :
    BackedUp w'.store id appId schema root rest tables changes := by
  have hagree := htakes.agreeOn hw h.intact hspares
  have hloads := (h.intact.of_agree hw.snapshotId hagree).loads
  have hsame : ∀ manifest ∈ root :: rest, SameBlobs w.store w'.store manifest :=
    fun manifest hmem => hagree.mono fun key hkey => ⟨manifest, hmem, Or.inr hkey⟩
  exact ⟨h.contents.of_sameBlobs hloads hsame,
    fun manifest hmem => InPlace.of_sameBlobs (hsame manifest hmem) (h.inPlace manifest hmem),
    h.own, h.header, h.schema, htakes.honestObjects hsound h.honest⟩

/-! ## What a history has stored -/

/-- The chain of the last snapshot, and the database it describes. -/
structure Recorded (s : Store) (appId : String) (schema : GraphqlOrmBackupSchema)
    (ids : List Uuid) (db : KeyedStore) (root : BackupSnapshotManifest)
    (rest : List BackupSnapshotManifest) (tables : List BackupTableExport)
    (changes : List (List BackupChangeExport)) : Prop where
  backedUp : ∃ id, ids.getLast? = some id ∧ BackedUp s id appId schema root rest tables changes
  ids : (root :: rest).map (·.snapshotId) = ids
  database : KeyedStore.ofHistory tables changes = db
  schemas : ∀ manifest ∈ root :: rest, manifestSchema manifest = schema
  rootChanges : root.database.changes = []
  restTables : ∀ manifest ∈ rest, manifest.database.tables = []
  rows : ∀ table ∈ tables, ∀ row ∈ table.rows, row.ReadsFloats
  changeRows : ∀ list ∈ changes, ∀ change ∈ list,
    (∀ row, change.row = some row → row.ReadsFloats) ∧ change.CarriesOwnRow

/-- The changes make the same database in the order in which they are stored. -/
theorem Recorded.ofHistory_regroup
    (h : Recorded s appId schema ids db root rest tables changes) :
    KeyedStore.ofHistory tables (changes.map regroup) = db := by
  have hagree : List.Forall₂ AgreeByTable (changes.map regroup) changes := by
    rw [List.forall₂_map_left_iff, List.forall₂_same]
    exact fun list _ => agreeByTable_regroup list
  rw [KeyedStore.ofHistory_congr hagree, h.database]

theorem BackupHistory.reachable (hreach : ReachableRepository w)
    (h : BackupHistory w appId schema ids db w') : ReachableRepository w' := by
  induction h with
  | @full host sched request options _ _ _ _ _ _ _ _ hret =>
    have htakes : Operation.Takes host (.createFullBackup sched request options) w _ := ⟨_, hret⟩
    exact hreach.takes htakes
  | @incremental _ _ w₁ _ host sched request options _ _ _ _ _ _ _ _ _ hret ih =>
    have htakes : Operation.Takes host (.createIncrementalBackup sched request options) w₁ _ :=
      ⟨_, hret⟩
    exact ih.takes htakes
  | @compact _ _ w₁ _ host order request options _ _ _ _ _ hret ih =>
    have htakes : Operation.Takes host (.compactChain order request options) w₁ _ := ⟨_, hret⟩
    exact ih.takes htakes
  | other _ _ _ _ htakes ih => exact ih.takes htakes

theorem recorded_full (hback : CratesReadBack) {sched : List Poll} {request : FullBackupRequest}
    {options : BackupExecutionOptions} {result : FullBackupResult}
    (hschema : host.database.schemaSnapshot = .ok schema)
    (htables : host.database.exportFull = .ok tables) (hhonest : HonestObjects w.store)
    (hnodup : (tables.map (·.tableName)).Nodup)
    (hrows : ∀ table ∈ tables, ∀ row ∈ table.rows, row.Readable)
    (hret : Returns host.MayFail w (createFullBackupWithOptions sched request options).run
      (.ok result) w') :
    Recorded w'.store request.appId schema [request.snapshotId]
      (KeyedStore.empty.applyTables tables) result.manifest [] tables [] := by
  have hbacked := backedUp_full hback hschema htables hhonest hnodup hrows hret
  obtain ⟨-, hfull⟩ := returns_createFullBackup (fun h : False => h.elim) hret
  obtain ⟨schema', _, _, _, hschema', -, -, hset⟩ := hfull.contents
  obtain rfl := Except.ok.inj (hschema.symm.trans hschema')
  rcases setManifestChecksum_eq_ok.mp hset with ⟨checksum, -, hmanifest⟩
  refine ⟨⟨_, rfl, hbacked⟩, ?_, rfl, List.forall_mem_singleton.mpr ?_, by rw [hmanifest]; rfl,
    fun _ h => absurd h List.not_mem_nil, fun table htable row hrow =>
      (hrows table htable row hrow).floats, fun _ h => absurd h List.not_mem_nil⟩
  · rw [List.map_singleton, hfull.written.id]
  · rw [hmanifest]
    rfl

theorem Recorded.incremental (hback : CratesReadBack) {sched : List Poll}
    {request : IncrementalBackupRequest} {options : BackupExecutionOptions}
    {result : IncrementalBackupResult} {list : List BackupChangeExport}
    (h : Recorded w.store request.appId schema ids db root rest tables changes)
    (hfresh : request.snapshotId ∉ ids) (hparent : ids.getLast? = some request.parentSnapshotId)
    (hschema : host.database.schemaSnapshot = .ok schema)
    (hlist : host.database.exportIncremental request.parentSnapshotId = .ok list)
    (hchanges : ∀ change ∈ list, change.Readable ∧ change.CarriesOwnRow)
    (hret : Returns host.MayFail w (createIncrementalBackupWithOptions sched request options).run
      (.ok result) w') :
    Recorded w'.store request.appId schema (ids ++ [request.snapshotId]) (db.applyChanges list)
      root (rest ++ [result.manifest]) tables (changes ++ [list]) := by
  obtain ⟨id, hid, hbacked⟩ := h.backedUp
  obtain rfl := Option.some.inj (hid.symm.trans hparent)
  have hnew := hbacked.incremental hback (fun manifest hmem heq =>
    hfresh (h.ids ▸ heq ▸ List.mem_map_of_mem hmem)) hschema hlist
    (fun change hchange => (hchanges change hchange).1) hret
  obtain ⟨-, hincremental⟩ := returns_createIncrementalBackup (fun h : False => h.elim) hret
  obtain ⟨schema', _, _, _, hschema', -, -, hset⟩ := hincremental.contents
  obtain rfl := Except.ok.inj (hschema.symm.trans hschema')
  rcases setManifestChecksum_eq_ok.mp hset with ⟨checksum, -, hmanifest⟩
  refine ⟨⟨_, List.getLast?_concat, hnew⟩, ?_, ?_, ?_, h.rootChanges, ?_, h.rows, ?_⟩
  · rw [← List.cons_append, List.map_append, h.ids, List.map_singleton, hincremental.written.id]
  · rw [KeyedStore.ofHistory, List.foldl_append, ← h.database]
    rfl
  · rw [← List.cons_append, List.forall_mem_append]
    refine ⟨h.schemas, List.forall_mem_singleton.mpr ?_⟩
    rw [hmanifest]
    rfl
  · rw [List.forall_mem_append]
    refine ⟨h.restTables, List.forall_mem_singleton.mpr ?_⟩
    rw [hmanifest]
    rfl
  · rw [List.forall_mem_append]
    exact ⟨h.changeRows, List.forall_mem_singleton.mpr fun change hchange =>
      ⟨(hchanges change hchange).1.floats, (hchanges change hchange).2⟩⟩

theorem Recorded.takes (hw : CrateWritten w.store)
    (h : Recorded w.store appId schema ids db root rest tables changes) {operation : Operation}
    (hlast : ids.getLast? = some id) (hspares : operation.Spares w.store id ids)
    (hsound : host.Sound) (htakes : operation.Takes host w w') :
    Recorded w'.store appId schema ids db root rest tables changes := by
  obtain ⟨id', hid', hbacked⟩ := h.backedUp
  obtain rfl := Option.some.inj (hlast.symm.trans hid')
  refine { h with backedUp := ⟨id, hlast, hbacked.takes hw ?_ hsound htakes⟩ }
  rwa [h.ids]

/-! ## Compaction -/

/-- A compaction reads the exports of the history, -/
theorem Recorded.chainReadsFloats
    (h : Recorded s appId schema ids db root rest tables changes) (hid : ids.getLast? = some id) :
    ChainReadsFloats s id := by
  obtain ⟨id', hid', hbacked⟩ := h.backedUp
  obtain rfl := Option.some.inj (hid.symm.trans hid')
  have hcontents := hbacked.contents
  intro chain hchain manifest hmem
  obtain rfl := Except.ok.inj (hcontents.loads.symm.trans hchain)
  rcases List.mem_cons.mp hmem with rfl | hmem
  · refine ⟨fun tables' htables => ?_, fun changes' hchanges => ?_⟩
    · obtain rfl := Except.ok.inj (hcontents.tables.symm.trans htables)
      exact h.rows
    · rw [loadChangeExports, h.rootChanges] at hchanges
      obtain rfl := Except.ok.inj hchanges
      exact fun _ hchange => absurd hchange List.not_mem_nil
  · refine ⟨fun tables' htables => ?_, fun changes' hchanges => ?_⟩
    · rw [loadTableExports, h.restTables manifest hmem] at htables
      obtain rfl := Except.ok.inj htables
      exact fun _ htable => absurd htable List.not_mem_nil
    · obtain ⟨list, hlist, hload⟩ := forall₂_mem_left hcontents.changes manifest hmem
      obtain rfl := Except.ok.inj (hload.symm.trans hchanges)
      rcases List.mem_map.mp hlist with ⟨exported, hexported, rfl⟩
      exact fun change hchange => (h.changeRows exported hexported change
        ((agreeByTable_regroup exported).perm.subset hchange)).1

/-- and files the rows of the database under their primary keys. -/
theorem Recorded.forall_rows (h : Recorded s appId schema ids db root rest tables changes)
    (tableName : String) :
    (db tableName).Forall fun key row => row.primaryKey = key ∧ row.ReadsFloats := by
  rw [← h.database]
  refine KeyedStore.forall_ofHistory (fun table htable row hrow => ⟨rfl, h.rows table htable row hrow⟩)
    (fun list hlist change hchange hne row hrow => ?_) tableName
  obtain ⟨hfloats, hown⟩ := h.changeRows list hlist change hchange
  exact ⟨(hown hne row hrow).2, hfloats row hrow⟩

theorem Recorded.compact (hback : CratesReadBack) (hw : CrateWritten w.store)
    {order : BackupSnapshotManifest → CompletionOrder} {request : CompactChainRequest}
    {options : BackupExecutionOptions} {result : CompactChainResult}
    (h : Recorded w.store request.appId schema ids db root rest tables changes)
    (hsource : ids.getLast? = some request.sourceSnapshotId) (hsound : host.Sound)
    (hret : Returns host.MayFail w (compactChainWithOptions order request options).run
      (.ok result) w') :
    ∃ tables', Recorded w'.store request.appId schema [request.snapshotId] db result.manifest []
      tables' [] := by
  obtain ⟨id, hid, hbacked⟩ := h.backedUp
  obtain rfl := Option.some.inj (hid.symm.trans hsource)
  obtain ⟨root', rest', tables', changes', tableRows, hcontents, hview, hsynthetic, -, -, -⟩ :=
    compaction_contents hback (hbacked.intact.chainKeysApart hw _) (h.chainReadsFloats hsource) hret
  obtain ⟨rfl, rfl, rfl, rfl⟩ := hbacked.contents.unique hcontents
  obtain ⟨hwriting, w₁, hsame, hcompact⟩ :=
    returns_compactChain (fun _ : True => hw.chainKeysStored _) hret
  obtain ⟨root', rest', latest, _, tableEntries, hload, -, hlast, -, -, hset⟩ := hcompact.contents
  obtain ⟨rfl, rfl⟩ := List.cons.inj (Except.ok.inj
    (hbacked.contents.loads.symm.trans (loadManifestChain_sameButLock hsame hload)))
  rcases setManifestChecksum_eq_ok.mp hset with ⟨checksum, -, hmanifest⟩
  have hlatest := List.mem_of_getLast? hlast
  have hrows := h.forall_rows
  rw [← h.ofHistory_regroup, ← hview] at hrows ⊢
  refine ⟨tableRows.tables, ⟨_, rfl, ⟨hsynthetic, ?_, ⟨_, rfl, hcompact.written.id⟩, ?_, ?_, ?_⟩⟩,
    ?_, ofHistory_tables fun tableName key row hrow => (hrows tableName key row hrow).1, ?_, ?_,
    fun _ hmem => absurd hmem List.not_mem_nil, ?_, fun _ hmem => absurd hmem List.not_mem_nil⟩
  · rw [List.forall_mem_singleton, hcompact.written.id]
    exact hcompact.written.blobs trivial
  · have hheader := hbacked.header latest hlatest
    have hbackend : latest.databaseBackend = schema.backend := congrArg (·.databaseBackend) hheader
    have hhash : latest.graphqlOrmSchemaHash = schema.schemaHash :=
      congrArg (·.graphqlOrmSchemaHash) hheader
    rw [List.forall_mem_singleton, hmanifest, ← hbackend, ← hhash]
    rfl
  · rw [hmanifest]
    exact h.schemas latest hlatest
  · have htakes : Operation.Takes host (.compactChain order request options) w w' := ⟨_, hret⟩
    exact htakes.honestObjects hsound hbacked.honest
  · rw [List.map_singleton, hcompact.written.id]
  · rw [List.forall_mem_singleton, hmanifest]
    exact h.schemas latest hlatest
  · rw [hmanifest]
    rfl
  · intro table htable row hrow
    rcases List.mem_map.mp htable with ⟨⟨tableName, rows⟩, hmem, rfl⟩
    rcases mem_values.mp hrow with ⟨key, hkey⟩
    refine (hrows tableName key row ?_).2
    rw [view_eq_of_mem hmem]
    exact hkey

/-! ## What a history restores -/

theorem BackupHistory.recorded (hback : CratesReadBack) (hreach : ReachableRepository w)
    (hhonest : HonestObjects w.store) (h : BackupHistory w appId schema ids db w') :
    ∃ root rest tables changes,
      Recorded w'.store appId schema ids db root rest tables changes := by
  induction h with
  | full happ hschema htables hnodup hrows hret =>
    subst happ
    exact ⟨_, _, _, _, recorded_full hback hschema htables hhonest hnodup hrows hret⟩
  | incremental _ hfresh hparent happ hschema hlist hchanges hret ih =>
    subst happ
    obtain ⟨root, rest, tables, changes, hrecorded⟩ := ih
    exact ⟨_, _, _, _, hrecorded.incremental hback hfresh hparent hschema hlist hchanges hret⟩
  | compact hhistory hsource happ hsound hret ih =>
    subst happ
    obtain ⟨root, rest, tables, changes, hrecorded⟩ := ih
    have hw := ((hhistory.reachable hreach).tidy hback.manifests).crateWritten
    obtain ⟨tables', hcompact⟩ := hrecorded.compact hback hw hsource hsound hret
    exact ⟨_, _, _, _, hcompact⟩
  | other hhistory hlast hspares hsound htakes ih =>
    obtain ⟨root, rest, tables, changes, hrecorded⟩ := ih
    have hw := ((hhistory.reachable hreach).tidy hback.manifests).crateWritten
    exact ⟨root, rest, tables, changes, hrecorded.takes hw hlast hspares hsound htakes⟩

/-- **A backup restores what it has been told**, over its whole life.  The last
    snapshot is intact, every restore of it into an empty target of its schema
    succeeds, and its calls make the database that the exports have described. -/
theorem histories_are_restored (hback : CratesReadBack) (hreach : ReachableRepository w)
    (hhonest : HonestObjects w.store) (h : BackupHistory w appId schema ids db w') :
    ∃ id root rest calls, ids.getLast? = some id ∧ Intact w'.store id (root :: rest) ∧
      (root :: rest).map (·.snapshotId) = ids ∧ manifestSchema root = schema ∧
      Restores w' id root calls ∧ ∀ context, KeyedStore.ofCalls (calls context) = db := by
  obtain ⟨root, rest, tables, changes, hrecorded⟩ := h.recorded hback hreach hhonest
  obtain ⟨id, hid, hbacked⟩ := hrecorded.backedUp
  refine ⟨id, root, rest, _, hid, hbacked.intact, hrecorded.ids, hbacked.schema,
    hbacked.contents.restores, fun context => ?_⟩
  rw [restoreCalls, KeyedStore.ofCalls_restoreCalls, hrecorded.ofHistory_regroup]

end

end Codec

/-! ## A chain beside another snapshot -/

section Beside

open Reference

/-- Another full backup, after the chain of two. -/
def besideRun : Except BackupError FullBackupResult × World :=
  runDatabase [notes] [] (createFullBackupWithOptions [] (fullRequest (uuid 3)) options)
    incrementalRun.2

theorem returns_besideRun : ∃ result, Returns (database [notes] []).MayFail incrementalRun.2
    (createFullBackupWithOptions [] (fullRequest (uuid 3)) options).run (.ok result)
    besideRun.2 := by
  have hok : besideRun.1.isOk = true := by decide +kernel
  obtain ⟨result, hret⟩ := returns_runDatabase hok
  exact ⟨result, returns_mayFail hret⟩

/-- The history of the first backup. -/
theorem backupHistory_fullRun : BackupHistory emptyWorld "app" schema [uuid 1]
    (KeyedStore.empty.applyTables [notes]) fullRun.2 := by
  rcases returns_fullRun with ⟨_, hfull⟩
  exact .full rfl rfl rfl (by decide) readable_notes hfull

theorem intact_fullRun : ∃ root, Intact fullRun.2.store (uuid 1) [root] ∧
    root.snapshotId = uuid 1 := by
  obtain ⟨root, rest, _, _, hrecorded⟩ :=
    backupHistory_fullRun.recorded cratesReadBack (.empty rfl) honestObjects_empty
  obtain ⟨id, hid, hbacked⟩ := hrecorded.backedUp
  obtain rfl : uuid 1 = id := Option.some.inj hid
  obtain ⟨hroot, hrest⟩ := List.cons.inj hrecorded.ids
  obtain rfl := List.map_eq_nil_iff.mp hrest
  exact ⟨root, hbacked.intact, hroot⟩

theorem sound_database (tables : List BackupTableExport) (changes : List BackupChangeExport) :
    (database tables changes).Sound := by
  intro object bytes hload
  cases hload

theorem histories_are_restored_beside : ∃ root rest calls,
    Intact besideRun.2.store (uuid 2) (root :: rest) ∧
    Restores besideRun.2 (uuid 2) root calls ∧ ∀ context, KeyedStore.ofCalls (calls context) =
      (KeyedStore.empty.applyTables [notes]).applyChanges journal := by
  rcases returns_incrementalRun with ⟨_, hincremental⟩
  rcases returns_besideRun with ⟨_, hbeside⟩
  have hdeletes : ∀ change ∈ journal, change.action = .delete := by decide
  have hchanges : ∀ change ∈ journal, change.Readable ∧ change.CarriesOwnRow :=
    fun change hmem => ⟨readable_journal change hmem, fun hne => absurd (hdeletes change hmem) hne⟩
  have hchain : BackupHistory emptyWorld "app" schema [uuid 1, uuid 2]
      ((KeyedStore.empty.applyTables [notes]).applyChanges journal) incrementalRun.2 :=
    .incremental backupHistory_fullRun (by decide) rfl rfl rfl rfl hchanges hincremental
  have hspares : (Operation.createFullBackup [] (fullRequest (uuid 3)) options).Spares
      incrementalRun.2.store (uuid 2) [uuid 1, uuid 2] :=
    (by decide : uuid 3 ∉ [uuid 1, uuid 2])
  have hhistory : BackupHistory emptyWorld "app" schema [uuid 1, uuid 2]
      ((KeyedStore.empty.applyTables [notes]).applyChanges journal) besideRun.2 :=
    .other hchain rfl hspares (sound_database _ _) ⟨_, hbeside⟩
  obtain ⟨id, root, rest, calls, hid, hintact, -, -, hrestores, hcalls⟩ :=
    histories_are_restored cratesReadBack (.empty rfl) honestObjects_empty hhistory
  obtain rfl : uuid 2 = id := Option.some.inj hid
  exact ⟨root, rest, calls, hintact, hrestores, hcalls⟩

end Beside

end GraphqlOrmBackup
