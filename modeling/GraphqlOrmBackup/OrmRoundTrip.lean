import GraphqlOrmBackup.BackupChains
import GraphqlOrmBackup.OrmAdapter

/-!
# Backups of a `graphql-orm` database

A full backup through the adapter of one database, restored through the adapter
of another with the same schema, hands the rows of the first to the import of the
second: each table's rows, in the order of their export, and no other table.
-/

namespace GraphqlOrmBackup

open Interaction

/-! ## Rows -/

/-- Values are read back from what they are written as. -/
def ValuesReadBack (V : Type) [BackupValue V] : Prop :=
  ∀ (value : V) json, BackupValue.toValue value = .ok json → BackupValue.fromValue json = .ok value

section Maps

variable {κ β : Type} [DecidableEq κ] [Ord κ] [Std.TransOrd κ] [Std.LawfulEqOrd κ]

/-- A map is made again from its entries. -/
theorem foldl_insert_toList (m : Std.ExtTreeMap κ β) :
    m.toList.foldl (fun m entry => m.insert entry.1 entry.2) ∅ = m := by
  rw [← Std.ExtTreeMap.ofList_eq_foldl]
  refine Std.ExtTreeMap.ext_getElem? fun k => ?_
  have hdistinct := Std.ExtTreeMap.distinct_keys_toList (t := m)
  by_cases hk : k ∈ m
  · obtain ⟨value, hvalue⟩ := Option.isSome_iff_exists.mp (Std.ExtTreeMap.mem_iff_isSome_getElem?.mp hk)
    rw [hvalue]
    exact Std.ExtTreeMap.getElem?_ofList_of_mem Std.ReflOrd.compare_self hdistinct
      (Std.ExtTreeMap.mem_toList_iff_getElem?_eq_some.mpr hvalue)
  · have hnot : k ∉ Std.ExtTreeMap.ofList m.toList := by
      rw [Std.ExtTreeMap.mem_ofList, Std.ExtTreeMap.map_fst_toList_eq_keys, List.contains_iff_mem,
        Std.ExtTreeMap.mem_keys]
      exact hk
    rw [Std.ExtTreeMap.getElem?_eq_none hk, Std.ExtTreeMap.getElem?_eq_none hnot]

end Maps

section Rows

variable {V : Type} [BackupValue V]

/-- The columns of an exported row are those of the row, in the order of the map. -/
theorem crateRowFromOrm_eq_ok {row : OrmBackupRow V} {exported : BackupRow}
    (h : crateRowFromOrm row = .ok exported) : ∃ values : Json.Map,
      List.Forall₂ (fun value field => field.1 = value.1 ∧
        BackupValue.toValue value.2 = .ok field.2) row.values.toList values.fields ∧
      exported = ⟨row.tableName, row.primaryKey, row.rowHash, values⟩ := by
  have hround : insertJson = fun (values : Json.Map) (value : String × V) => (do
      let field ← ((BackupValue.toValue value.2).map fun json => (value.1, json)).mapError
        BackupError.serialization
      pure (values.insert field.1 field.2)) := by
    funext values value
    rw [insertJson]
    cases BackupValue.toValue value.2 with
    | ok json => rfl
    | error e => rfl
  simp only [crateRowFromOrm, hround, bind_eq_ok, pure_eq_ok] at h
  rcases h with ⟨values, hvalues, rfl⟩
  obtain ⟨fields, hfields, rfl⟩ := foldlM_eq_ok hvalues
  have hrelated : List.Forall₂ (fun value field => field.1 = value.1 ∧
      BackupValue.toValue value.2 = .ok field.2) row.values.toList fields := by
    refine hfields.imp fun value field hfield => ?_
    cases hvalue : BackupValue.toValue value.2 with
    | ok json =>
      rw [hvalue] at hfield
      cases hfield
      exact ⟨rfl, rfl⟩
    | error e =>
      rw [hvalue] at hfield
      cases hfield
  have hnames : fields.map (·.1) = row.values.toList.map (·.1) := by
    rw [← List.forall₂_eq_eq_eq, List.forall₂_map_left_iff, List.forall₂_map_right_iff]
    exact hrelated.flip.imp fun _ _ hfield => hfield.1
  have hascending : Json.Ascending fields := by
    rw [Json.ascending_iff_names, hnames, ← Json.ascending_iff_names]
    exact Std.ExtTreeMap.ordered_keys_toList
  refine ⟨_, ?_, rfl⟩
  rw [Json.Map.fields_foldl_insert hascending]
  exact hrelated

/-- A row is read back from what it is exported as. -/
theorem ormRowFromCrate_crateRowFromOrm (hvalues : ValuesReadBack V) {row : OrmBackupRow V}
    {exported : BackupRow} (h : crateRowFromOrm row = .ok exported) :
    ormRowFromCrate exported = .ok row := by
  obtain ⟨values, hforall, rfl⟩ := crateRowFromOrm_eq_ok h
  -- each round reads a value back and puts it under its column
  have hrounds : List.Forall₂ (fun value (original : String × V) =>
      ∀ entries, insertValue entries value = .ok (entries.insert original.1 original.2))
      values.fields row.values.toList := by
    refine hforall.flip.imp fun value original hvalue entries => ?_
    obtain ⟨hname, hjson⟩ := hvalue
    rw [insertValue, hvalues _ _ hjson, hname]
    rfl
  rw [ormRowFromCrate, foldlM_of_forall₂ hrounds, foldl_insert_toList]
  rfl

end Rows

/-! ## Tables -/

section Tables

variable {V δ γ S : Type} [BackupValue V] {adapter : OrmBackupAdapter V δ γ S} {snapshot : S}
  {descriptors : List (OrmDescriptor δ γ)} {tables : List BackupTableExport}

namespace OrmBackupAdapter

theorem exportTable_eq_ok {descriptor : OrmDescriptor δ γ} {table : BackupTableExport} :
    adapter.exportTable snapshot descriptor = .ok table ↔ ∃ rows exported,
      adapter.database.exportTableRows snapshot descriptor = .ok rows ∧
      List.Forall₂ (fun row exported => crateRowFromOrm row = .ok exported) rows exported ∧
      ⟨descriptor.tableName, exported⟩ = table := by
  simp only [exportTable, bind_eq_ok, pure_eq_ok, mapError_eq_ok, mapM'_eq_ok]
  constructor
  · rintro ⟨rows, hrows, exported, hexported, htable⟩
    exact ⟨rows, exported, hrows, hexported, htable⟩
  · rintro ⟨rows, exported, hrows, hexported, htable⟩
    exact ⟨rows, hrows, exported, hexported, htable⟩

theorem exportFull_eq_ok : adapter.exportFull = .ok tables ↔ ∃ descriptors snapshot,
    adapter.descriptors = .ok descriptors ∧
    adapter.database.beginConsistentSnapshot = .ok snapshot ∧
    List.Forall₂ (fun descriptor table => adapter.exportTable snapshot descriptor = .ok table)
      (descriptors.mergeSort exportsFirst) tables := by
  simp only [exportFull, bind_eq_ok, mapError_eq_ok, mapM'_eq_ok]
  constructor
  · rintro ⟨descriptors, hdescriptors, snapshot, hsnapshot, htables⟩
    exact ⟨descriptors, snapshot, hdescriptors, hsnapshot, htables⟩
  · rintro ⟨descriptors, snapshot, hdescriptors, hsnapshot, htables⟩
    exact ⟨descriptors, hdescriptors, snapshot, hsnapshot, htables⟩

/-- The rows of each table that is backed up, as one snapshot of the database has
    them. -/
def Exports (adapter : OrmBackupAdapter V δ γ S) (rowsByTable : RowsByTable V) : Prop :=
  ∃ descriptors snapshot, adapter.descriptors = .ok descriptors ∧
    adapter.database.beginConsistentSnapshot = .ok snapshot ∧
    (∀ descriptor ∈ descriptors, ∃ rows, rowsByTable[descriptor.tableName]? = some rows ∧
      adapter.database.exportTableRows snapshot descriptor = .ok rows) ∧
    ∀ tableName, tableName ∉ descriptors.map (·.tableName) → rowsByTable[tableName]? = none

omit [BackupValue V] in
/-- No table is described twice. -/
theorem nodup_descriptors (hdistinct : DistinctNames adapter.database.listBackupEntities)
    (h : adapter.descriptors = .ok descriptors) : (descriptors.map (·.tableName)).Nodup := by
  rw [eq_strengthen_of_applyColumnPolicyOverrides hdistinct _ _ h]
  exact (hdistinct.strengthen _).tables

theorem tableNames_exportTable (h : List.Forall₂
      (fun descriptor table => adapter.exportTable snapshot descriptor = .ok table)
      descriptors tables) :
    tables.map (·.tableName) = descriptors.map (·.tableName) := by
  induction h with
  | nil => rfl
  | cons htable _ ih =>
    obtain ⟨_, _, _, _, rfl⟩ := exportTable_eq_ok.mp htable
    rw [List.map_cons, List.map_cons, ih]

/-- Exported tables have different names. -/
theorem nodup_exportFull (hdistinct : DistinctNames adapter.database.listBackupEntities)
    (h : adapter.exportFull = .ok tables) : (tables.map (·.tableName)).Nodup := by
  obtain ⟨descriptors, snapshot, hdescriptors, _, htables⟩ := exportFull_eq_ok.mp h
  rw [tableNames_exportTable htables, ((descriptors.mergeSort_perm _).map _).nodup_iff]
  exact nodup_descriptors hdistinct hdescriptors

/-- Exported tables are read back one by one. -/
theorem exists_foldlM_insertRows (hvalues : ValuesReadBack V) (h : List.Forall₂
      (fun descriptor table => adapter.exportTable snapshot descriptor = .ok table)
      descriptors tables) :
    ∃ entries : List (String × List (OrmBackupRow V)),
      List.Forall₂ (fun descriptor entry => descriptor.tableName = entry.1 ∧
        adapter.database.exportTableRows snapshot descriptor = .ok entry.2) descriptors entries ∧
      tables.foldlM insertRows ∅ = .ok (Std.ExtTreeMap.ofList entries) := by
  have hrounds : ∃ entries : List (String × List (OrmBackupRow V)),
      List.Forall₂ (fun descriptor entry => descriptor.tableName = entry.1 ∧
        adapter.database.exportTableRows snapshot descriptor = .ok entry.2) descriptors entries ∧
      List.Forall₂ (fun table entry => ∀ rowsByTable,
        insertRows rowsByTable table = .ok (rowsByTable.insert entry.1 entry.2)) tables entries := by
    induction h with
    | nil => exact ⟨[], .nil, .nil⟩
    | cons htable _ ih =>
      obtain ⟨rows, exported, hrows, hexported, rfl⟩ := exportTable_eq_ok.mp htable
      obtain ⟨entries, hforall, hinsert⟩ := ih
      have hread : exported.mapM' ormRowFromCrate = .ok rows := mapM'_eq_ok.mpr <|
        (hexported.imp fun _ _ => ormRowFromCrate_crateRowFromOrm hvalues).flip
      refine ⟨(_, rows) :: entries, .cons ⟨rfl, hrows⟩ hforall, .cons (fun rowsByTable => ?_) hinsert⟩
      rw [insertRows, hread]
      rfl
  obtain ⟨entries, hforall, hinsert⟩ := hrounds
  refine ⟨entries, hforall, ?_⟩
  rw [foldlM_of_forall₂ hinsert, Std.ExtTreeMap.ofList_eq_foldl]

/-- **What is exported is what is imported**: each table with its rows. -/
theorem exports_of_exportFull (hvalues : ValuesReadBack V)
    (hdistinct : DistinctNames adapter.database.listBackupEntities)
    (h : adapter.exportFull = .ok tables) :
    ∃ rowsByTable, tables.foldlM insertRows ∅ = .ok rowsByTable ∧ adapter.Exports rowsByTable := by
  obtain ⟨descriptors, snapshot, hdescriptors, hsnapshot, htables⟩ := exportFull_eq_ok.mp h
  obtain ⟨entries, hforall, hrows⟩ := exists_foldlM_insertRows hvalues htables
  have hsorted := descriptors.mergeSort_perm exportsFirst
  have hnames : entries.map Prod.fst =
      (descriptors.mergeSort exportsFirst).map (·.tableName) := by
    rw [← List.forall₂_eq_eq_eq, List.forall₂_map_left_iff, List.forall₂_map_right_iff]
    exact hforall.flip.imp fun _ _ h => h.1.symm
  have hnodup : (entries.map Prod.fst).Nodup := by
    rw [hnames, (hsorted.map _).nodup_iff]
    exact nodup_descriptors hdistinct hdescriptors
  have hkeys : entries.Pairwise fun a b => ¬ compare a.1 b.1 = .eq :=
    (List.pairwise_map.mp hnodup).imp fun hne heq => hne (Std.LawfulEqOrd.eq_of_compare heq)
  refine ⟨_, hrows, descriptors, snapshot, hdescriptors, hsnapshot, fun descriptor hmem => ?_,
    fun tableName hnot => ?_⟩
  · obtain ⟨entry, hentry, hname, hexported⟩ :=
      forall₂_mem_left hforall descriptor (hsorted.mem_iff.mpr hmem)
    exact ⟨entry.2, Std.ExtTreeMap.getElem?_ofList_of_mem
      (by rw [hname]; exact Std.ReflOrd.compare_self) hkeys hentry, hexported⟩
  · rw [← (hsorted.map _).mem_iff, ← hnames] at hnot
    exact Std.ExtTreeMap.getElem?_ofList_of_contains_eq_false
      (by rw [← Bool.not_eq_true, List.contains_iff_mem]; exact hnot)

/-- An export that is imported into a database of the same schema. -/
theorem exists_importOf {source target : OrmBackupAdapter V δ γ S} (hvalues : ValuesReadBack V)
    (hdistinct : DistinctNames source.database.listBackupEntities)
    (htables : source.exportFull = .ok tables) {schema : GraphqlOrmBackupSchema}
    {current : GraphqlOrmSchemaSnapshot δ γ} (hcurrent : target.currentSchemaSnapshot = .ok current)
    (hbackend : schema.backend = current.backend) (hhash : schema.schemaHash = current.schemaHash) :
    ∃ args, target.importOf schema tables .emptyDatabase = .ok args ∧
      source.Exports args.rowsByTable := by
  obtain ⟨rowsByTable, hrows, hexports⟩ := exports_of_exportFull hvalues hdistinct htables
  refine ⟨⟨{ current with
    backend := schema.backend
    migrationVersion := schema.migrationVersion
    schemaHash := schema.schemaHash }, current, rowsByTable, ⟨.emptyDatabase, true, true⟩⟩,
    ?_, hexports⟩
  refine bind_eq_ok.mpr ⟨_, rfl, bind_eq_ok.mpr ⟨_, hcurrent, ?_⟩⟩
  rw [if_neg (by simp [hbackend, hhash])]
  exact bind_eq_ok.mpr ⟨_, hrows, rfl⟩

end OrmBackupAdapter

end Tables

/-! ## A backup of one database, restored into another -/

section Codec

variable [Crates] {V δ γ S : Type} [BackupValue V] {source target : OrmBackupAdapter V δ γ S}
  {objects targetObjects : BackupObjectIndex} {w w' : World} {tables : List BackupTableExport}
  {root : BackupSnapshotManifest} {id : Uuid} {args : OrmImport V δ γ}
  {current : GraphqlOrmSchemaSnapshot δ γ}

/-- The call for a root that the import of a database answers. -/
theorem wpE_restoreSnapshot_importOf (order : BackupSnapshotManifest → CompletionOrder)
    (h : Contents w.store id root [] tables [])
    (hcurrent : target.currentSchemaSnapshot = .ok current)
    (hbackend : root.databaseBackend = current.backend)
    (hhash : root.graphqlOrmSchemaHash = current.schemaHash)
    (hempty : target.restoreTargetIsEmpty = .ok true)
    (hargs : target.importOf (manifestSchema root) tables .emptyDatabase = .ok args) :
    wpE (Host.mk target.toAdapter targetObjects).Answers (fun _ => True)
      (restoreSnapshot order id .emptyDatabase)
      (fun _ w' => w' = w.after .emptyDatabase root tables [] ∧
        target.database.restoreBackupRows args = .ok ())
      (fun _ w' => w' = w.after .emptyDatabase root tables [] ∧
        target.database.restoreBackupRows args ≠ .ok ()) w := by
  have hschema : target.schemaSnapshot =
      .ok ⟨current.backend, current.migrationVersion, current.schemaHash⟩ := by
    rw [OrmBackupAdapter.schemaSnapshot, hcurrent]
    rfl
  refine wpE_restoreSnapshot_admitted
    (P := fun w' => w' = w.after .emptyDatabase root tables [] ∧
      target.database.restoreBackupRows args = .ok ())
    order ⟨_, hschema, hbackend, hhash⟩ hempty rfl h.loads h.blobs h.tables ?_
  apply wpE_call trivial
  rintro r w' ⟨hr, rfl⟩
  -- the call for the root is the last, and what it answers is what the import answers
  have hanswer : r = (target.database.restoreBackupRows args).mapError
      (databaseError "restore rows") := by
    rw [hr]
    change (List.getLast? (_ ++ [_])).elim _ _ = _
    rw [List.getLast?_concat]
    exact congrArg (· >>= _) hargs
  refine ⟨trivial, ?_⟩
  cases hrestore : target.database.restoreBackupRows args with
  | ok a =>
    rw [hanswer, hrestore]
    exact ⟨trivial, rfl, rfl⟩
  | error e =>
    rw [hanswer, hrestore]
    exact ⟨rfl, nofun⟩

/-- **What one database exports is what another imports.**  A full backup through
    the adapter of the first, restored through that of the second into an empty
    target of the same schema, makes one restore call.  Its import gets the rows
    of each table of the first, as one snapshot of it has them, in their order,
    and no other table; the restore succeeds if and only if the import does. -/
theorem orm_backups_round_trip (hback : CratesReadBack) (hvalues : ValuesReadBack V)
    (hhonest : HonestObjects w.store) (hdistinct : DistinctNames source.database.listBackupEntities)
    (hreadable : ∀ tables, source.exportFull = .ok tables →
      ∀ table ∈ tables, ∀ row ∈ table.rows, row.Readable)
    {sched : List Poll} {request : FullBackupRequest} {options : BackupExecutionOptions}
    {result : FullBackupResult}
    (hret : Returns (Host.mk source.toAdapter objects).MayFail w
      (createFullBackupWithOptions sched request options).run (.ok result) w')
    (hcurrent : target.currentSchemaSnapshot = .ok current)
    (hsame : ∀ schema, source.schemaSnapshot = .ok schema →
      schema.backend = current.backend ∧ schema.schemaHash = current.schemaHash)
    (hempty : target.restoreTargetIsEmpty = .ok true) {w₁ : World} (hstore : w₁.store = w'.store) :
    ∃ schema tables args, source.schemaSnapshot = .ok schema ∧ source.exportFull = .ok tables ∧
      target.importOf schema tables .emptyDatabase = .ok args ∧ source.Exports args.rowsByTable ∧
      ∀ (targetObjects : BackupObjectIndex) (order : BackupSnapshotManifest → CompletionOrder),
        (∃ r w₂, Returns (Host.mk target.toAdapter targetObjects).Answers w₁
          (restoreSnapshot order request.snapshotId .emptyDatabase).run r w₂) ∧
        ∀ r w₂, Returns (Host.mk target.toAdapter targetObjects).Answers w₁
          (restoreSnapshot order request.snapshotId .emptyDatabase).run r w₂ →
          w₂.restored = w₁.restored ++ [.restoreFull schema tables .emptyDatabase] ∧
          ((∃ result, r = .ok result) ↔ target.database.restoreBackupRows args = .ok ()) := by
  obtain ⟨_, hfull⟩ := returns_createFullBackup (fun h : False => h.elim) hret
  obtain ⟨schema, tables, _, _, hschema, htables, _⟩ := hfull.contents
  have hbacked := backedUp_full hback hschema htables hhonest
    (OrmBackupAdapter.nodup_exportFull hdistinct htables) (hreadable tables htables) hret
  have hcontents : Contents w₁.store request.snapshotId result.manifest [] tables [] :=
    hstore ▸ hbacked.contents
  obtain ⟨hbackend, hhash⟩ := hsame schema hschema
  obtain ⟨args, hargs, hexports⟩ :=
    OrmBackupAdapter.exists_importOf hvalues hdistinct htables hcurrent hbackend hhash
  refine ⟨schema, tables, args, hschema, htables, hargs, hexports, fun targetObjects order =>
    ⟨exists_returns_restoreSnapshot _ w₁ order _ _, fun r w₂ hrestore => ?_⟩⟩
  have hroot := hbacked.schema
  subst hroot
  have hpost := hrestore.post
    (wpE_restoreSnapshot_importOf order hcontents hcurrent hbackend hhash hempty hargs)
  cases r with
  | ok restored =>
    obtain ⟨rfl, himported⟩ := hpost
    exact ⟨rfl, fun _ => himported, fun _ => ⟨restored, rfl⟩⟩
  | error e =>
    obtain ⟨rfl, hrefused⟩ := hpost
    exact ⟨rfl, nofun, fun himported => absurd himported hrefused⟩

end Codec

/-! ## A database of notes -/

section Notes

open Reference

/-- A value that is a text. -/
local instance textValue : BackupValue String where
  toValue value := .ok (.read (.string value))
  fromValue value :=
    match value.document with
    | .string value => .ok value
    | _ => .error "not a text"

/-- The entity of the notes. -/
def notesEntity : OrmDescriptor Unit Unit where
  tableName := "notes"
  columns := [⟨"id", .include, ()⟩]
  rest := ⟨0, 0, ()⟩

/-- A database with one note, which imports every export. -/
def notesDatabase : OrmDatabase String Unit Unit Unit where
  listBackupEntities := [notesEntity]
  schemaSnapshot := fun migrationVersion =>
    ⟨schema.backend, migrationVersion, schema.schemaHash, [notesEntity]⟩
  stableSchemaHash := fun _ => schema.schemaHash
  currentVersion := .ok (some "1")
  beginConsistentSnapshot := .ok ()
  exportTableRows := fun _ _ => .ok [⟨"notes", "1", "x", .ofList [("id", "1")]⟩]
  fetchRowCount := fun _ => .ok (.ok 0)
  restoreBackupRows := fun _ => .ok ()

/-- The identifiers of the notes are backed up. -/
def notesAdapter : OrmBackupAdapter String Unit Unit Unit :=
  ⟨notesDatabase, none, [⟨"notes", "id", .include⟩]⟩

theorem exportFull_notesAdapter : notesAdapter.exportFull = .ok [notes] := by
  refine OrmBackupAdapter.exportFull_eq_ok.mpr ⟨[notesEntity], (), rfl, rfl, ?_⟩
  rw [List.mergeSort_singleton]
  exact .cons rfl .nil

/-- The application of the notes, without objects. -/
def notesHost : Host := ⟨notesAdapter.toAdapter, (database [] []).objects⟩

theorem returns_notesHost : ∃ result w', Returns notesHost.MayFail emptyWorld
    (createFullBackupWithOptions [] (fullRequest (uuid 1)) options).run (.ok result) w' := by
  have hload : ∀ object, notesHost.objects.loadObjectStream object
      (.error (.missingBlob object.storageKey)) := fun _ => rfl
  have hok : ((createFullBackupWithOptions [] (fullRequest (uuid 1)) options).run.run
      (notesHost.respond fun object => .error (.missingBlob object.storageKey))
      emptyWorld).1.isOk = true := by
    decide +kernel
  obtain ⟨result, hret⟩ := Host.returns_of_isOk hload hok
  exact ⟨result, _, returns_mayFail hret⟩

/-- The notes are backed up and imported. -/
theorem orm_backups_round_trip_notes : ∃ w args,
    notesAdapter.importOf schema [notes] .emptyDatabase = .ok args ∧
    notesAdapter.Exports args.rowsByTable ∧
    ∃ result w₂, Returns notesHost.Answers w
        (restoreSnapshot (fun _ _ => []) (uuid 1) .emptyDatabase).run (.ok result) w₂ ∧
      w₂.restored = w.restored ++ [.restoreFull schema [notes] .emptyDatabase] := by
  obtain ⟨_, w', hret⟩ := returns_notesHost
  have hvalues : ValuesReadBack String := by
    rintro value _ ⟨⟩
    rfl
  have hdistinct : DistinctNames notesAdapter.database.listBackupEntities := by
    constructor <;> decide
  have hreadable : ∀ tables, notesAdapter.exportFull = .ok tables →
      ∀ table ∈ tables, ∀ row ∈ table.rows, row.Readable := by
    intro tables htables
    rw [← Except.ok.inj (exportFull_notesAdapter.symm.trans htables)]
    exact readable_notes
  have hcurrent : notesAdapter.currentSchemaSnapshot =
      .ok ⟨schema.backend, "1", schema.schemaHash, [notesEntity]⟩ := rfl
  have hsame : ∀ schema', notesAdapter.schemaSnapshot = .ok schema' →
      schema'.backend = schema.backend ∧ schema'.schemaHash = schema.schemaHash := by
    rintro _ ⟨⟩
    exact ⟨rfl, rfl⟩
  obtain ⟨schema', tables, args, hschema, htables, hargs, hexports, hrestores⟩ :=
    orm_backups_round_trip cratesReadBack hvalues honestObjects_empty hdistinct hreadable hret
      hcurrent hsame rfl rfl
  obtain rfl : schema = schema' := Except.ok.inj hschema
  obtain rfl := Except.ok.inj (exportFull_notesAdapter.symm.trans htables)
  obtain ⟨⟨r, w₂, hrestore⟩, hall⟩ := hrestores notesHost.objects fun _ _ => []
  obtain ⟨hcalls, hok⟩ := hall r w₂ hrestore
  obtain ⟨result, rfl⟩ := hok.mpr rfl
  exact ⟨w', args, hargs, hexports, result, w₂, hrestore, hcalls⟩

end Notes

end GraphqlOrmBackup
