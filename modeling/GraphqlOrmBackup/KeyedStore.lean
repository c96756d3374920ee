import GraphqlOrmBackup.ChangeGroups
import GraphqlOrmBackup.Replay
import GraphqlOrmBackup.Restore

/-!
# Restored databases

What the calls of a restore make of an empty database that keeps one row for
each table name and primary key: rows are inserted, changes with a row insert
it, deletions remove it.  The nested maps of a compaction are such a database,
and so are the tables that it writes.
-/

namespace GraphqlOrmBackup

open Replay

/-- The rows of one table by primary key. -/
abbrev KeyedTable := String → Option BackupRow

/-- The tables by name. -/
abbrev KeyedStore := String → KeyedTable

def KeyedStore.empty : KeyedStore := fun _ _ => none

def KeyedTable.insertRow (rows : KeyedTable) (row : BackupRow) : KeyedTable :=
  Function.update rows row.primaryKey (some row)

def KeyedTable.insertRows (rows : KeyedTable) (table : BackupTableExport) : KeyedTable :=
  table.rows.foldl insertRow rows

/-- Create or update with a row: upsert; without one: no effect; delete: remove. -/
def KeyedTable.applyChange (rows : KeyedTable) (change : BackupChangeExport) : KeyedTable :=
  match change.action, change.row with
  | .delete, _ => Function.update rows change.primaryKey none
  | _, some row => Function.update rows change.primaryKey (some row)
  | _, none => rows

namespace KeyedStore

def applyTables (db : KeyedStore) (tables : List BackupTableExport) : KeyedStore :=
  replay (·.tableName) KeyedTable.insertRows db tables

def applyChanges (db : KeyedStore) (changes : List BackupChangeExport) : KeyedStore :=
  replay (·.tableName) KeyedTable.applyChange db changes

def applyCall (db : KeyedStore) : RestoreCall → KeyedStore
  | .restoreFull _ tables _ => db.applyTables tables
  | .restoreIncremental changes _ => db.applyChanges changes

/-- The database after the calls. -/
def ofCalls (calls : List RestoreCall) : KeyedStore := calls.foldl applyCall empty

/-- The database after the tables and the lists of changes. -/
def ofHistory (tables : List BackupTableExport) (changes : List (List BackupChangeExport)) :
    KeyedStore :=
  changes.foldl applyChanges (empty.applyTables tables)

theorem ofCalls_restoreCalls (context : RestoreContext) (root : BackupSnapshotManifest)
    (tables : List BackupTableExport) (changes : List (List BackupChangeExport)) :
    ofCalls (.restoreFull (manifestSchema root) tables context ::
      changes.map fun changes => .restoreIncremental changes context) =
      ofHistory tables changes := by
  rw [ofCalls, List.foldl_cons, List.foldl_map]
  rfl

/-- Histories whose changes agree by table have the same outcome. -/
theorem ofHistory_congr {tables : List BackupTableExport}
    {changes changes' : List (List BackupChangeExport)}
    (h : List.Forall₂ (fun changes changes' =>
      ∀ tableName, changesOf tableName changes = changesOf tableName changes') changes changes') :
    ofHistory tables changes = ofHistory tables changes' := by
  rw [ofHistory, ofHistory]
  generalize empty.applyTables tables = db
  induction h generalizing db with
  | nil => rfl
  | cons hhead _ ih =>
    rw [List.foldl_cons, List.foldl_cons, ih, applyChanges, applyChanges, replay_congr hhead]

end KeyedStore

/-! ## The maps of a compaction -/

/-- The maps of a compaction as a database. -/
def TableRows.view (tableRows : TableRows) : KeyedStore :=
  fun tableName primaryKey => (tableRows.getD tableName ∅)[primaryKey]?

theorem TableRows.view_modify (tableRows : TableRows) (tableName : String)
    (f : Std.TreeMap String BackupRow → Std.TreeMap String BackupRow) :
    (tableRows.modify tableName f).view = Function.update tableRows.view tableName
      fun primaryKey => (f (tableRows.getD tableName ∅))[primaryKey]? := by
  funext name
  by_cases h : name = tableName
  · subst h
    rw [Function.update_self]
    funext primaryKey
    simp [view, TableRows.modify]
  · rw [Function.update_of_ne h]
    funext primaryKey
    have hne : compare tableName name ≠ .eq := fun heq =>
      h (Std.LawfulEqCmp.compare_eq_iff_eq.mp heq).symm
    simp [view, TableRows.modify, Std.TreeMap.getD_insert, hne]

theorem getElem?_insertRow (rows : Std.TreeMap String BackupRow) (primaryKey : String)
    (row : BackupRow) (key : String) :
    (rows.insert primaryKey row)[key]? =
      Function.update (fun key => rows[key]?) primaryKey (some row) key := by
  rw [Std.TreeMap.getElem?_insert, Function.update_apply]
  by_cases h : key = primaryKey
  · simp [h]
  · rw [if_neg h, if_neg]
    exact fun heq => h (Std.LawfulEqCmp.compare_eq_iff_eq.mp heq).symm

theorem getElem?_eraseRow (rows : Std.TreeMap String BackupRow) (primaryKey : String)
    (key : String) :
    (rows.erase primaryKey)[key]? =
      Function.update (fun key => rows[key]?) primaryKey none key := by
  rw [Std.TreeMap.getElem?_erase, Function.update_apply]
  by_cases h : key = primaryKey
  · simp [h]
  · rw [if_neg h, if_neg]
    exact fun heq => h (Std.LawfulEqCmp.compare_eq_iff_eq.mp heq).symm

theorem getElem?_foldl_insert (l : List BackupRow) (rows : Std.TreeMap String BackupRow) :
    (fun key => (l.foldl (fun rows row => rows.insert row.primaryKey row) rows)[key]?) =
      l.foldl KeyedTable.insertRow fun key => rows[key]? := by
  induction l generalizing rows with
  | nil => rfl
  | cons row l ih =>
    rw [List.foldl_cons, List.foldl_cons, ih, KeyedTable.insertRow]
    congr 1
    funext key
    exact getElem?_insertRow rows row.primaryKey row key

/-- **The maps of a compaction follow the database**, table by table, -/
theorem view_insertTable (tableRows : TableRows) (table : BackupTableExport) :
    (insertTable tableRows table).view = step (·.tableName) KeyedTable.insertRows tableRows.view
      table := by
  rw [insertTable, TableRows.view_modify, getElem?_foldl_insert]
  rfl

/-- and change by change. -/
theorem view_applyChange (tableRows : TableRows) (change : BackupChangeExport) :
    (applyChange tableRows change).view = step (·.tableName) KeyedTable.applyChange
      tableRows.view change := by
  rw [applyChange, TableRows.view_modify, step, KeyedTable.applyChange]
  congr 1
  cases change.action <;> cases change.row
  all_goals funext key
  all_goals first
    | rfl
    | exact getElem?_eraseRow _ _ _
    | exact getElem?_insertRow _ _ _ _

theorem view_foldl_insertTable (tables : List BackupTableExport) (tableRows : TableRows) :
    (tables.foldl insertTable tableRows).view = tableRows.view.applyTables tables := by
  induction tables generalizing tableRows with
  | nil => rfl
  | cons table tables ih =>
    rw [List.foldl_cons, ih, view_insertTable]
    rfl

theorem view_foldl_applyChange (changes : List BackupChangeExport) (tableRows : TableRows) :
    (changes.foldl applyChange tableRows).view = tableRows.view.applyChanges changes := by
  induction changes generalizing tableRows with
  | nil => rfl
  | cons change changes ih =>
    rw [List.foldl_cons, ih, view_applyChange]
    rfl

theorem view_foldl_changes (changes : List (List BackupChangeExport)) (tableRows : TableRows) :
    (changes.foldl (fun tableRows changes => changes.foldl applyChange tableRows) tableRows).view =
      changes.foldl KeyedStore.applyChanges tableRows.view := by
  induction changes generalizing tableRows with
  | nil => rfl
  | cons list changes ih => rw [List.foldl_cons, List.foldl_cons, ih, view_foldl_applyChange]

theorem view_empty : TableRows.view ∅ = KeyedStore.empty := by
  funext tableName primaryKey
  simp [TableRows.view, KeyedStore.empty]

/-! ## Rows of a database -/

/-- Every row of the table is of this kind. -/
def KeyedTable.Forall (P : String → BackupRow → Prop) (rows : KeyedTable) : Prop :=
  ∀ primaryKey row, rows primaryKey = some row → P primaryKey row

section Rows

variable {P : String → BackupRow → Prop}

theorem KeyedTable.Forall.update {rows : KeyedTable} (h : rows.Forall P) {primaryKey : String}
    {value : Option BackupRow} (hvalue : ∀ row, value = some row → P primaryKey row) :
    KeyedTable.Forall P (Function.update rows primaryKey value) := by
  intro key row hrow
  by_cases hkey : key = primaryKey
  · subst hkey
    rw [Function.update_self] at hrow
    exact hvalue row hrow
  · rw [Function.update_of_ne hkey] at hrow
    exact h key row hrow

theorem KeyedTable.Forall.insertRows {rows : KeyedTable} (h : rows.Forall P)
    {table : BackupTableExport} (htable : ∀ row ∈ table.rows, P row.primaryKey row) :
    (rows.insertRows table).Forall P := by
  rw [KeyedTable.insertRows]
  generalize table.rows = l at htable
  induction l generalizing rows with
  | nil => exact h
  | cons row l ih =>
    rw [List.forall_mem_cons] at htable
    refine ih (h.update ?_) htable.2
    rintro _ ⟨⟩
    exact htable.1

theorem KeyedTable.Forall.applyChange {rows : KeyedTable} (h : rows.Forall P)
    {change : BackupChangeExport}
    (hchange : change.action ≠ .delete → ∀ row, change.row = some row → P change.primaryKey row) :
    (rows.applyChange change).Forall P := by
  rw [KeyedTable.applyChange]
  split
  · exact h.update (by simp)
  · next row hrow hne =>
    apply h.update
    rintro _ ⟨⟩
    exact hchange hne row hrow
  · exact h

theorem KeyedStore.forall_ofHistory {tables : List BackupTableExport}
    {changes : List (List BackupChangeExport)}
    (htables : ∀ table ∈ tables, ∀ row ∈ table.rows, P row.primaryKey row)
    (hchanges : ∀ list ∈ changes, ∀ change ∈ list, change.action ≠ .delete →
      ∀ row, change.row = some row → P change.primaryKey row) (tableName : String) :
    (ofHistory tables changes tableName).Forall P := by
  have hstart : ∀ tableName, (empty.applyTables tables tableName).Forall P :=
    replay_forall (P := fun _ rows => KeyedTable.Forall P rows) (fun _ _ _ h => by cases h)
      fun table htable rows hrows => hrows.insertRows (htables table htable)
  rw [ofHistory]
  generalize empty.applyTables tables = db at hstart
  induction changes generalizing db with
  | nil => exact hstart tableName
  | cons list changes ih =>
    rw [List.forall_mem_cons] at hchanges
    exact ih hchanges.2 _ <| replay_forall (P := fun _ rows => KeyedTable.Forall P rows) hstart
      fun change hchange rows hrows => hrows.applyChange (hchanges.1 change hchange)

end Rows

/-! ## The tables of a synthetic snapshot -/

/-- The tables that a compaction writes. -/
def TableRows.tables (tableRows : TableRows) : List BackupTableExport :=
  tableRows.toList.map fun table => ⟨table.1, table.2.values⟩

theorem values_eq_map_toList (rows : Std.TreeMap String BackupRow) :
    rows.values = rows.toList.map (·.2) := by
  have hfoldr : rows.values = rows.foldr (fun _ row l => row :: l) [] := rfl
  rw [hfoldr, Std.TreeMap.foldr_eq_foldr_toList, List.map_eq_foldr]

theorem mem_values {rows : Std.TreeMap String BackupRow} {row : BackupRow} :
    row ∈ rows.values ↔ ∃ primaryKey : String, rows[primaryKey]? = some row := by
  rw [values_eq_map_toList, List.mem_map]
  constructor
  · intro h
    rcases h with ⟨⟨primaryKey, _⟩, hmem, rfl⟩
    exact ⟨primaryKey, Std.TreeMap.mem_toList_iff_getElem?_eq_some.mp hmem⟩
  · intro h
    rcases h with ⟨primaryKey, hrow⟩
    exact ⟨(primaryKey, row), Std.TreeMap.mem_toList_iff_getElem?_eq_some.mpr hrow, rfl⟩

/-- The rows of a map that files them under their primary keys. -/
structure FiledByKey (rows : Std.TreeMap String BackupRow) : Prop where
  primaryKey : ∀ (key : String) (row : BackupRow), rows[key]? = some row → row.primaryKey = key

theorem FiledByKey.nodup {rows : Std.TreeMap String BackupRow} (h : FiledByKey rows) :
    (rows.values.map (·.primaryKey)).Nodup := by
  have hkeys : rows.values.map (·.primaryKey) = rows.toList.map (·.1) := by
    rw [values_eq_map_toList, List.map_map]
    refine List.map_congr_left fun entry hmem => ?_
    exact h.primaryKey _ _ (Std.TreeMap.mem_toList_iff_getElem?_eq_some.mp hmem)
  rw [hkeys]
  refine List.pairwise_map.mpr (Std.TreeMap.distinct_keys_toList.imp fun hne heq => ?_)
  exact hne (Std.LawfulEqCmp.compare_eq_iff_eq.mpr heq)

/-- Inserting the rows of such a map gives the map again. -/
theorem FiledByKey.insertRows {rows : Std.TreeMap String BackupRow} (h : FiledByKey rows)
    (tableName : String) : KeyedTable.insertRows (fun _ => none) ⟨tableName, rows.values⟩ =
      fun primaryKey => rows[primaryKey]? := by
  have hreplay : KeyedTable.insertRows (fun _ => none) ⟨tableName, rows.values⟩ =
      replay (·.primaryKey) (fun _ row => some row) (fun _ => none) rows.values := rfl
  rw [hreplay]
  funext primaryKey
  cases hrow : rows[primaryKey]? with
  | some row =>
    obtain rfl := h.primaryKey _ _ hrow
    exact replay_apply_of_mem h.nodup (mem_values.mpr ⟨_, hrow⟩) _
  | none =>
    refine replay_apply_of_notMem (fun hmem => ?_) _
    rcases List.mem_map.mp hmem with ⟨row, hrow', rfl⟩
    rcases mem_values.mp hrow' with ⟨key, hkey⟩
    rw [h.primaryKey _ _ hkey, hkey] at hrow
    cases hrow

theorem view_eq_of_mem {tableRows : TableRows} {tableName : String}
    {rows : Std.TreeMap String BackupRow compare} (h : (tableName, rows) ∈ tableRows.toList) :
    tableRows.view tableName = fun primaryKey => rows[primaryKey]? := by
  have hget : tableRows[tableName]? = some rows :=
    Std.TreeMap.mem_toList_iff_getElem?_eq_some.mp h
  funext primaryKey
  simp [TableRows.view, Std.TreeMap.getD_eq_getD_getElem?, hget]

theorem filedByKey_of_view {tableRows : TableRows}
    (h : ∀ tableName, (tableRows.view tableName).Forall fun key row => row.primaryKey = key) :
    ∀ table ∈ tableRows.toList, FiledByKey table.2 := by
  intro table hmem
  refine ⟨fun key row hrow => h table.1 key row ?_⟩
  rw [view_eq_of_mem hmem]
  exact hrow

theorem nodup_tables (tableRows : TableRows) : (tableRows.tables.map (·.tableName)).Nodup := by
  rw [TableRows.tables, List.map_map]
  refine List.pairwise_map.mpr (Std.TreeMap.distinct_keys_toList.imp fun hne heq => ?_)
  exact hne (Std.LawfulEqCmp.compare_eq_iff_eq.mpr heq)

/-- **The tables that a compaction writes** are the database it has folded. -/
theorem ofHistory_tables {tableRows : TableRows}
    (h : ∀ tableName, (tableRows.view tableName).Forall fun key row => row.primaryKey = key) :
    KeyedStore.ofHistory tableRows.tables [] = tableRows.view := by
  change KeyedStore.empty.applyTables tableRows.tables = tableRows.view
  rw [KeyedStore.applyTables]
  funext tableName
  cases htable : tableRows[tableName]? with
  | some rows =>
    have hmem : (tableName, rows) ∈ tableRows.toList :=
      Std.TreeMap.mem_toList_iff_getElem?_eq_some.mpr htable
    have hmem' : (⟨tableName, rows.values⟩ : BackupTableExport) ∈ tableRows.tables :=
      List.mem_map.mpr ⟨_, hmem, rfl⟩
    rw [replay_apply_of_mem (nodup_tables tableRows) hmem', view_eq_of_mem hmem]
    exact (filedByKey_of_view h _ hmem).insertRows tableName
  | none =>
    rw [replay_apply_of_notMem]
    · funext primaryKey
      simp [KeyedStore.empty, TableRows.view, Std.TreeMap.getD_eq_getD_getElem?, htable]
    · intro hmem
      rw [TableRows.tables, List.map_map] at hmem
      rcases List.mem_map.mp hmem with ⟨⟨_, rows⟩, hrows, rfl⟩
      have hget := Std.TreeMap.mem_toList_iff_getElem?_eq_some.mp hrows
      exact absurd (htable.symm.trans hget) (by simp)

end GraphqlOrmBackup
