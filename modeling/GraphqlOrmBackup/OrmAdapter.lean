import GraphqlOrmBackup.ColumnPolicies
import GraphqlOrmBackup.Database
import Mathlib.Data.String.Basic
import Std.Data.ExtTreeMap

/-!
# The adapter for `graphql-orm`

`OrmBackupAdapter` of `orm.rs`: a database of `graphql-orm`, with the policies
that the application overrides, as the adapter of a backup or a restore.  The
runtime of `graphql-orm` is a parameter, and so are the values of its rows.
-/

namespace GraphqlOrmBackup

/-! ## What `graphql-orm` provides -/

/-- `BackupValue`, as `serde_json` writes and reads it. -/
class BackupValue (V : Type) where
  toValue : V → Except String Json.SerdeValue
  fromValue : Json.SerdeValue → Except String V

/-- A row of `graphql-orm`; its values are a `BTreeMap`. -/
structure OrmBackupRow (V : Type) where
  tableName : String
  primaryKey : String
  rowHash : String
  values : Std.ExtTreeMap String V

/-- The positions of an entity, with whatever else `graphql-orm` says of it. -/
structure EntityOrder (δ : Type) where
  exportOrder : Int
  restoreOrder : Int
  rest : δ

abbrev OrmDescriptor (δ γ : Type) := EntityBackupDescriptor (EntityOrder δ) γ

structure GraphqlOrmSchemaSnapshot (δ γ : Type) where
  backend : String
  migrationVersion : String
  schemaHash : String
  entities : List (OrmDescriptor δ γ)

/-- The rows of each table that is imported. -/
abbrev RowsByTable (V : Type) := Std.ExtTreeMap String (List (OrmBackupRow V))

structure OrmRestoreContext where
  mode : RestoreMode
  disablePolicies : Bool
  disableChangeJournal : Bool
deriving DecidableEq

/-- The arguments of `restore_backup_rows`. -/
structure OrmImport (V δ γ : Type) where
  backup : GraphqlOrmSchemaSnapshot δ γ
  current : GraphqlOrmSchemaSnapshot δ γ
  rowsByTable : RowsByTable V
  context : OrmRestoreContext

/-- The runtime of `graphql-orm` on a database and its entities.  `S` are the
    consistent snapshots that exports read from; an error is its text. -/
structure OrmDatabase (V δ γ S : Type) where
  listBackupEntities : List (OrmDescriptor δ γ)
  schemaSnapshot : String → GraphqlOrmSchemaSnapshot δ γ
  stableSchemaHash : List (OrmDescriptor δ γ) → String
  currentVersion : Except String (Option String)
  beginConsistentSnapshot : Except String S
  exportTableRows : S → OrmDescriptor δ γ → Except String (List (OrmBackupRow V))
  /-- The row that a query returns, and the count that is decoded from it. -/
  fetchRowCount : String → Except String (Except String Int)
  restoreBackupRows : OrmImport V δ γ → Except String Unit

/-! ## Rows -/

section Rows

variable {V : Type} [BackupValue V]

/-- One round of the loop of `crate_row_from_orm`. -/
def insertJson (values : Json.Map) (value : String × V) : Except BackupError Json.Map := do
  let json ← (BackupValue.toValue value.2).mapError .serialization
  pure (values.insert value.1 json)

def crateRowFromOrm (row : OrmBackupRow V) : Except BackupError BackupRow := do
  let values ← row.values.toList.foldlM insertJson Json.Map.empty
  pure { tableName := row.tableName, primaryKey := row.primaryKey, rowHash := row.rowHash, values }

/-- One round of the loop of `orm_row_from_crate`. -/
def insertValue (values : Std.ExtTreeMap String V) (value : String × Json.SerdeValue) :
    Except BackupError (Std.ExtTreeMap String V) := do
  let value' ← (BackupValue.fromValue value.2).mapError .serialization
  pure (values.insert value.1 value')

def ormRowFromCrate (row : BackupRow) : Except BackupError (OrmBackupRow V) := do
  let values ← row.values.fields.foldlM insertValue ∅
  pure { tableName := row.tableName, primaryKey := row.primaryKey, rowHash := row.rowHash, values }

end Rows

def databaseError (operation : String) (error : String) : BackupError :=
  .database (operation ++ ": " ++ error)

def quoteIdentifier (identifier : String) : String :=
  String.ofList ('"' :: identifier.toList.flatMap (fun c => if c = '"' then ['"', '"'] else [c]) ++
    ['"'])

def ormRestoreContext (context : RestoreContext) : Except BackupError OrmRestoreContext :=
  if context.mode = .emptyDatabase ∧ (¬ context.disablePolicies ∨ ¬ context.disableChangeJournal) then
    throw (.invalidRestoreContext ("applying graphql-orm restore requires administrative policy " ++
      "and change-journal suppression"))
  else
    pure ⟨context.mode, context.disablePolicies, context.disableChangeJournal⟩

/-! ## The adapter -/

structure OrmBackupAdapter (V δ γ S : Type) where
  database : OrmDatabase V δ γ S
  migrationVersion : Option String
  columnPolicyOverrides : List ColumnPolicyOverride

/-- Parents first. -/
def exportsFirst {δ γ : Type} (left right : OrmDescriptor δ γ) : Bool :=
  decide (left.rest.exportOrder < right.rest.exportOrder ∨
    (left.rest.exportOrder = right.rest.exportOrder ∧ left.tableName ≤ right.tableName))

namespace OrmBackupAdapter

variable {V δ γ S : Type} (adapter : OrmBackupAdapter V δ γ S)

def resolveMigrationVersion : Except BackupError String :=
  match adapter.migrationVersion with
  | some migrationVersion => pure migrationVersion
  | none => do
      let version ← adapter.database.currentVersion.mapError (databaseError "read migration version")
      pure (version.getD "unversioned")

def currentSchemaSnapshot : Except BackupError (GraphqlOrmSchemaSnapshot δ γ) := do
  let migrationVersion ← adapter.resolveMigrationVersion
  let snapshot := adapter.database.schemaSnapshot migrationVersion
  let entities ← applyColumnPolicyOverrides adapter.columnPolicyOverrides snapshot.entities
  pure { snapshot with entities, schemaHash := adapter.database.stableSchemaHash entities }

def descriptors : Except BackupError (List (OrmDescriptor δ γ)) :=
  applyColumnPolicyOverrides adapter.columnPolicyOverrides adapter.database.listBackupEntities

def schemaSnapshot : Except BackupError GraphqlOrmBackupSchema := do
  let snapshot ← adapter.currentSchemaSnapshot
  pure ⟨snapshot.backend, snapshot.migrationVersion, snapshot.schemaHash⟩

/-- The loop over the descriptors, up to the first table with a row. -/
def tablesAreEmpty : List (OrmDescriptor δ γ) → Except BackupError Bool
  | [] => pure true
  | descriptor :: rest => do
      let sql := "SELECT COUNT(*) AS row_count FROM " ++ quoteIdentifier descriptor.tableName
      let row ← (adapter.database.fetchRowCount sql).mapError
        (databaseError ("count rows in table " ++ descriptor.tableName))
      let rowCount ← row.mapError (databaseError "decode row count")
      if rowCount ≠ 0 then pure false else tablesAreEmpty rest

def restoreTargetIsEmpty : Except BackupError Bool := do
  let descriptors ← adapter.descriptors
  adapter.tablesAreEmpty descriptors

variable [BackupValue V]

/-- One round of the loop of `export_full`. -/
def exportTable (snapshot : S) (descriptor : OrmDescriptor δ γ) :
    Except BackupError BackupTableExport := do
  let rows ← (adapter.database.exportTableRows snapshot descriptor).mapError
    (databaseError ("export table " ++ descriptor.tableName))
  let rows ← rows.mapM' crateRowFromOrm
  pure { tableName := descriptor.tableName, rows }

def exportFull : Except BackupError (List BackupTableExport) := do
  let descriptors ← adapter.descriptors
  let descriptors := descriptors.mergeSort exportsFirst
  let snapshot ← adapter.database.beginConsistentSnapshot.mapError
    (databaseError "begin export snapshot")
  descriptors.mapM' (adapter.exportTable snapshot)

def exportIncremental (_parentSnapshotId : Uuid) : Except BackupError (List BackupChangeExport) :=
  throw (.unsupportedOperation
    "incremental export requires a graphql-orm change journal integration")

/-- One round of the loop of `restore_full`; a table that is listed twice keeps its
    last rows. -/
def insertRows (rowsByTable : RowsByTable V) (table : BackupTableExport) :
    Except BackupError (RowsByTable V) := do
  let rows ← table.rows.mapM' ormRowFromCrate
  pure (rowsByTable.insert table.tableName rows)

/-- `restore_full` up to the import: its arguments. -/
def importOf (backupSchema : GraphqlOrmBackupSchema) (export_ : List BackupTableExport)
    (context : RestoreContext) : Except BackupError (OrmImport V δ γ) := do
  let context ← ormRestoreContext context
  let current ← adapter.currentSchemaSnapshot
  if backupSchema.backend ≠ current.backend ∨ backupSchema.schemaHash ≠ current.schemaHash then
    throw (.restoreSchemaMismatch backupSchema.backend backupSchema.schemaHash current.backend
      current.schemaHash)
  else
    let backup := { current with
      backend := backupSchema.backend
      migrationVersion := backupSchema.migrationVersion
      schemaHash := backupSchema.schemaHash }
    let rowsByTable ← export_.foldlM insertRows ∅
    pure { backup, current, rowsByTable, context }

def restoreFull (backupSchema : GraphqlOrmBackupSchema) (export_ : List BackupTableExport)
    (context : RestoreContext) : Except BackupError Unit := do
  let args ← adapter.importOf backupSchema export_ context
  (adapter.database.restoreBackupRows args).mapError (databaseError "restore rows")

def restoreIncremental (_changes : List BackupChangeExport) (_context : RestoreContext) :
    Except BackupError Unit :=
  throw (.unsupportedOperation
    "incremental restore requires a graphql-orm change journal integration")

/-- The answer to one restore call. -/
def restore : RestoreCall → Except BackupError Unit
  | .restoreFull backupSchema export_ context => adapter.restoreFull backupSchema export_ context
  | .restoreIncremental changes context => restoreIncremental changes context

/-- The adapter as the trait describes it. -/
def toAdapter : GraphqlOrmBackupAdapter where
  schemaSnapshot := adapter.schemaSnapshot
  restoreTargetIsEmpty := adapter.restoreTargetIsEmpty
  exportFull := adapter.exportFull
  exportIncremental := exportIncremental
  restore := fun calls => (calls.getLast?).elim (pure ()) adapter.restore

end OrmBackupAdapter

end GraphqlOrmBackup
