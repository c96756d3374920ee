import GraphqlOrmBackup.Foreign
import GraphqlOrmBackup.Uuid
import GraphqlOrmBackup.Json.Map

/-!
# Application contracts

The data exchanged with the application (`database.rs`, `object_index.rs` and
the restore context of `restore.rs`) and the two traits it implements: the
database adapter and the object index.
-/

namespace GraphqlOrmBackup

structure GraphqlOrmBackupSchema where
  backend : String
  migrationVersion : String
  schemaHash : String
deriving DecidableEq, Repr

structure BackupRow where
  tableName : String
  primaryKey : String
  rowHash : String
  values : Json.Map

structure BackupTableExport where
  tableName : String
  rows : List BackupRow

inductive BackupChangeAction where
  | create
  | update
  | delete
deriving DecidableEq, Repr

structure BackupChangeExport where
  tableName : String
  primaryKey : String
  action : BackupChangeAction
  row : Option BackupRow
  changedAt : Int

/-- Containers of the document written for a row: the row, its map of values,
    and what the values nest. -/
def BackupRow.depth (row : BackupRow) : Nat := Json.depthFields row.values.document + 2

def BackupRow.floats (row : BackupRow) : List Binary64 := Json.floatsFields row.values.document

def BackupChangeExport.depth (change : BackupChangeExport) : Nat :=
  match change.row with
  | some row => row.depth + 1
  | none => 1

structure BackupObjectRef where
  objectId : Uuid
  storageKey : String
  sha256Hex : String
  sizeBytes : Nat
  mimeType : Option String
deriving DecidableEq

inductive RestoreMode where
  | emptyDatabase
  | dryRun
deriving DecidableEq, Repr

structure RestoreContext where
  mode : RestoreMode
  disablePolicies : Bool
  disableChangeJournal : Bool
deriving DecidableEq, Repr

def RestoreContext.emptyDatabase : RestoreContext := ⟨.emptyDatabase, true, true⟩

def RestoreContext.forDryRun : RestoreContext := ⟨.dryRun, true, true⟩

/-- A call that writes to the restore target. -/
inductive RestoreCall where
  | restoreFull (backupSchema : GraphqlOrmBackupSchema) (export_ : List BackupTableExport)
      (context : RestoreContext)
  | restoreIncremental (changes : List BackupChangeExport) (context : RestoreContext)

/-- What a stream of bytes yields when it is read to its end. -/
abbrev StorageByteStream := Except BackupError Bytes

/-- An implementation of the trait `GraphqlOrmBackupAdapter`.  The answer to a
    restore call may depend on all restore calls made so far, the current one
    being the last. -/
structure GraphqlOrmBackupAdapter where
  schemaSnapshot : Except BackupError GraphqlOrmBackupSchema
  restoreTargetIsEmpty : Except BackupError Bool
  exportFull : Except BackupError (List BackupTableExport)
  exportIncremental : Uuid → Except BackupError (List BackupChangeExport)
  restore : List RestoreCall → Except BackupError Unit

/-- An implementation of the trait `BackupObjectIndex`.  An object is loaded up
    to twice, and the answers need not agree. -/
structure BackupObjectIndex where
  listObjectsForFullBackup : Except BackupError (List BackupObjectRef)
  listObjectsForIncrementalBackup : Uuid → Except BackupError (List BackupObjectRef)
  loadObjectStream : BackupObjectRef → Except BackupError StorageByteStream → Prop

/-- The application as a backup or a restore sees it. -/
structure Host where
  database : GraphqlOrmBackupAdapter
  objects : BackupObjectIndex

end GraphqlOrmBackup
