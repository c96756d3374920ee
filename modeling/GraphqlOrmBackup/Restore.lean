import GraphqlOrmBackup.Backup

/-!
# Restore

`restore_snapshot` of `restore.rs`: a chain is loaded and verified, the target
is checked, and the payloads are handed to the database adapter.
-/

namespace GraphqlOrmBackup

open Interaction

structure RestoreResult where
  manifestChainLen : Nat
  fullTableCount : Nat
  fullRowCount : Nat
  incrementalChangeCount : Nat
deriving DecidableEq, Repr

def ensureEmptyRestoreTarget (targetIsEmpty : Bool) (context : RestoreContext) :
    Except BackupError Unit :=
  match context.mode with
  | .emptyDatabase => if targetIsEmpty then pure () else throw .restoreTargetNotEmpty
  | .dryRun => pure ()

def manifestSchema (manifest : BackupSnapshotManifest) : GraphqlOrmBackupSchema where
  backend := manifest.databaseBackend
  migrationVersion := manifest.graphqlOrmSchemaVersion
  schemaHash := manifest.graphqlOrmSchemaHash

def verifyRestoreSchema (manifest : BackupSnapshotManifest) : BackupM GraphqlOrmBackupSchema := do
  let backup := manifestSchema manifest
  let target ← call .schemaSnapshot
  if backup.backend ≠ target.backend ∨ backup.schemaHash ≠ target.schemaHash then
    throw (.restoreSchemaMismatch backup.backend backup.schemaHash target.backend
      target.schemaHash)
  else
    pure backup

/-- The target's own answer; a dry run does not ask. -/
def targetIsEmpty (context : RestoreContext) : BackupM Bool :=
  match context.mode with
  | .dryRun => pure true
  | .emptyDatabase => call .restoreTargetIsEmpty

/-- A restore call, left out in a dry run. -/
def applyRestore (context : RestoreContext) (request : RestoreCall) : BackupM Unit :=
  match context.mode with
  | .dryRun => pure ()
  | .emptyDatabase => call (.restore request)

section Codec

variable [Crates]

/-- One round of the loop over the incrementals: the number of changes. -/
def restoreManifest (context : RestoreContext) (manifest : BackupSnapshotManifest) :
    BackupM Nat := do
  let changes ← read fun s => loadChangeExports s manifest
  applyRestore context (.restoreIncremental changes context)
  pure changes.length

def restoreSnapshot (order : BackupSnapshotManifest → CompletionOrder) (snapshotId : Uuid)
    (context : RestoreContext) : BackupM RestoreResult := do
  let chain ← read fun s => loadVerifiedChain order s snapshotId
  let fullManifest ← Fallible.ofExcept ((chain.head?).elim emptyChain pure)
  let backupSchema ← verifyRestoreSchema fullManifest
  let empty ← targetIsEmpty context
  Fallible.ofExcept (ensureEmptyRestoreTarget empty context)
  let fullExport ← read fun s => loadTableExports s fullManifest
  applyRestore context (.restoreFull backupSchema fullExport context)
  let changeCounts ← chain.tail.mapM' (restoreManifest context)
  pure {
    manifestChainLen := chain.length
    fullTableCount := fullExport.length
    fullRowCount := (fullExport.map (·.rows.length)).sum
    incrementalChangeCount := changeCounts.sum }

end Codec

end GraphqlOrmBackup
