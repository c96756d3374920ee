import GraphqlOrmBackup.Lock
import GraphqlOrmBackup.Payload
import GraphqlOrmBackup.Verify
import GraphqlOrmBackup.Interaction.Pool
import Std.Data.TreeMap

/-!
# Backups

`backup.rs` and `planner.rs`: writing a full snapshot, an incremental snapshot
and the synthetic full snapshot of a chain.
-/

namespace GraphqlOrmBackup

open Interaction

def DEFAULT_OBJECT_CONCURRENCY : Nat := 8

structure BackupExecutionOptions where
  objectConcurrency : Nat
  lock : RepositoryLockOptions

def BackupExecutionOptions.default : BackupExecutionOptions where
  objectConcurrency := DEFAULT_OBJECT_CONCURRENCY
  lock := RepositoryLockOptions.default

structure FullBackupRequest where
  snapshotId : Uuid
  createdAt : Int
  appId : String
  appVersion : String

structure FullBackupResult where
  manifest : BackupSnapshotManifest

structure IncrementalBackupRequest where
  snapshotId : Uuid
  parentSnapshotId : Uuid
  createdAt : Int
  appId : String
  appVersion : String

structure IncrementalBackupResult where
  manifest : BackupSnapshotManifest

structure CompactChainRequest where
  snapshotId : Uuid
  sourceSnapshotId : Uuid
  createdAt : Int
  appId : String
  appVersion : String

structure CompactChainResult where
  manifest : BackupSnapshotManifest

section Codec

variable [Crates]

/-! ## Payload blobs -/

/-- The body of the three loops that write payloads: serialize the entries of
    one table, store the blob, and describe it. -/
def writePayload [SerializeJson T] (contentKey tableName : String) (entries : List T) :
    BackupM TableBackupEntry := do
  let bytes ← Fallible.ofExcept (serializeJsonlEntries entries)
  putBlob contentKey bytes
  pure { tableName, rowCount := entries.length, contentKey, sha256Hex := sha256Hex bytes }

/-- The sum of the entries' counts. -/
def totalRowCount (entries : List TableBackupEntry) : Nat := (entries.map (·.rowCount)).sum

def writeManifest (manifest : BackupSnapshotManifest) : BackupM BackupSnapshotManifest := do
  let manifest ← Fallible.ofExcept (setManifestChecksum manifest)
  let body ← Fallible.ofExcept ((Crates.manifestToVecPretty manifest).mapError .serialization)
  putBlob (snapshotManifestKey manifest.snapshotId) body
  pure manifest

/-! ## Object blobs -/

def loadObjectStream (object : BackupObjectRef) : BackupM StorageByteStream :=
  call (.loadObjectStream object)

def hashObjectSource (source : StorageByteStream) : Except BackupError String :=
  source.map sha256Hex

def objectBackupEntry (object : BackupObjectRef) : ObjectBackupEntry where
  objectId := object.objectId
  storageKey := object.storageKey
  contentKey := objectContentKey object.sha256Hex
  sha256Hex := object.sha256Hex
  sizeBytes := object.sizeBytes
  mimeType := object.mimeType

def objectMismatch (object : BackupObjectRef) (actual : String) : BackupError :=
  .checksumMismatch (objectContentKey object.sha256Hex) object.sha256Hex actual

/-- The blob that was written does not hash to its key: take it out again. -/
def discardObject (object : BackupObjectRef) (actual : String) :
    BackupM (Nat × ObjectBackupEntry) := do
  deleteBlob (objectContentKey object.sha256Hex)
  throw (objectMismatch object actual)

/-- The key exists: the source is loaded once more, for its checksum. -/
def recheckObject (index : Nat) (object : BackupObjectRef) :
    BackupM (Nat × ObjectBackupEntry) := do
  let source ← loadObjectStream object
  let actual ← Fallible.ofExcept (hashObjectSource source)
  if actual ≠ object.sha256Hex then
    throw (objectMismatch object actual)
  else
    pure (index, objectBackupEntry object)

/-- The hasher has seen the bytes of a stream that was written. -/
def putObject (index : Nat) (object : BackupObjectRef) (source : StorageByteStream) :
    BackupM (Nat × ObjectBackupEntry) := do
  let written ← putBlobStreamIfAbsent (objectContentKey object.sha256Hex) source
  if written then
    let actual ← Fallible.ofExcept (hashObjectSource source)
    if actual ≠ object.sha256Hex then
      discardObject object actual
    else
      pure (index, objectBackupEntry object)
  else
    recheckObject index object

/-- One task of `write_object_entries`. -/
def objectTask (index : Nat) (object : BackupObjectRef) :
    BackupM (Nat × ObjectBackupEntry) := do
  let source ← loadObjectStream object
  putObject index object source

def objectTasks (objectRefs : List BackupObjectRef) :
    List (Prog Call.Response (Except BackupError (Nat × ObjectBackupEntry))) :=
  objectRefs.zipIdx.map fun (object, index) => (objectTask index object).run

def writeObjectEntries (sched : List Poll) (objectRefs : List BackupObjectRef)
    (objectConcurrency : Nat) : BackupM (List ObjectBackupEntry) := do
  let objectEntries ← tryCollect (max objectConcurrency 1) sched (objectTasks objectRefs)
  pure ((objectEntries.mergeSort fun left right => left.1 ≤ right.1).map (·.2))

/-! ## Full backups -/

structure FullBackupPlan where
  schema : GraphqlOrmBackupSchema
  tables : List BackupTableExport
  objects : List BackupObjectRef

def planFullBackup : BackupM FullBackupPlan := do
  let schema ← call .schemaSnapshot
  let tables ← call .exportFull
  let objects ← call .listObjectsForFullBackup
  pure { schema, tables, objects }

def writeTable (snapshotId : Uuid) (table : BackupTableExport) : BackupM TableBackupEntry :=
  writePayload (databaseTableKey snapshotId table.tableName) table.tableName table.rows

/-- The manifest of a full backup, before its checksum is set. -/
def fullManifest (request : FullBackupRequest) (schema : GraphqlOrmBackupSchema)
    (tableEntries : List TableBackupEntry) (objectEntries : List ObjectBackupEntry) :
    BackupSnapshotManifest where
  formatVersion := BACKUP_FORMAT_VERSION
  snapshotId := request.snapshotId
  parentSnapshotId := none
  createdAt := request.createdAt
  appId := request.appId
  appVersion := request.appVersion
  graphqlOrmSchemaVersion := schema.migrationVersion
  graphqlOrmSchemaHash := schema.schemaHash
  databaseBackend := schema.backend
  backupKind := .full
  database := {
    exportFormat := DATABASE_EXPORT_FORMAT
    compression := .zstd
    rowCount := totalRowCount tableEntries
    tableCount := tableEntries.length
    tables := tableEntries
    changes := [] }
  objects := objectEntries
  tombstones := []
  checksum := ""

def createFullBackupInner (sched : List Poll) (request : FullBackupRequest)
    (options : BackupExecutionOptions) : BackupM FullBackupResult := do
  let plan ← planFullBackup
  let tableEntries ← plan.tables.mapM' (writeTable request.snapshotId)
  let objectEntries ← writeObjectEntries sched plan.objects options.objectConcurrency
  let manifest ← writeManifest (fullManifest request plan.schema tableEntries objectEntries)
  pure { manifest }

def createFullBackupWithOptions (sched : List Poll) (request : FullBackupRequest)
    (options : BackupExecutionOptions) : BackupM FullBackupResult :=
  withLock options.lock (createFullBackupInner sched request options)

/-! ## Incremental backups -/

structure ChangeGroup where
  tableName : String
  changes : List BackupChangeExport

/-- The first group of the change's table gets it, or a new group at the end. -/
def pushChange : List ChangeGroup → BackupChangeExport → List ChangeGroup
  | [], change => [⟨change.tableName, [change]⟩]
  | group :: groups, change =>
      if group.tableName = change.tableName then
        { group with changes := group.changes ++ [change] } :: groups
      else
        group :: pushChange groups change

def groupChangesByTable (changes : List BackupChangeExport) : List ChangeGroup :=
  changes.foldl pushChange []

def changesToTombstones (changes : List BackupChangeExport) : List BackupTombstone :=
  (changes.filter fun change => change.action = .delete).map fun change =>
    { tableName := some change.tableName
      primaryKey := some change.primaryKey
      objectId := none
      deletedAt := change.changedAt }

def writeGroup (snapshotId : Uuid) (group : ChangeGroup) : BackupM TableBackupEntry :=
  writePayload (databaseChangesKey snapshotId group.tableName) group.tableName group.changes

/-- The manifest of an incremental backup, before its checksum is set. -/
def incrementalManifest (request : IncrementalBackupRequest) (schema : GraphqlOrmBackupSchema)
    (changes : List BackupChangeExport) (changeEntries : List TableBackupEntry)
    (objectEntries : List ObjectBackupEntry) : BackupSnapshotManifest where
  formatVersion := BACKUP_FORMAT_VERSION
  snapshotId := request.snapshotId
  parentSnapshotId := some request.parentSnapshotId
  createdAt := request.createdAt
  appId := request.appId
  appVersion := request.appVersion
  graphqlOrmSchemaVersion := schema.migrationVersion
  graphqlOrmSchemaHash := schema.schemaHash
  databaseBackend := schema.backend
  backupKind := .incremental
  database := {
    exportFormat := DATABASE_EXPORT_FORMAT
    compression := .zstd
    rowCount := totalRowCount changeEntries
    tableCount := 0
    tables := []
    changes := changeEntries }
  objects := objectEntries
  tombstones := changesToTombstones changes
  checksum := ""

def createIncrementalBackupInner (sched : List Poll) (request : IncrementalBackupRequest)
    (options : BackupExecutionOptions) : BackupM IncrementalBackupResult := do
  let schema ← call .schemaSnapshot
  let changes ← call (.exportIncremental request.parentSnapshotId)
  let objectRefs ← call (.listObjectsForIncrementalBackup request.parentSnapshotId)
  let changeEntries ← (groupChangesByTable changes).mapM' (writeGroup request.snapshotId)
  let objectEntries ← writeObjectEntries sched objectRefs options.objectConcurrency
  let manifest ←
    writeManifest (incrementalManifest request schema changes changeEntries objectEntries)
  pure { manifest }

def createIncrementalBackupWithOptions (sched : List Poll) (request : IncrementalBackupRequest)
    (options : BackupExecutionOptions) : BackupM IncrementalBackupResult :=
  withLock options.lock (createIncrementalBackupInner sched request options)

/-! ## Compaction -/

/-- The nested `BTreeMap` of table names, primary keys and rows. -/
abbrev TableRows := Std.TreeMap String (Std.TreeMap String BackupRow)

/-- `table_rows.entry(name).or_default()`, updated. -/
def TableRows.modify (tableRows : TableRows) (tableName : String)
    (f : Std.TreeMap String BackupRow → Std.TreeMap String BackupRow) : TableRows :=
  tableRows.insert tableName (f (tableRows.getD tableName ∅))

def insertTable (tableRows : TableRows) (table : BackupTableExport) : TableRows :=
  tableRows.modify table.tableName fun rows =>
    table.rows.foldl (fun rows row => rows.insert row.primaryKey row) rows

def applyChange (tableRows : TableRows) (change : BackupChangeExport) : TableRows :=
  tableRows.modify change.tableName fun rows =>
    match change.action, change.row with
    | .delete, _ => rows.erase change.primaryKey
    | _, some row => rows.insert change.primaryKey row
    | _, none => rows

/-- The chain of a snapshot, every manifest and every blob of it verified. -/
def loadVerifiedChain (order : BackupSnapshotManifest → CompletionOrder) (s : Store)
    (snapshotId : Uuid) : Except BackupError (List BackupSnapshotManifest) := do
  let chain ← loadManifestChain s snapshotId
  forM chain fun manifest => verifyManifestAndObjects (order manifest) s manifest
  pure chain

theorem loadVerifiedChain_eq_ok {order : BackupSnapshotManifest → CompletionOrder} {s : Store}
    {id : Uuid} {chain : List BackupSnapshotManifest} :
    loadVerifiedChain order s id = .ok chain ↔ loadManifestChain s id = .ok chain ∧
      ∀ manifest ∈ chain, verifyManifestChecksum manifest = .ok () ∧ HoldsBlobs s manifest := by
  simp only [loadVerifiedChain, bind_eq_ok, pure_eq_ok]
  constructor
  · intro h
    rcases h with ⟨_, hload, ⟨⟩, hverify, rfl⟩
    exact ⟨hload, fun manifest hmem =>
      verifyManifestAndObjects_eq_ok.mp (forM_eq_ok.mp hverify manifest hmem)⟩
  · intro h
    rcases h with ⟨hload, hverify⟩
    refine ⟨chain, hload, (), forM_eq_ok.mpr fun manifest hmem => ?_, rfl⟩
    exact verifyManifestAndObjects_eq_ok.mpr (hverify manifest hmem)

/-- The rows after the root's tables and the changes of the later manifests. -/
def compactRows (s : Store) (fullManifest : BackupSnapshotManifest)
    (incrementals : List BackupSnapshotManifest) : Except BackupError TableRows := do
  let tables ← loadTableExports s fullManifest
  incrementals.foldlM (fun tableRows manifest => do
    let changes ← loadChangeExports s manifest
    pure (changes.foldl applyChange tableRows)) (tables.foldl insertTable ∅)

def tombstonedObjects (chain : List BackupSnapshotManifest) : List Uuid :=
  (chain.flatMap (·.tombstones)).filterMap (·.objectId)

def compactObjectEntries (chain : List BackupSnapshotManifest) : List ObjectBackupEntry :=
  let tombstoned := tombstonedObjects chain
  let kept := (chain.flatMap (·.objects)).filter fun object => object.objectId ∉ tombstoned
  let objectsById : AList fun _ : Uuid => ObjectBackupEntry :=
    kept.foldl (fun objects object => objects.insert object.objectId object) ∅
  (objectsById.entries.map (·.2)).mergeSort fun left right =>
    left.objectId.ordKey ≤ right.objectId.ordKey

def emptyChain : Except BackupError α := invalidChain "manifest chain is empty"

def writeRows (snapshotId : Uuid) (table : String × Std.TreeMap String BackupRow) :
    BackupM TableBackupEntry :=
  writePayload (databaseTableKey snapshotId table.1) table.1 table.2.values

/-- The manifest of a compacted chain, before its checksum is set. -/
def syntheticManifest (request : CompactChainRequest) (latest : BackupSnapshotManifest)
    (tableEntries : List TableBackupEntry) (objectEntries : List ObjectBackupEntry) :
    BackupSnapshotManifest where
  formatVersion := BACKUP_FORMAT_VERSION
  snapshotId := request.snapshotId
  parentSnapshotId := none
  createdAt := request.createdAt
  appId := request.appId
  appVersion := request.appVersion
  graphqlOrmSchemaVersion := latest.graphqlOrmSchemaVersion
  graphqlOrmSchemaHash := latest.graphqlOrmSchemaHash
  databaseBackend := latest.databaseBackend
  backupKind := .syntheticFull
  database := {
    exportFormat := DATABASE_EXPORT_FORMAT
    compression := .zstd
    rowCount := totalRowCount tableEntries
    tableCount := tableEntries.length
    tables := tableEntries
    changes := [] }
  objects := objectEntries
  tombstones := []
  checksum := ""

def compactChainInner (order : BackupSnapshotManifest → CompletionOrder)
    (request : CompactChainRequest) : BackupM CompactChainResult := do
  let chain ← read fun s => loadVerifiedChain order s request.sourceSnapshotId
  let fullManifest ← Fallible.ofExcept ((chain.head?).elim emptyChain pure)
  let tableRows ← read fun s => compactRows s fullManifest chain.tail
  let tableEntries ← tableRows.toList.mapM' (writeRows request.snapshotId)
  let latest ← Fallible.ofExcept ((chain.getLast?).elim emptyChain pure)
  let manifest ←
    writeManifest (syntheticManifest request latest tableEntries (compactObjectEntries chain))
  pure { manifest }

def compactChainWithOptions (order : BackupSnapshotManifest → CompletionOrder)
    (request : CompactChainRequest) (options : BackupExecutionOptions) :
    BackupM CompactChainResult :=
  withLock options.lock (compactChainInner order request)

end Codec

end GraphqlOrmBackup
