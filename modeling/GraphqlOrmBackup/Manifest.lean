import GraphqlOrmBackup.Uuid

/-!
# Manifests

The manifest types of `manifest.rs`.
-/

namespace GraphqlOrmBackup

def BACKUP_FORMAT_VERSION : Nat := 1

inductive BackupKind where
  | full
  | incremental
  | syntheticFull
deriving DecidableEq, Repr

inductive BackupCompression where
  | none
  | zstd
deriving DecidableEq, Repr

structure TableBackupEntry where
  tableName : String
  rowCount : Nat
  contentKey : String
  sha256Hex : String
deriving DecidableEq

structure DatabaseBackupManifest where
  exportFormat : String
  compression : BackupCompression
  rowCount : Nat
  tableCount : Nat
  tables : List TableBackupEntry
  changes : List TableBackupEntry
deriving DecidableEq

structure ObjectBackupEntry where
  objectId : Uuid
  storageKey : String
  contentKey : String
  sha256Hex : String
  sizeBytes : Nat
  mimeType : Option String
deriving DecidableEq

structure BackupTombstone where
  tableName : Option String
  primaryKey : Option String
  objectId : Option Uuid
  deletedAt : Int
deriving DecidableEq

structure BackupSnapshotManifest where
  formatVersion : Nat
  snapshotId : Uuid
  parentSnapshotId : Option Uuid
  createdAt : Int
  appId : String
  appVersion : String
  graphqlOrmSchemaVersion : String
  graphqlOrmSchemaHash : String
  databaseBackend : String
  backupKind : BackupKind
  database : DatabaseBackupManifest
  objects : List ObjectBackupEntry
  tombstones : List BackupTombstone
  checksum : String
deriving DecidableEq

/-- The fields of a manifest in the order in which they are hashed. -/
structure ChecksumManifestView where
  formatVersion : Nat
  snapshotId : Uuid
  parentSnapshotId : Option Uuid
  createdAt : Int
  appId : String
  appVersion : String
  graphqlOrmSchemaVersion : String
  graphqlOrmSchemaHash : String
  databaseBackend : String
  backupKind : BackupKind
  database : DatabaseBackupManifest
  objects : List ObjectBackupEntry
  tombstones : List BackupTombstone
  checksum : String
deriving DecidableEq

def ChecksumManifestView.from (manifest : BackupSnapshotManifest) : ChecksumManifestView where
  formatVersion := manifest.formatVersion
  snapshotId := manifest.snapshotId
  parentSnapshotId := manifest.parentSnapshotId
  createdAt := manifest.createdAt
  appId := manifest.appId
  appVersion := manifest.appVersion
  graphqlOrmSchemaVersion := manifest.graphqlOrmSchemaVersion
  graphqlOrmSchemaHash := manifest.graphqlOrmSchemaHash
  databaseBackend := manifest.databaseBackend
  backupKind := manifest.backupKind
  database := manifest.database
  objects := manifest.objects
  tombstones := manifest.tombstones
  checksum := ""

end GraphqlOrmBackup
