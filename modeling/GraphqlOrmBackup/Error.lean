/-!
# Errors

`error.rs`: the errors of the crate.  Foreign error values (`serde_json::Error`,
`std::io::Error`, `StorageError`) are their texts.
-/

namespace GraphqlOrmBackup

inductive BackupError where
  | unsupportedProvider (provider : String)
  | invalidRepositoryKey (key : String)
  | invalidRepositoryRoot (path : String)
  | missingBlob (key : String)
  | checksumMismatch (key expected actual : String)
  | restoreTargetNotEmpty
  | restoreSchemaMismatch (backupBackend backupSchemaHash targetBackend targetSchemaHash : String)
  | invalidColumnBackupPolicyOverride (tableName columnName reason : String)
  | invalidRestoreContext (reason : String)
  | invalidManifestChain (reason : String)
  | repositoryLocked (lockKey : String)
  | compression (source : String)
  | storage (source : String)
  | unsupportedOperation (operation : String)
  | database (message : String)
  | serialization (source : String)
  | io (path source : String)
deriving DecidableEq, Repr

end GraphqlOrmBackup
