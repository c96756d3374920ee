import GraphqlOrmBackup.OrmAdapter

/-!
# The object index for `graphql-orm`

`OrmBackupObjectIndex` of `orm.rs`: a table that records the stored objects, and
the primary blob store of the application.  A checksum that the table does not
record is taken of the blob.
-/

namespace GraphqlOrmBackup

/-! ## The primary blob store -/

/-- `StorageError` of `graphql-orm-storage`; the variants that are not told apart
    are their texts. -/
inductive StorageError where
  | unsupportedBackend (backend : String)
  | invalidStorageKey (key : String)
  | missingBlob (key : String)
  | io (path source : String)
  | other (source : String)

/-- `From<StorageError>` for `BackupError`. -/
def BackupError.ofStorageError : StorageError → BackupError
  | .unsupportedBackend backend => .unsupportedProvider backend
  | .invalidStorageKey key => .invalidRepositoryKey key
  | .missingBlob key => .missingBlob key
  | .io path source => .io path source
  | .other source => .storage source

/-- What the store answers to `get_blob`, and what the body then yields. -/
structure BlobStore where
  getBlob : String → Except StorageError (Except StorageError Bytes)

def loadBlob (store : BlobStore) (storageKey : String) : Except BackupError Bytes := do
  let body ← (store.getBlob storageKey).mapError .ofStorageError
  body.mapError .ofStorageError

/-! ## Values -/

/-- `BackupValue` of `graphql-orm`, up to the variants that the index reads. -/
inductive OrmValue (β : Type) where
  | uuid (value : Uuid)
  | string (value : String)
  | integer (value : Int)
  | other (value : β)

/-- The texts of foreign values in errors. -/
class OrmValueTexts (β : Type) where
  debug : OrmValue β → String
  /-- The text of the error of `Uuid::parse_str`. -/
  uuidError : String → String

section Values

variable {β : Type}

def rowValue (row : OrmBackupRow (OrmValue β)) (column : String) :
    Except BackupError (OrmValue β) :=
  match row.values[column]? with
  | some value => pure value
  | none => throw (.database ("object index row " ++ row.primaryKey ++ " in table " ++
      row.tableName ++ " is missing column " ++ column))

def rowUuid [OrmValueTexts β] (row : OrmBackupRow (OrmValue β)) (column : String) :
    Except BackupError Uuid := do
  let value ← rowValue row column
  match value with
  | .uuid value => pure value
  | .string value =>
      match Uuid.parseStr value.toList with
      | some id => pure id
      | none => throw (.database ("object index column " ++ column ++ " in table " ++
          row.tableName ++ " is not a uuid: " ++ OrmValueTexts.uuidError β value))
  | other => throw (.database ("object index column " ++ column ++ " in table " ++
      row.tableName ++ " has unsupported uuid value " ++ OrmValueTexts.debug other))

def rowString [OrmValueTexts β] (row : OrmBackupRow (OrmValue β)) (column : String) :
    Except BackupError String := do
  let value ← rowValue row column
  match value with
  | .string value => pure value
  | other => throw (.database ("object index column " ++ column ++ " in table " ++
      row.tableName ++ " has unsupported string value " ++ OrmValueTexts.debug other))

/-- `char::is_whitespace`: the characters with the property `White_Space`. -/
def isWhiteSpace (c : Char) : Bool :=
  let code := c.toNat
  (9 ≤ code && code ≤ 13) || code == 0x20 || code == 0x85 || code == 0xA0 || code == 0x1680 ||
    (0x2000 ≤ code && code ≤ 0x200A) || code == 0x2028 || code == 0x2029 || code == 0x202F ||
    code == 0x205F || code == 0x3000

/-- A text that is empty when it is trimmed counts as none. -/
def rowOptionalString (row : OrmBackupRow (OrmValue β)) (column : String) : Option String :=
  match row.values[column]? with
  | some (.string value) => if value.toList.all isWhiteSpace then none else some value
  | _ => none

def rowOptionalI64 (row : OrmBackupRow (OrmValue β)) (column : String) : Option Int :=
  match row.values[column]? with
  | some (.integer value) => some value
  | _ => none

end Values

/-- The source counts bytes; hexadecimal digits are one byte each. -/
def isValidSha256Hex (value : String) : Bool :=
  value.toList.length == 64 && value.toList.all fun c => (Hex.value? c).isSome

def toAsciiLowercase (value : String) : String := String.ofList (value.toList.map Char.toLower)

/-! ## The index -/

structure OrmObjectIndexColumns where
  tableName : String
  objectIdColumn : String
  storageKeyColumn : String
  sha256HexColumn : String
  sizeBytesColumn : String
  mimeTypeColumn : Option String

structure OrmBackupObjectIndex (β δ γ S : Type) where
  database : OrmDatabase (OrmValue β) δ γ S
  columns : OrmObjectIndexColumns
  store : BlobStore

namespace OrmBackupObjectIndex

variable {β δ γ S : Type} [OrmValueTexts β] [Sha2] (index : OrmBackupObjectIndex β δ γ S)

def objectTableDescriptor : Except BackupError (OrmDescriptor δ γ) :=
  match index.database.listBackupEntities.find? fun descriptor =>
    descriptor.tableName = index.columns.tableName with
  | some descriptor => pure descriptor
  | none => throw (.database ("object index table " ++ index.columns.tableName ++
      " is not a backup-enabled entity"))

/-- The checksum and the size: those of the row if they can be, or else those of
    the blob. -/
def checksumOf (row : OrmBackupRow (OrmValue β)) (storageKey : String) :
    Except BackupError (String × Nat) :=
  let hashed : Except BackupError (String × Nat) := do
    let bytes ← loadBlob index.store storageKey
    pure (sha256Hex bytes, bytes.length)
  match rowOptionalString row index.columns.sha256HexColumn,
    rowOptionalI64 row index.columns.sizeBytesColumn with
  | some recorded, some sizeBytes =>
      if isValidSha256Hex recorded ∧ 0 ≤ sizeBytes then
        pure (toAsciiLowercase recorded, sizeBytes.toNat)
      else hashed
  | _, _ => hashed

def objectRefFromRow (row : OrmBackupRow (OrmValue β)) : Except BackupError BackupObjectRef := do
  let objectId ← rowUuid row index.columns.objectIdColumn
  let storageKey ← rowString row index.columns.storageKeyColumn
  let mimeType := index.columns.mimeTypeColumn.bind (rowOptionalString row)
  let (sha256Hex, sizeBytes) ← index.checksumOf row storageKey
  pure { objectId, storageKey, sha256Hex, sizeBytes, mimeType }

/-- The rows of the table, as one snapshot of the database has them. -/
def objectRows : Except BackupError (List (OrmBackupRow (OrmValue β))) := do
  let descriptor ← index.objectTableDescriptor
  let snapshot ← index.database.beginConsistentSnapshot.mapError
    (databaseError "begin object index snapshot")
  (index.database.exportTableRows snapshot descriptor).mapError
    (databaseError ("export object index table " ++ descriptor.tableName))

def listObjectsForFullBackup : Except BackupError (List BackupObjectRef) := do
  let rows ← index.objectRows
  rows.mapM' index.objectRefFromRow

def listObjectsForIncrementalBackup (_sinceSnapshotId : Uuid) :
    Except BackupError (List BackupObjectRef) :=
  throw (.unsupportedOperation
    "incremental object discovery requires a graphql-orm change journal integration")

def loadObject (object : BackupObjectRef) : Except BackupError Bytes :=
  loadBlob index.store object.storageKey

/-- The trait's `load_object_stream`: the stream of bytes that have been loaded. -/
def loadObjectStream (object : BackupObjectRef) : Except BackupError StorageByteStream := do
  let bytes ← index.loadObject object
  pure (.ok bytes)

/-- The index as the trait describes it; the store does not change while it is
    read. -/
def toObjectIndex : BackupObjectIndex where
  listObjectsForFullBackup := index.listObjectsForFullBackup
  listObjectsForIncrementalBackup := listObjectsForIncrementalBackup
  loadObjectStream := fun object r => r = index.loadObjectStream object

end OrmBackupObjectIndex

end GraphqlOrmBackup
