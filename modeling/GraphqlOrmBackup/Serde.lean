import GraphqlOrmBackup.Crates
import GraphqlOrmBackup.Json.Codec
import GraphqlOrmBackup.Json.Injective

/-!
# The documents of the program

What `serde` derives for the types that are stored: structs are objects with
their fields in order, unit variants are strings, and options are `null` or the
value.  A missing field is an error unless it is an option or has a default.
-/

namespace GraphqlOrmBackup.Serde

open Json

/-! ## Documents -/

/-- The depth up to which `serde_json` reads. -/
def recursionLimit : Nat := 127

def toVec {α : Type} (style : Style) (c : Codec α) (a : α) : Except String Bytes :=
  if c.fits a then .ok (Text.utf8 ((c.encode a).write style 0)) else .error "number out of range"

def fromSlice {α : Type} (c : Codec α) (bytes : Bytes) : Except String α :=
  match ((Text.fromUtf8? bytes).bind (parse recursionLimit)).bind c.decode with
  | some a => .ok a
  | none => .error "invalid document"

section

variable {α : Type} {c : Codec α} {a : α} {style : Style} {doc : Bytes}

theorem toVec_eq_ok :
    toVec style c a = .ok doc ↔ c.fits a = true ∧ Text.utf8 ((c.encode a).write style 0) = doc := by
  rw [toVec]
  split
  · next h => simp [h]
  · next h => simp [h]

theorem fromSlice_eq_ok {bytes : Bytes} : fromSlice c bytes = .ok a ↔
    ∃ cs value, Text.fromUtf8? bytes = some cs ∧ parse recursionLimit cs = some value ∧
      c.decode value = some a := by
  rw [fromSlice]
  constructor
  · intro h
    split at h
    · next heq =>
      cases h
      rcases Option.bind_eq_some_iff.mp heq with ⟨value, hvalue, hdecode⟩
      rcases Option.bind_eq_some_iff.mp hvalue with ⟨cs, hcs, hparse⟩
      exact ⟨cs, value, hcs, hparse, hdecode⟩
    · cases h
  · intro h
    rcases h with ⟨cs, value, hcs, hparse, hdecode⟩
    rw [hcs, Option.bind_some, hparse, Option.bind_some, hdecode]

theorem fromSlice_toVec (hdepth : (c.encode a).depth ≤ recursionLimit)
    (hfloats : (c.encode a).ReadsFloats) (h : toVec style c a = .ok doc) :
    fromSlice c doc = .ok a := by
  rcases toVec_eq_ok.mp h with ⟨hfits, rfl⟩
  exact fromSlice_eq_ok.mpr ⟨_, _, Text.fromUtf8?_utf8 _,
    parse_write style hdepth (c.is64_encode a hfits) hfloats, c.decode_encode a hfits⟩

/-- A flat value has a document of its own. -/
theorem document_injective {b : α} {n : Nat} (hflat : (c.encode a).Flat n)
    (ha : c.fits a = true) (hb : c.fits b = true)
    (h : Text.utf8 ((c.encode a).write style 0) = Text.utf8 ((c.encode b).write style 0)) :
    a = b := by
  have henc := eq_of_write_eq hflat.floats (Text.utf8_injective h)
  have hback := c.decode_encode a ha
  rw [henc, c.decode_encode b hb] at hback
  exact (Option.some.inj hback).symm

end

/-! ## Scalars -/

def uuid : Codec Uuid :=
  Codec.string.map (fun s => Uuid.parseStr s.toList) toString fun id => by simp

theorem string_ne_null (s : String) : Codec.string.encode s ≠ .null := nofun

theorem uuid_ne_null (id : Uuid) : uuid.encode id ≠ .null := nofun

def optionString : Codec (Option String) := Codec.string.option string_ne_null

def optionUuid : Codec (Option Uuid) := uuid.option uuid_ne_null

/-! ## Rows and changes -/

def map : Codec Map where
  encode m := .object m.document
  decode
    | .object fields => some (Map.read fields)
    | _ => none
  fits m := is64Fields m.document
  decode_encode m _ := congrArg some m.read_document
  is64_encode _ h := h

def backupRowFields : Fields BackupRow :=
  ((Fields.field "table_name" Codec.string).seq <|
    (Fields.field "primary_key" Codec.string).seq <|
    (Fields.field "row_hash" Codec.string).seq <|
    Fields.field "values" map).map
      (fun (tableName, primaryKey, rowHash, values) => ⟨tableName, primaryKey, rowHash, values⟩)
      (fun row => (row.tableName, row.primaryKey, row.rowHash, row.values)) fun _ => rfl

def backupRow : Codec BackupRow := backupRowFields.record (by decide)

def backupChangeAction : Codec BackupChangeAction :=
  Codec.enum [(.create, "Create"), (.update, "Update"), (.delete, "Delete")]
    fun a => by cases a <;> rfl

def backupChangeExportFields : Fields BackupChangeExport :=
  ((Fields.field "table_name" Codec.string).seq <|
    (Fields.field "primary_key" Codec.string).seq <|
    (Fields.field "action" backupChangeAction).seq <|
    (Fields.fieldOr "row" (backupRow.option nofun) none).seq <|
    Fields.field "changed_at" Codec.i64).map
      (fun (tableName, primaryKey, action, row, changedAt) =>
        ⟨tableName, primaryKey, action, row, changedAt⟩)
      (fun change => (change.tableName, change.primaryKey, change.action, change.row,
        change.changedAt)) fun _ => rfl

def backupChangeExport : Codec BackupChangeExport := backupChangeExportFields.record (by decide)

/-! ## Manifests -/

def backupKind : Codec BackupKind :=
  Codec.enum [(.full, "Full"), (.incremental, "Incremental"), (.syntheticFull, "SyntheticFull")]
    fun a => by cases a <;> rfl

def backupCompression : Codec BackupCompression :=
  Codec.enum [(.none, "None"), (.zstd, "Zstd")] fun a => by cases a <;> rfl

def tableBackupEntry : Codec TableBackupEntry :=
  (((Fields.field "table_name" Codec.string).seq <|
    (Fields.field "row_count" Codec.u64).seq <|
    (Fields.field "content_key" Codec.string).seq <|
    Fields.field "sha256_hex" Codec.string).map
      (fun (tableName, rowCount, contentKey, sha256Hex) =>
        ⟨tableName, rowCount, contentKey, sha256Hex⟩)
      (fun entry => (entry.tableName, entry.rowCount, entry.contentKey, entry.sha256Hex))
      fun _ => rfl).record (by decide)

def databaseBackupManifest : Codec DatabaseBackupManifest :=
  (((Fields.field "export_format" Codec.string).seq <|
    (Fields.fieldOr "compression" backupCompression .none).seq <|
    (Fields.field "row_count" Codec.u64).seq <|
    (Fields.field "table_count" Codec.u64).seq <|
    (Fields.field "tables" tableBackupEntry.list).seq <|
    Fields.fieldOr "changes" tableBackupEntry.list []).map
      (fun (exportFormat, compression, rowCount, tableCount, tables, changes) =>
        ⟨exportFormat, compression, rowCount, tableCount, tables, changes⟩)
      (fun database => (database.exportFormat, database.compression, database.rowCount,
        database.tableCount, database.tables, database.changes)) fun _ => rfl).record (by decide)

def objectBackupEntry : Codec ObjectBackupEntry :=
  (((Fields.field "object_id" uuid).seq <|
    (Fields.field "storage_key" Codec.string).seq <|
    (Fields.field "content_key" Codec.string).seq <|
    (Fields.field "sha256_hex" Codec.string).seq <|
    (Fields.field "size_bytes" Codec.u64).seq <|
    Fields.fieldOr "mime_type" optionString none).map
      (fun (objectId, storageKey, contentKey, sha256Hex, sizeBytes, mimeType) =>
        ⟨objectId, storageKey, contentKey, sha256Hex, sizeBytes, mimeType⟩)
      (fun entry => (entry.objectId, entry.storageKey, entry.contentKey, entry.sha256Hex,
        entry.sizeBytes, entry.mimeType)) fun _ => rfl).record (by decide)

def backupTombstone : Codec BackupTombstone :=
  (((Fields.fieldOr "table_name" optionString none).seq <|
    (Fields.fieldOr "primary_key" optionString none).seq <|
    (Fields.fieldOr "object_id" optionUuid none).seq <|
    Fields.field "deleted_at" Codec.i64).map
      (fun (tableName, primaryKey, objectId, deletedAt) =>
        ⟨tableName, primaryKey, objectId, deletedAt⟩)
      (fun tombstone => (tombstone.tableName, tombstone.primaryKey, tombstone.objectId,
        tombstone.deletedAt)) fun _ => rfl).record (by decide)

def backupSnapshotManifest : Codec BackupSnapshotManifest :=
  (((Fields.field "format_version" Codec.u32).seq <|
    (Fields.field "snapshot_id" uuid).seq <|
    (Fields.fieldOr "parent_snapshot_id" optionUuid none).seq <|
    (Fields.field "created_at" Codec.i64).seq <|
    (Fields.field "app_id" Codec.string).seq <|
    (Fields.field "app_version" Codec.string).seq <|
    (Fields.field "graphql_orm_schema_version" Codec.string).seq <|
    (Fields.field "graphql_orm_schema_hash" Codec.string).seq <|
    (Fields.field "database_backend" Codec.string).seq <|
    (Fields.field "backup_kind" backupKind).seq <|
    (Fields.field "database" databaseBackupManifest).seq <|
    (Fields.field "objects" objectBackupEntry.list).seq <|
    (Fields.field "tombstones" backupTombstone.list).seq <|
    Fields.field "checksum" Codec.string).map
      (fun (formatVersion, snapshotId, parentSnapshotId, createdAt, appId, appVersion,
          graphqlOrmSchemaVersion, graphqlOrmSchemaHash, databaseBackend, backupKind, database,
          objects, tombstones, checksum) =>
        ⟨formatVersion, snapshotId, parentSnapshotId, createdAt, appId, appVersion,
          graphqlOrmSchemaVersion, graphqlOrmSchemaHash, databaseBackend, backupKind, database,
          objects, tombstones, checksum⟩)
      (fun m => (m.formatVersion, m.snapshotId, m.parentSnapshotId, m.createdAt, m.appId,
        m.appVersion, m.graphqlOrmSchemaVersion, m.graphqlOrmSchemaHash, m.databaseBackend,
        m.backupKind, m.database, m.objects, m.tombstones, m.checksum)) fun _ => rfl).record
    (by decide)

/-- The view is only ever written. -/
def checksumManifestView : Codec ChecksumManifestView :=
  (((Fields.field "format_version" Codec.u32).seq <|
    (Fields.field "snapshot_id" uuid).seq <|
    (Fields.field "parent_snapshot_id" optionUuid).seq <|
    (Fields.field "created_at" Codec.i64).seq <|
    (Fields.field "app_id" Codec.string).seq <|
    (Fields.field "app_version" Codec.string).seq <|
    (Fields.field "graphql_orm_schema_version" Codec.string).seq <|
    (Fields.field "graphql_orm_schema_hash" Codec.string).seq <|
    (Fields.field "database_backend" Codec.string).seq <|
    (Fields.field "backup_kind" backupKind).seq <|
    (Fields.field "database" databaseBackupManifest).seq <|
    (Fields.field "objects" objectBackupEntry.list).seq <|
    (Fields.field "tombstones" backupTombstone.list).seq <|
    Fields.field "checksum" Codec.string).map
      (fun (formatVersion, snapshotId, parentSnapshotId, createdAt, appId, appVersion,
          graphqlOrmSchemaVersion, graphqlOrmSchemaHash, databaseBackend, backupKind, database,
          objects, tombstones, checksum) =>
        ⟨formatVersion, snapshotId, parentSnapshotId, createdAt, appId, appVersion,
          graphqlOrmSchemaVersion, graphqlOrmSchemaHash, databaseBackend, backupKind, database,
          objects, tombstones, checksum⟩)
      (fun m => (m.formatVersion, m.snapshotId, m.parentSnapshotId, m.createdAt, m.appId,
        m.appVersion, m.graphqlOrmSchemaVersion, m.graphqlOrmSchemaHash, m.databaseBackend,
        m.backupKind, m.database, m.objects, m.tombstones, m.checksum)) fun _ => rfl).record
    (by decide)

/-! ## Manifests are flat -/

theorem flat_uuid : uuid.Flat 0 := Codec.flat_string.map _

theorem flat_tableBackupEntry : tableBackupEntry.Flat 1 :=
  (Fields.Flat.map ((Codec.flat_string.field _).seq <| ((Codec.flat_nat _).field _).seq <|
    (Codec.flat_string.field _).seq <| Codec.flat_string.field _) _).record _

theorem flat_databaseBackupManifest : databaseBackupManifest.Flat 3 := by
  have hstring : Codec.string.Flat 2 := Codec.flat_string.mono (by decide)
  have hcompression : backupCompression.Flat 2 := (Codec.flat_enum _).mono (by decide)
  have hcount : Codec.u64.Flat 2 := (Codec.flat_nat _).mono (by decide)
  have hentries : tableBackupEntry.list.Flat 2 := flat_tableBackupEntry.list
  exact (Fields.Flat.map ((hstring.field _).seq <| (hcompression.fieldOr _ _).seq <|
    (hcount.field _).seq <| (hcount.field _).seq <| (hentries.field _).seq <|
    hentries.fieldOr _ _) _).record _

theorem flat_objectBackupEntry : objectBackupEntry.Flat 1 :=
  (Fields.Flat.map ((flat_uuid.field _).seq <| (Codec.flat_string.field _).seq <|
    (Codec.flat_string.field _).seq <| (Codec.flat_string.field _).seq <|
    ((Codec.flat_nat _).field _).seq <| (Codec.flat_string.option _).fieldOr _ _) _).record _

theorem flat_backupTombstone : backupTombstone.Flat 1 :=
  (Fields.Flat.map (((Codec.flat_string.option _).fieldOr _ _).seq <|
    ((Codec.flat_string.option _).fieldOr _ _).seq <| ((flat_uuid.option _).fieldOr _ _).seq <|
    (Codec.flat_int _ _).field _) _).record _

theorem flat_backupSnapshotManifest : backupSnapshotManifest.Flat 4 := by
  have hversion : Codec.u32.Flat 3 := (Codec.flat_nat _).mono (by decide)
  have htime : Codec.i64.Flat 3 := (Codec.flat_int _ _).mono (by decide)
  have hstring : Codec.string.Flat 3 := Codec.flat_string.mono (by decide)
  have hid : uuid.Flat 3 := flat_uuid.mono (by decide)
  have hkind : backupKind.Flat 3 := (Codec.flat_enum _).mono (by decide)
  have hobjects : objectBackupEntry.list.Flat 3 := flat_objectBackupEntry.list.mono (by decide)
  have htombstones : backupTombstone.list.Flat 3 := flat_backupTombstone.list.mono (by decide)
  exact (Fields.Flat.map ((hversion.field _).seq <| (hid.field _).seq <|
    ((hid.option _).fieldOr _ _).seq <| (htime.field _).seq <| (hstring.field _).seq <|
    (hstring.field _).seq <| (hstring.field _).seq <| (hstring.field _).seq <|
    (hstring.field _).seq <| (hkind.field _).seq <| (flat_databaseBackupManifest.field _).seq <|
    (hobjects.field _).seq <| (htombstones.field _).seq <| hstring.field _) _).record _

/-! ## The range of what is read -/

theorem sound_uuid : uuid.Sound := fun _ _ _ => rfl

theorem sound_tableBackupEntry : tableBackupEntry.Sound :=
  (Fields.Sound.map ((Codec.sound_string.field _).seq <| ((Codec.sound_nat _).field _).seq <|
    (Codec.sound_string.field _).seq <| Codec.sound_string.field _) _ fun _ => rfl).record _

theorem sound_databaseBackupManifest : databaseBackupManifest.Sound :=
  (Fields.Sound.map ((Codec.sound_string.field _).seq <| ((Codec.sound_enum _).fieldOr _ rfl).seq <|
    ((Codec.sound_nat _).field _).seq <| ((Codec.sound_nat _).field _).seq <|
    (sound_tableBackupEntry.list.field _).seq <| sound_tableBackupEntry.list.fieldOr _ rfl) _
    fun _ => rfl).record _

theorem sound_objectBackupEntry : objectBackupEntry.Sound :=
  (Fields.Sound.map ((sound_uuid.field _).seq <| (Codec.sound_string.field _).seq <|
    (Codec.sound_string.field _).seq <| (Codec.sound_string.field _).seq <|
    ((Codec.sound_nat _).field _).seq <| (Codec.sound_string.option _).fieldOr _ rfl) _
    fun _ => rfl).record _

theorem sound_backupTombstone : backupTombstone.Sound :=
  (Fields.Sound.map (((Codec.sound_string.option _).fieldOr _ rfl).seq <|
    ((Codec.sound_string.option _).fieldOr _ rfl).seq <| ((sound_uuid.option _).fieldOr _ rfl).seq <|
    (Codec.sound_int _ _).field _) _ fun _ => rfl).record _

/-- The numbers of a manifest that is read fit its fields. -/
theorem sound_backupSnapshotManifest : backupSnapshotManifest.Sound :=
  (Fields.Sound.map (((Codec.sound_nat _).field _).seq <| (sound_uuid.field _).seq <|
    ((sound_uuid.option _).fieldOr _ rfl).seq <| ((Codec.sound_int _ _).field _).seq <|
    (Codec.sound_string.field _).seq <| (Codec.sound_string.field _).seq <|
    (Codec.sound_string.field _).seq <| (Codec.sound_string.field _).seq <|
    (Codec.sound_string.field _).seq <| ((Codec.sound_enum _).field _).seq <|
    (sound_databaseBackupManifest.field _).seq <| (sound_objectBackupEntry.list.field _).seq <|
    (sound_backupTombstone.list.field _).seq <| Codec.sound_string.field _) _ fun _ => rfl).record _

end GraphqlOrmBackup.Serde
