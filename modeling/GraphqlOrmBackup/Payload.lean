import GraphqlOrmBackup.Crates
import GraphqlOrmBackup.Repository
import GraphqlOrmBackup.Interaction.Outcome

/-!
# Payloads

A payload blob holds the rows of a table or the changes of a table, one JSON
document a line, compressed.  `serialize_jsonl_entries` of `backup.rs` writes
it; `load_jsonl_entries` of `restore.rs` reads it.
-/

namespace GraphqlOrmBackup

open Interaction

def DATABASE_EXPORT_FORMAT : String := "jsonl"

section Generic

variable [Zstd] {T : Type}

/-- Each entry's document with a line feed after it. -/
def jsonLines (docs : List Bytes) : Bytes := docs.flatMap (· ++ [10])

def serializeJsonlEntries [SerializeJson T] (entries : List T) : Except BackupError Bytes := do
  let docs ← entries.mapM' fun entry => (SerializeJson.toVec entry).mapError .serialization
  compressPayload (jsonLines docs)

def decodePayload (bytes : Bytes) : BackupCompression → Except BackupError Bytes
  | .none => pure bytes
  | .zstd => decompressPayload bytes

/-- The pieces between line feeds, empty ones skipped. -/
def payloadLines (payload : Bytes) : List Bytes :=
  (payload.splitOn 10).filter fun line => !line.isEmpty

def parseJsonl [DeserializeJson T] (payload : Bytes) : Except BackupError (List T) :=
  (payloadLines payload).mapM' fun line => (DeserializeJson.fromSlice line).mapError .serialization

def loadJsonlEntries [DeserializeJson T] (s : Store) (manifest : BackupSnapshotManifest)
    (entry : TableBackupEntry) : Except BackupError (List T) := do
  if manifest.database.exportFormat ≠ DATABASE_EXPORT_FORMAT then
    throw (.unsupportedOperation
      ("database export format " ++ manifest.database.exportFormat))
  let stored ← s.getBlob entry.contentKey
  let payload ← decodePayload stored manifest.database.compression
  parseJsonl payload

theorem loadJsonlEntries_of_format [DeserializeJson T] {manifest : BackupSnapshotManifest}
    (hformat : manifest.database.exportFormat = DATABASE_EXPORT_FORMAT) (s : Store)
    (entry : TableBackupEntry) :
    loadJsonlEntries (T := T) s manifest entry = s.getBlob entry.contentKey >>= fun stored =>
      decodePayload stored manifest.database.compression >>= parseJsonl := by
  simp [loadJsonlEntries, hformat]

/-! ### Round trip -/

omit [Zstd] in
theorem payloadLines_nil : payloadLines [] = [] := rfl

omit [Zstd] in
/-- A non-empty line is split off at its line feed. -/
theorem payloadLines_line {line : Bytes} (hne : line ≠ []) (hline : 10 ∉ line) (rest : Bytes) :
    payloadLines (line ++ 10 :: rest) = line :: payloadLines rest := by
  rw [payloadLines, List.splitOn_append_cons_self_of_not_mem hline, List.filter_cons_of_pos]
  · rfl
  · simpa using hne

omit [Zstd] in
theorem payloadLines_jsonLines {docs : List Bytes} (hne : ∀ doc ∈ docs, doc ≠ [])
    (hline : ∀ doc ∈ docs, 10 ∉ doc) : payloadLines (jsonLines docs) = docs := by
  induction docs with
  | nil => exact payloadLines_nil
  | cons doc docs ih =>
    rw [List.forall_mem_cons] at hne hline
    rw [jsonLines, List.flatMap_cons, List.append_assoc]
    change payloadLines (doc ++ 10 :: jsonLines docs) = doc :: docs
    rw [payloadLines_line hne.1 hline.1, ih hne.2 hline.2]

omit [Zstd] in
/-- Documents that are read back make up a payload that is parsed back. -/
theorem parseJsonl_jsonLines [SerializeJson T] [DeserializeJson T] {entries : List T}
    {docs : List Bytes} (hread : ∀ entry ∈ entries, ReadsBack entry)
    (hdocs : List.Forall₂ (fun entry doc => SerializeJson.toVec entry = .ok doc) entries docs) :
    parseJsonl (jsonLines docs) = .ok entries := by
  have hback : List.Forall₂ (fun doc entry => (doc ≠ [] ∧ 10 ∉ doc) ∧
      (DeserializeJson.fromSlice doc).mapError BackupError.serialization = .ok entry)
      docs entries := by
    apply ((List.forall₂_and_left _ _).mpr ⟨hread, hdocs⟩).flip.imp
    rintro doc entry ⟨hentry, hvec⟩
    exact ⟨⟨hentry.ne_nil doc hvec, hentry.oneLine doc hvec⟩,
      mapError_eq_ok.mpr (hentry.fromSlice doc hvec)⟩
  obtain ⟨hlines, hparse⟩ := (List.forall₂_and_left _ _).mp hback
  rw [parseJsonl, payloadLines_jsonLines (fun doc h => (hlines doc h).1)
    fun doc h => (hlines doc h).2, mapM'_eq_ok]
  exact hparse

/-- **Payload round trip.** -/
theorem parseJsonl_of_serializeJsonlEntries [SerializeJson T] [DeserializeJson T]
    (hzstd : ZstdLossless) {entries : List T} {bytes : Bytes}
    (hread : ∀ entry ∈ entries, ReadsBack entry)
    (h : serializeJsonlEntries entries = .ok bytes) :
    (decodePayload bytes .zstd >>= parseJsonl) = Except.ok entries := by
  simp only [serializeJsonlEntries, bind_eq_ok, mapM'_eq_ok, mapError_eq_ok, compressPayload] at h
  rcases h with ⟨docs, hdocs, hstored⟩
  rw [bind_eq_ok]
  exact ⟨jsonLines docs, mapError_eq_ok.mpr (hzstd _ _ hstored), parseJsonl_jsonLines hread hdocs⟩

/-- What is loaded is what the payload is parsed as. -/
theorem loadJsonlEntries_of_parse [DeserializeJson T] {s : Store}
    {manifest : BackupSnapshotManifest} {entry : TableBackupEntry} {entries : List T}
    {bytes : Bytes} (hformat : manifest.database.exportFormat = DATABASE_EXPORT_FORMAT)
    (hcompression : manifest.database.compression = .zstd)
    (hblob : s.lookup entry.contentKey = some bytes)
    (hparse : (decompressPayload bytes >>= parseJsonl) = Except.ok entries) :
    loadJsonlEntries s manifest entry = .ok entries := by
  rw [loadJsonlEntries_of_format hformat, Store.getBlob_eq_ok.mpr hblob, hcompression]
  exact hparse

/-- A written payload is loaded back from the store. -/
theorem loadJsonlEntries_eq_ok [SerializeJson T] [DeserializeJson T] (hzstd : ZstdLossless)
    {s : Store} {manifest : BackupSnapshotManifest} {entry : TableBackupEntry}
    {entries : List T} {bytes : Bytes} (hread : ∀ entry ∈ entries, ReadsBack entry)
    (hformat : manifest.database.exportFormat = DATABASE_EXPORT_FORMAT)
    (hzstdFormat : manifest.database.compression = .zstd)
    (hblob : s.lookup entry.contentKey = some bytes)
    (h : serializeJsonlEntries entries = .ok bytes) :
    loadJsonlEntries s manifest entry = .ok entries :=
  loadJsonlEntries_of_parse hformat hzstdFormat hblob
    (parseJsonl_of_serializeJsonlEntries hzstd hread h)

end Generic

/-! ## The payloads of a manifest -/

variable [Crates]

def serializeTableExport (table : BackupTableExport) : Except BackupError Bytes :=
  serializeJsonlEntries table.rows

def loadTableExports (s : Store) (manifest : BackupSnapshotManifest) :
    Except BackupError (List BackupTableExport) :=
  manifest.database.tables.mapM' fun table => do
    let rows ← loadJsonlEntries s manifest table
    pure ⟨table.tableName, rows⟩

def loadChangeExports (s : Store) (manifest : BackupSnapshotManifest) :
    Except BackupError (List BackupChangeExport) := do
  let changes ← manifest.database.changes.mapM' fun table => loadJsonlEntries s manifest table
  pure changes.flatten

end GraphqlOrmBackup
