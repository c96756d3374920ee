import GraphqlOrmBackup.Foreign
import GraphqlOrmBackup.Manifest
import GraphqlOrmBackup.Database

/-!
# The foreign crates at the types of the program

`serde_json` is used for rows and changes (one compact document a line), for
the checksum view of a manifest, and for manifests themselves, which are
written indented.
-/

namespace GraphqlOrmBackup

class Crates extends Sha2, Zstd where
  rowToVec : BackupRow → Except String Bytes
  rowFromSlice : Bytes → Except String BackupRow
  changeToVec : BackupChangeExport → Except String Bytes
  changeFromSlice : Bytes → Except String BackupChangeExport
  viewToVec : ChecksumManifestView → Except String Bytes
  manifestToVecPretty : BackupSnapshotManifest → Except String Bytes
  manifestFromSlice : Bytes → Except String BackupSnapshotManifest
  /-- The number of nested containers up to which a document is read. -/
  recursionLimit : Nat
  /-- The float comes back from the decimal that is written for it.  Without its
      feature `float_roundtrip`, `serde_json` reads decimals in best effort. -/
  ReadsFloat : Binary64 → Prop

variable [Crates]

instance : SerializeJson BackupRow := ⟨Crates.rowToVec⟩
instance : DeserializeJson BackupRow := ⟨Crates.rowFromSlice⟩
instance : SerializeJson BackupChangeExport := ⟨Crates.changeToVec⟩
instance : DeserializeJson BackupChangeExport := ⟨Crates.changeFromSlice⟩
instance : SerializeJson ChecksumManifestView := ⟨Crates.viewToVec⟩
instance : DeserializeJson BackupSnapshotManifest := ⟨Crates.manifestFromSlice⟩

/-- `serde_json` reads back every manifest it writes. -/
def ManifestsReadBack : Prop :=
  ∀ (manifest : BackupSnapshotManifest) doc, Crates.manifestToVecPretty manifest = .ok doc →
    DeserializeJson.fromSlice doc = .ok manifest

def BackupRow.ReadsFloats (row : BackupRow) : Prop :=
  ∀ x ∈ row.floats, Crates.ReadsFloat x

/-- The row is within what `serde_json` reads. -/
structure BackupRow.Readable (row : BackupRow) : Prop where
  depth : row.depth ≤ Crates.recursionLimit
  floats : row.ReadsFloats

structure BackupChangeExport.Readable (change : BackupChangeExport) : Prop where
  depth : change.depth ≤ Crates.recursionLimit
  floats : ∀ row, change.row = some row → row.ReadsFloats

/-- `serde_json` reads back the rows it writes, up to its recursion limit, and
    reads no row that is nested deeper. -/
structure RowsReadBack : Prop where
  readsBack : ∀ row : BackupRow, row.Readable → ReadsBack row
  depth_le : ∀ doc (row : BackupRow), DeserializeJson.fromSlice doc = .ok row →
    row.depth ≤ Crates.recursionLimit

/-- The same for changes. -/
structure ChangesReadBack : Prop where
  readsBack : ∀ change : BackupChangeExport, change.Readable → ReadsBack change
  depth_le : ∀ doc (change : BackupChangeExport), DeserializeJson.fromSlice doc = .ok change →
    change.depth ≤ Crates.recursionLimit

/-- The crates read back what they write. -/
structure CratesReadBack : Prop where
  zstd : ZstdLossless
  rows : RowsReadBack
  changes : ChangesReadBack
  manifests : ManifestsReadBack

end GraphqlOrmBackup
