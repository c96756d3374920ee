import GraphqlOrmBackup.Error
import GraphqlOrmBackup.Hex

/-!
# Foreign functions

The interfaces of `sha2`, `zstd` and `serde_json` through which the program
uses them.  They are parameters: a theorem that relies on how one of them
behaves says so in a hypothesis, in the terms of the predicates of this file.
-/

namespace GraphqlOrmBackup

abbrev Bytes := List UInt8

/-- `sha2::Sha256`. -/
class Sha2 where
  digest : Bytes → Vector UInt8 32

/-- `zstd::stream`. -/
class Zstd where
  encode : Bytes → Except String Bytes
  decode : Bytes → Except String Bytes

/-- `serde::Serialize`, as `serde_json::to_vec` and `to_writer` use it. -/
class SerializeJson (α : Type) where
  toVec : α → Except String Bytes

/-- `serde::de::DeserializeOwned`, as `serde_json::from_slice` uses it. -/
class DeserializeJson (α : Type) where
  fromSlice : Bytes → Except String α

def sha256Hex [Sha2] (bytes : Bytes) : String :=
  String.ofList (Hex.encode (Sha2.digest bytes).toList)

theorem slash_notMem_sha256Hex [Sha2] (bytes : Bytes) : '/' ∉ (sha256Hex bytes).toList := by
  rw [sha256Hex, String.toList_ofList]
  exact Hex.slash_notMem_encode _

/-- `compress_payload`: `zstd::stream::encode_all` at level 0. -/
def compressPayload [Zstd] (bytes : Bytes) : Except BackupError Bytes :=
  (Zstd.encode bytes).mapError .compression

def decompressPayload [Zstd] (bytes : Bytes) : Except BackupError Bytes :=
  (Zstd.decode bytes).mapError .compression

/-- `zstd` decodes what it encodes. -/
def ZstdLossless [Zstd] : Prop :=
  ∀ bytes stored, Zstd.encode bytes = .ok stored → Zstd.decode stored = .ok bytes

/-- `serde_json` reads back the compact document it writes for `a`, which is
    one non-empty line. -/
structure ReadsBack [SerializeJson α] [DeserializeJson α] (a : α) : Prop where
  fromSlice : ∀ doc, SerializeJson.toVec a = .ok doc → DeserializeJson.fromSlice doc = .ok a
  ne_nil : ∀ doc, SerializeJson.toVec a = .ok doc → doc ≠ []
  oneLine : ∀ doc, SerializeJson.toVec a = .ok doc → 10 ∉ doc

end GraphqlOrmBackup
