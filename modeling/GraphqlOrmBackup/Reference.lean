import GraphqlOrmBackup.Serde
import GraphqlOrmBackup.Sha256

/-!
# Reference crates

An implementation of the foreign functions that satisfies what is assumed of
them: SHA-256 itself, `serde_json` by the codecs of the stored types, and a
`zstd` that stores its input in one raw block.
-/

namespace GraphqlOrmBackup.Reference

open Json Serde

/-! ## Lines -/

/-- Only a line feed is encoded with the byte of a line feed. -/
theorem eq_of_lineFeed_mem {c : Char} (h : (10 : UInt8) ∈ String.utf8EncodeChar c) : c = '\n' := by
  have hbyte : ∀ n : Nat, (10 : UInt8) = UInt8.ofNat n → n % 256 = 10 := by
    intro n hn
    have hnat := congrArg UInt8.toNat hn
    simpa using hnat.symm
  rw [String.utf8EncodeChar] at h
  split at h
  · have hval := hbyte _ (List.mem_singleton.mp h)
    have hc : c.toNat = 10 := by
      change c.val.toNat = 10
      omega
    exact Char.toNat_inj.mp hc
  -- the bytes of longer encodings are at least 128
  · split at h
    · simp only [List.mem_cons, List.not_mem_nil, or_false] at h
      rcases h with h | h <;> have hval := hbyte _ h <;> omega
    · split at h
      · simp only [List.mem_cons, List.not_mem_nil, or_false] at h
        rcases h with h | h | h <;> have hval := hbyte _ h <;> omega
      · simp only [List.mem_cons, List.not_mem_nil, or_false] at h
        rcases h with h | h | h | h <;> have hval := hbyte _ h <;> omega

theorem lineFeed_notMem_utf8 {cs : List Char} (h : '\n' ∉ cs) : (10 : UInt8) ∉ Text.utf8 cs := by
  intro hmem
  rcases List.mem_flatMap.mp hmem with ⟨c, hc, hbyte⟩
  exact h (eq_of_lineFeed_mem hbyte ▸ hc)

theorem write_ne_nil (style : Style) (level : Nat) (value : Value) :
    value.write style level ≠ [] := by
  obtain ⟨first, rest, heq, _⟩ := starts_write style level value
  rw [heq]
  exact List.cons_ne_nil first rest

theorem utf8_ne_nil {cs : List Char} (h : cs ≠ []) : Text.utf8 cs ≠ [] := by
  intro hnil
  have hback := Text.fromUtf8?_utf8 cs
  rw [hnil] at hback
  exact h (Option.some.inj (hback.symm.trans (Text.fromUtf8?_utf8 [])))

/-! ## Depth -/

theorem depth_encode_backupRow (row : BackupRow) :
    (Serde.backupRow.encode row).depth = row.depth := by
  change max 0 (max 0 (max 0 (max (depthFields row.values.document + 1) 0))) + 1 = row.depth
  rw [BackupRow.depth]
  omega

theorem depth_encode_backupChangeExport (change : BackupChangeExport) :
    (Serde.backupChangeExport.encode change).depth = change.depth := by
  cases hrow : change.row with
  | none =>
    change max 0 (max 0 (max 0 (max ((change.row.map Serde.backupRow.encode).getD .null).depth
      (max 0 0)))) + 1 = change.depth
    rw [BackupChangeExport.depth, hrow]
    rfl
  | some row =>
    change max 0 (max 0 (max 0 (max ((change.row.map Serde.backupRow.encode).getD .null).depth
      (max 0 0)))) + 1 = change.depth
    rw [BackupChangeExport.depth, hrow, Option.map_some, Option.getD_some, depth_encode_backupRow]
    simp

theorem depth_le_of_decode_backupRow {value : Value} {row : BackupRow}
    (h : Serde.backupRow.decode value = some row) : row.depth ≤ value.depth := by
  obtain ⟨fields, rfl, hrecord⟩ := decode_record h
  obtain ⟨⟨tableName, primaryKey, rowHash, values⟩, hfields, rfl⟩ :=
    Option.map_eq_some_iff.mp hrecord
  obtain ⟨document, hlookup, hdecode⟩ :=
    decode_field (decode_seq.mp (decode_seq.mp (decode_seq.mp hfields).2).2).2
  have hle := depth_le_depthFields hlookup
  cases document with
  | object entries =>
    cases hdecode
    rw [Value.depth] at hle
    exact Nat.succ_le_succ (Nat.le_trans (Nat.succ_le_succ (Map.depth_read_le entries)) hle)
  | _ => cases hdecode

theorem depth_le_of_decode_backupChangeExport {value : Value} {change : BackupChangeExport}
    (h : Serde.backupChangeExport.decode value = some change) : change.depth ≤ value.depth := by
  obtain ⟨fields, rfl, hrecord⟩ := decode_record h
  obtain ⟨⟨tableName, primaryKey, action, row, changedAt⟩, hfields, rfl⟩ :=
    Option.map_eq_some_iff.mp hrecord
  have hrow := (decode_seq.mp (decode_seq.mp (decode_seq.mp (decode_seq.mp hfields).2).2).2).1
  cases row with
  | none => exact Nat.succ_le_succ (Nat.zero_le _)
  | some row =>
    apply Nat.succ_le_succ
    change (List.lookup "row" fields).elim (some none) _ = some (some row) at hrow
    cases hlookup : List.lookup "row" fields with
    | none =>
      rw [hlookup] at hrow
      cases hrow
    | some document =>
      rw [hlookup, Option.elim_some] at hrow
      exact Nat.le_trans (depth_le_of_decode_backupRow (decode_option hrow))
        (depth_le_depthFields hlookup)

/-! ## Floats -/

theorem readsFloats_encode_backupRow {row : BackupRow}
    (h : ∀ x ∈ row.floats, (Number.float x).ReadsBack) :
    (Serde.backupRow.encode row).ReadsFloats := by
  intro x hx
  change x ∈ [] ++ ([] ++ ([] ++ (row.floats ++ []))) at hx
  simp only [List.nil_append, List.append_nil] at hx
  exact h x hx

theorem readsFloats_encode_backupChangeExport {change : BackupChangeExport}
    (h : ∀ row, change.row = some row → ∀ x ∈ row.floats, (Number.float x).ReadsBack) :
    (Serde.backupChangeExport.encode change).ReadsFloats := by
  intro x hx
  change x ∈ [] ++ ([] ++ ([] ++
    (((change.row.map Serde.backupRow.encode).getD .null).floats ++ ([] ++ [])))) at hx
  simp only [List.nil_append, List.append_nil] at hx
  cases hrow : change.row with
  | none =>
    rw [hrow] at hx
    cases hx
  | some row =>
    rw [hrow] at hx
    exact readsFloats_encode_backupRow (h row hrow) x hx

/-! ## Compression -/

/-- The head of a frame: the magic number, no optional fields, and the size of
    the window. -/
def frameHeader : Bytes := [0x28, 0xB5, 0x2F, 0xFD, 0x00, 0x58]

/-- The head of a last block that stores `length` bytes as they are. -/
def blockHeader (length : Nat) : Bytes :=
  [UInt8.ofNat (8 * length + 1), UInt8.ofNat ((8 * length + 1) / 256),
    UInt8.ofNat ((8 * length + 1) / 65536)]

def maxBlock : Nat := 131072

def zstdEncode (bytes : Bytes) : Except String Bytes :=
  if bytes.length ≤ maxBlock then .ok (frameHeader ++ blockHeader bytes.length ++ bytes)
  else .error "input too long for one block"

def zstdDecode (frame : Bytes) : Except String Bytes :=
  let bytes := frame.drop 9
  if frame = frameHeader ++ blockHeader bytes.length ++ bytes ∧ bytes.length ≤ maxBlock then
    .ok bytes
  else .error "unknown frame"

theorem zstdDecode_of_zstdEncode {bytes frame : Bytes} (h : zstdEncode bytes = .ok frame) :
    zstdDecode frame = .ok bytes := by
  rw [zstdEncode] at h
  split at h
  · next hle =>
    cases h
    have hdrop : (frameHeader ++ blockHeader bytes.length ++ bytes).drop 9 = bytes := rfl
    rw [zstdDecode, hdrop, if_pos ⟨rfl, hle⟩]
  · cases h

/-! ## The crates -/

scoped instance crates : Crates where
  digest := Sha256.digest
  encode := zstdEncode
  decode := zstdDecode
  rowToVec := toVec .compact Serde.backupRow
  rowFromSlice := fromSlice Serde.backupRow
  changeToVec := toVec .compact Serde.backupChangeExport
  changeFromSlice := fromSlice Serde.backupChangeExport
  viewToVec := toVec .compact Serde.checksumManifestView
  manifestToVecPretty := toVec .pretty Serde.backupSnapshotManifest
  manifestFromSlice := fromSlice Serde.backupSnapshotManifest
  recursionLimit := recursionLimit
  ReadsFloat x := (Number.float x).ReadsBack

/-- A compact document is one non-empty line. -/
theorem line_of_toVec {α : Type} {c : Codec α} {a : α} {doc : Bytes}
    (h : toVec .compact c a = .ok doc) : doc ≠ [] ∧ 10 ∉ doc := by
  rcases toVec_eq_ok.mp h with ⟨-, rfl⟩
  exact ⟨utf8_ne_nil (write_ne_nil _ 0 _),
    lineFeed_notMem_utf8 (newLine_notMem_write 0 _)⟩

theorem readsFloats_of_nil {row : BackupRow} (h : row.floats = []) : row.ReadsFloats := by
  intro x hx
  rw [h] at hx
  cases hx

theorem readable_of_depth {row : BackupRow} (h : row.depth ≤ Crates.recursionLimit)
    (hfloats : row.floats = []) : row.Readable := ⟨h, readsFloats_of_nil hfloats⟩

theorem readable_change_of_depth {change : BackupChangeExport}
    (h : change.depth ≤ Crates.recursionLimit) (hfloats : ∀ row ∈ change.row, row.floats = []) :
    change.Readable := ⟨h, fun row hrow => readsFloats_of_nil (hfloats row hrow)⟩

theorem rowsReadBack : RowsReadBack where
  readsBack row hread :=
    { fromSlice := fun _ h => fromSlice_toVec ((depth_encode_backupRow row).symm ▸ hread.depth)
        (readsFloats_encode_backupRow hread.floats) h
      ne_nil := fun _ h => (line_of_toVec h).1
      oneLine := fun _ h => (line_of_toVec h).2 }
  depth_le _ _ h := by
    rcases fromSlice_eq_ok.mp h with ⟨_, _, _, hparse, hdecode⟩
    exact Nat.le_trans (depth_le_of_decode_backupRow hdecode) (depth_le_of_parse hparse)

theorem changesReadBack : ChangesReadBack where
  readsBack change hread :=
    { fromSlice := fun _ h =>
        fromSlice_toVec ((depth_encode_backupChangeExport change).symm ▸ hread.depth)
          (readsFloats_encode_backupChangeExport hread.floats) h
      ne_nil := fun _ h => (line_of_toVec h).1
      oneLine := fun _ h => (line_of_toVec h).2 }
  depth_le _ _ h := by
    rcases fromSlice_eq_ok.mp h with ⟨_, _, _, hparse, hdecode⟩
    exact Nat.le_trans (depth_le_of_decode_backupChangeExport hdecode) (depth_le_of_parse hparse)

theorem manifestsReadBack : ManifestsReadBack := fun manifest _ h =>
  have hflat := flat_backupSnapshotManifest manifest
  fromSlice_toVec (Nat.le_trans hflat.depth (by decide)) hflat.readsFloats h

/-- **The reference crates read back what they write.** -/
theorem cratesReadBack : CratesReadBack where
  zstd _ _ h := zstdDecode_of_zstdEncode h
  rows := rowsReadBack
  changes := changesReadBack
  manifests := manifestsReadBack

end GraphqlOrmBackup.Reference
