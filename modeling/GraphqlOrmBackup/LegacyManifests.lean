import GraphqlOrmBackup.ManifestChecksum

/-!
# Manifests that leave out fields

The format describes the checksum of a manifest as the SHA-256 of its document
with the checksum field cleared.  `load_manifest` hashes the document that it
would write itself for what it has read.  The two agree on the documents that
are written, and on no others.
-/

namespace GraphqlOrmBackup

open Json

/-! ## The document itself as it is hashed -/

def clearField (field : String × Value) : String × Value :=
  (field.1, if field.1 = "checksum" then .string "" else field.2)

/-- The same fields in the same order, with the checksum cleared. -/
def clearChecksum : Value → Value
  | .object fields => .object (fields.map clearField)
  | value => value

/-- A document on one line, with the checksum cleared. -/
def ownDocument (value : Value) : Bytes := Text.utf8 ((clearChecksum value).write .compact 0)

theorem clearChecksum_encode (manifest : BackupSnapshotManifest) :
    clearChecksum (Serde.backupSnapshotManifest.encode manifest) =
      Serde.checksumManifestView.encode (ChecksumManifestView.from manifest) := rfl

/-- What is hashed for a manifest is its own document. -/
theorem ownDocument_encode (manifest : BackupSnapshotManifest) :
    ownDocument (Serde.backupSnapshotManifest.encode manifest) = checksumDocument manifest := by
  rw [ownDocument, clearChecksum_encode, checksumDocument]

/-- Fields that agree up to the checksum, and in the checksum, are equal. -/
theorem eq_of_map_clearField {checksum : Value} {fields fields' : List (String × Value)}
    (h : ∀ field ∈ fields, field.1 = "checksum" → field.2 = checksum)
    (h' : ∀ field ∈ fields', field.1 = "checksum" → field.2 = checksum)
    (heq : fields.map clearField = fields'.map clearField) : fields = fields' := by
  induction fields generalizing fields' with
  | nil => exact (List.map_eq_nil_iff.mp heq.symm).symm
  | cons field fields ih =>
    cases fields' with
    | nil => cases heq
    | cons field' fields' =>
      rw [List.map_cons, List.map_cons, List.cons.injEq] at heq
      rw [List.forall_mem_cons] at h h'
      rw [ih h.2 h'.2 heq.2]
      rcases field with ⟨name, value⟩
      rcases field' with ⟨name', value'⟩
      simp only [clearField, Prod.mk.injEq] at heq
      rcases heq with ⟨⟨rfl, hvalue⟩, -⟩
      by_cases hname : name = "checksum"
      · obtain rfl : value = value' := (h.1 hname).trans (h'.1 hname).symm
        rfl
      · rw [if_neg hname, if_neg hname] at hvalue
        rw [hvalue]

/-- The fields of a manifest's document. -/
theorem exists_manifestFields (manifest : BackupSnapshotManifest) :
    ∃ fields, Serde.backupSnapshotManifest.encode manifest = .object fields ∧
      (fields.map Prod.fst).Nodup ∧
      List.lookup "checksum" fields = some (.string manifest.checksum) :=
  ⟨_, rfl, Fields.nodup_encode _ (by decide) manifest, rfl⟩

theorem eq_of_mem_of_nodup {fields : List (String × Value)} (hnodup : (fields.map Prod.fst).Nodup)
    {name : String} {checksum : Value} (h : List.lookup name fields = some checksum) :
    ∀ field ∈ fields, field.1 = name → field.2 = checksum := by
  rintro field hmem rfl
  exact Option.some.inj ((lookup_of_mem hnodup hmem).symm.trans h)

/-- A document is hashed as it is exactly if it is the one that is written. -/
theorem ownDocument_eq_iff {value : Value} {manifest : BackupSnapshotManifest}
    (hchecksum : ∀ fields, value = .object fields →
      List.lookup "checksum" fields = some (.string manifest.checksum)) :
    ownDocument value = checksumDocument manifest ↔
      value = Serde.backupSnapshotManifest.encode manifest := by
  constructor
  · intro h
    have hflat := flat_checksumManifestView manifest
    have hcleared := (eq_of_write_eq hflat.floats (Text.utf8_injective h.symm)).symm
    rw [← clearChecksum_encode] at hcleared
    obtain ⟨fields', hencode, hnodup', hlookup'⟩ := exists_manifestFields manifest
    rw [hencode] at hcleared ⊢
    cases value with
    | object fields =>
      have hmap : fields.map clearField = fields'.map clearField := Value.object.inj hcleared
      have hnames : fields.map Prod.fst = fields'.map Prod.fst := by
        have hfst := congrArg (List.map Prod.fst) hmap
        rw [List.map_map, List.map_map] at hfst
        exact hfst
      have hnodup : (fields.map Prod.fst).Nodup := hnames ▸ hnodup'
      rw [eq_of_map_clearField (eq_of_mem_of_nodup hnodup (hchecksum fields rfl))
        (eq_of_mem_of_nodup hnodup' hlookup') hmap]
    | _ => cases hcleared
  · rintro rfl
    exact ownDocument_encode manifest

/-! ## Fields that may be left out -/

/-- The database section leaves out the field. -/
def LeavesOut (value : Value) (name : String) : Prop :=
  ∃ fields database, value = .object fields ∧
    List.lookup "database" fields = some (.object database) ∧ List.lookup name database = none

/-- What is written leaves out neither of the two fields that have a default. -/
theorem ne_encode_of_leavesOut {value : Value} {name : String}
    (hname : name ∈ ["compression", "changes"]) (h : LeavesOut value name)
    (manifest : BackupSnapshotManifest) :
    value ≠ Serde.backupSnapshotManifest.encode manifest := by
  intro hvalue
  rcases h with ⟨fields, database, rfl, hdatabase, hnone⟩
  cases hvalue
  cases hdatabase
  rcases List.mem_pair.mp hname with rfl | rfl
  · cases hnone
  · cases hnone

/-! ## Loading a document -/

section Codec

variable [Crates]

/-- What `serde_json` reads as a manifest has numbers that fit its fields, and
    the checksum that stands in the document, where `valueOf` is the value that
    a document holds. -/
structure ReadsManifests (valueOf : Bytes → Option Value) : Prop where
  fits : ∀ doc (manifest : BackupSnapshotManifest), DeserializeJson.fromSlice doc = .ok manifest →
    manifest.Representable
  checksum : ∀ doc (manifest : BackupSnapshotManifest) fields,
    DeserializeJson.fromSlice doc = .ok manifest → valueOf doc = some (.object fields) →
    List.lookup "checksum" fields = some (.string manifest.checksum)

theorem sha256Hex_eq_iff {doc doc' : Bytes} : sha256Hex doc = sha256Hex doc' ↔
    doc = doc' ∨ doc ≠ doc' ∧ Sha2.digest doc = Sha2.digest doc' := by
  by_cases hdoc : doc = doc'
  · rw [hdoc]
    exact iff_of_true rfl (Or.inl rfl)
  · constructor
    · intro h
      exact Or.inr ⟨hdoc, sha256Hex_injective h⟩
    · intro h
      rcases h with heq | ⟨-, hdigest⟩
      · exact absurd heq hdoc
      · rw [sha256Hex, sha256Hex, hdigest]

section Loading

variable {s : Store} {id : Uuid} {doc : Bytes} {value : Value} {manifest : BackupSnapshotManifest}

theorem loadManifest_iff_checksum (henc : EncodesManifests) (hfits : manifest.Representable)
    (hstored : s.lookup (manifestKey id) = some doc)
    (hread : DeserializeJson.fromSlice doc = .ok manifest) :
    loadManifest s id = .ok manifest ↔
      sha256Hex (checksumDocument manifest) = manifest.checksum := by
  rw [loadManifest_eq_ok, ← verifyManifestChecksum_iff henc hfits]
  constructor
  · intro h
    rcases h with ⟨_, _, _, hverify⟩
    exact hverify
  · intro hverify
    exact ⟨doc, hstored, hread, hverify⟩

/-- **Loading a manifest with its documented checksum.**  A document that is
    read as a manifest, and whose checksum is the SHA-256 of the document itself
    with the checksum cleared, is loaded exactly if it holds what is written for
    that manifest, unless two documents are a collision of SHA-256.  What is
    written leaves out neither the compression nor the changes. -/
theorem documented_checksum_is_accepted_iff {valueOf : Bytes → Option Value}
    (henc : EncodesManifests) (hreads : ReadsManifests valueOf)
    (hstored : s.lookup (manifestKey id) = some doc)
    (hread : DeserializeJson.fromSlice doc = .ok manifest) (hvalue : valueOf doc = some value)
    (hsum : manifest.checksum = sha256Hex (ownDocument value)) :
    (loadManifest s id = .ok manifest ↔
      value = Serde.backupSnapshotManifest.encode manifest ∨
        ownDocument value ≠ checksumDocument manifest ∧
          Sha2.digest (ownDocument value) = Sha2.digest (checksumDocument manifest)) ∧
    ∀ name ∈ ["compression", "changes"], LeavesOut value name →
      value ≠ Serde.backupSnapshotManifest.encode manifest := by
  refine ⟨?_, fun name hname hout => ne_encode_of_leavesOut hname hout manifest⟩
  have hfits := hreads.fits doc manifest hread
  rw [loadManifest_iff_checksum henc hfits hstored hread, hsum, eq_comm, sha256Hex_eq_iff,
    ownDocument_eq_iff]
  rintro fields rfl
  exact hreads.checksum doc manifest fields hread hvalue

end Loading

end Codec

/-! ## A legacy manifest -/

/-- The value that a document holds. -/
def Serde.valueOf (doc : Bytes) : Option Value := (Text.fromUtf8? doc).bind (parse recursionLimit)

namespace Reference

theorem lookup_checksum_of_decode {fields : List (String × Value)}
    {manifest : BackupSnapshotManifest}
    (h : Serde.backupSnapshotManifest.decode (.object fields) = some manifest) :
    List.lookup "checksum" fields = some (.string manifest.checksum) := by
  rcases decode_record h with ⟨_, heq, hfields⟩
  cases heq
  rcases Option.map_eq_some_iff.mp hfields with ⟨tuple, htuple, rfl⟩
  simp only [decode_seq] at htuple
  rcases htuple with ⟨-, -, -, -, -, -, -, -, -, -, -, -, -, hlast⟩
  rcases decode_field hlast with ⟨checksum, hlookup, hdecode⟩
  rw [hlookup]
  cases checksum with
  | string text => exact congrArg (some ∘ Value.string) (Option.some.inj hdecode)
  | _ => cases hdecode

theorem readsManifests : ReadsManifests Serde.valueOf where
  fits doc m h := by
    rcases Serde.fromSlice_eq_ok.mp h with ⟨_, value, _, _, hdecode⟩
    exact Serde.sound_backupSnapshotManifest value m hdecode
  checksum doc m fields h hvalue := by
    rcases Serde.fromSlice_eq_ok.mp h with ⟨cs, value, hcs, hparse, hdecode⟩
    have hvalue' : Serde.valueOf doc = some value :=
      Option.bind_eq_some_iff.mpr ⟨cs, hcs, hparse⟩
    obtain rfl := Option.some.inj (hvalue.symm.trans hvalue')
    exact lookup_checksum_of_decode hdecode

/-- A document that is written is read. -/
theorem valueOf_write (style : Style) {value : Value} (hdepth : value.depth ≤ Serde.recursionLimit)
    (h64 : value.is64 = true) (hfloats : value.ReadsFloats) :
    Serde.valueOf (Text.utf8 (value.write style 0)) = some value := by
  rw [Serde.valueOf, Text.fromUtf8?_utf8, Option.bind_some]
  exact parse_write style hdepth h64 hfloats

theorem sealManifest_checksum_eq (manifest : BackupSnapshotManifest) :
    (sealManifest manifest).checksum =
      sha256Hex (ownDocument (Serde.backupSnapshotManifest.encode (sealManifest manifest))) := by
  rw [ownDocument_encode]
  rfl

theorem documented_checksum_is_accepted_iff_family :
    Serde.valueOf (manifestDocument (sealManifest newSnapshot)) =
      some (Serde.backupSnapshotManifest.encode (sealManifest newSnapshot)) ∧
    loadManifest familyWorld.store (uuid 3) = .ok (sealManifest newSnapshot) := by
  have hfits : (sealManifest newSnapshot).Representable :=
    (files_family.fits newSnapshot (by simp [family])).withChecksum _
  have hflat := Serde.flat_backupSnapshotManifest (sealManifest newSnapshot)
  have hvalue := valueOf_write .pretty (Nat.le_trans hflat.depth (by decide))
    (Serde.backupSnapshotManifest.is64_encode _ hfits) hflat.readsFloats
  have hread := manifestsReadBack _ _ (manifestToVecPretty_eq_ok encodesManifests hfits)
  exact ⟨hvalue, (documented_checksum_is_accepted_iff encodesManifests readsManifests
    (Store.lookup_putBlob_self _ _ _) hread hvalue (sealManifest_checksum_eq _)).1.mpr (Or.inl rfl)⟩

/-- A full snapshot without compression. -/
def legacyManifest : BackupSnapshotManifest :=
  let full := manifest (uuid 1) none
  { full with database := { full.database with compression := .none } }

/-- Its document as it was before payloads were compressed. -/
def legacyValue (checksum : String) : Value := .object [
  ("format_version", .number (.int 1)),
  ("snapshot_id", .string "01010101-0101-0101-0101-010101010101"),
  ("parent_snapshot_id", .null),
  ("created_at", .number (.int 0)),
  ("app_id", .string "app"),
  ("app_version", .string "1"),
  ("graphql_orm_schema_version", .string "1"),
  ("graphql_orm_schema_hash", .string "h"),
  ("database_backend", .string "sqlite"),
  ("backup_kind", .string "Full"),
  ("database", .object [
    ("export_format", .string "jsonl"),
    ("row_count", .number (.int 0)),
    ("table_count", .number (.int 0)),
    ("tables", .array [])]),
  ("objects", .array []),
  ("tombstones", .array []),
  ("checksum", .string checksum)]

def legacyChecksum : String := sha256Hex (ownDocument (legacyValue ""))

def legacyDocument : Bytes := Text.utf8 ((legacyValue legacyChecksum).write .pretty 0)

def legacyStore : Store := Store.putBlob ∅ (manifestKey (uuid 1)) legacyDocument

theorem ownDocument_legacyValue (checksum : String) :
    ownDocument (legacyValue checksum) = ownDocument (legacyValue "") := rfl

theorem is64_legacyValue (checksum : String) : (legacyValue checksum).is64 = true := rfl

theorem flat_legacyValue (checksum : String) : (legacyValue checksum).Flat 3 where
  depth := Nat.le_of_eq rfl
  floats := rfl

theorem decode_legacyValue (checksum : String) :
    Serde.backupSnapshotManifest.decode (legacyValue checksum) =
      some { legacyManifest with checksum } := rfl

theorem valueOf_legacyDocument :
    Serde.valueOf legacyDocument = some (legacyValue legacyChecksum) := by
  have hflat := flat_legacyValue legacyChecksum
  exact valueOf_write .pretty (Nat.le_trans hflat.depth (by decide)) (is64_legacyValue _)
    hflat.readsFloats

theorem fromSlice_legacyDocument : DeserializeJson.fromSlice legacyDocument =
    .ok { legacyManifest with checksum := legacyChecksum } := by
  rcases Option.bind_eq_some_iff.mp valueOf_legacyDocument with ⟨cs, hcs, hparse⟩
  exact Serde.fromSlice_eq_ok.mpr ⟨cs, _, hcs, hparse, decode_legacyValue _⟩

theorem leavesOut_legacyValue (checksum : String) {name : String}
    (hname : name ∈ ["compression", "changes"]) : LeavesOut (legacyValue checksum) name := by
  refine ⟨_, _, rfl, rfl, ?_⟩
  rcases List.mem_pair.mp hname with rfl | rfl
  · rfl
  · rfl

/-- A document without compression and changes is read, and has the checksum
    that the format documents, but the manifest is not loaded. -/
theorem legacy_manifest_is_refused :
    (∀ name ∈ ["compression", "changes"], LeavesOut (legacyValue legacyChecksum) name) ∧
    Serde.valueOf legacyDocument = some (legacyValue legacyChecksum) ∧
    DeserializeJson.fromSlice legacyDocument =
      .ok { legacyManifest with checksum := legacyChecksum } ∧
    legacyChecksum = sha256Hex (ownDocument (legacyValue legacyChecksum)) ∧
    legacyStore.lookup (manifestKey (uuid 1)) = some legacyDocument ∧
    ∀ m, loadManifest legacyStore (uuid 1) ≠ .ok m := by
  have hread := fromSlice_legacyDocument
  have hstored : legacyStore.lookup (manifestKey (uuid 1)) = some legacyDocument :=
    Store.lookup_putBlob_self _ _ _
  have hsum : legacyChecksum = sha256Hex (ownDocument (legacyValue legacyChecksum)) := by
    rw [ownDocument_legacyValue, legacyChecksum]
  refine ⟨fun _ => leavesOut_legacyValue _, valueOf_legacyDocument, hread, hsum, hstored, ?_⟩
  intro m hload
  rcases loadManifest_eq_ok.mp hload with ⟨body, hbody, hm, hverify⟩
  obtain rfl := Option.some.inj (hstored.symm.trans hbody)
  obtain rfl := Except.ok.inj (hread.symm.trans hm)
  rw [verifyManifestChecksum_iff encodesManifests (readsManifests.fits _ _ hread)] at hverify
  exact absurd hverify (by decide +kernel)

end Reference

end GraphqlOrmBackup
