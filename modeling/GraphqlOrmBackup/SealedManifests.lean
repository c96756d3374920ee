import GraphqlOrmBackup.ChainSpec
import GraphqlOrmBackup.Environment

/-!
# Sealed manifests

With `serde_json`'s documents for the manifest types, a manifest that is filed
with its checksum set is loaded again.
-/

namespace GraphqlOrmBackup

/-- The numbers of the manifest fit the integer types of its fields. -/
def BackupSnapshotManifest.Representable (manifest : BackupSnapshotManifest) : Prop :=
  Serde.backupSnapshotManifest.fits manifest = true

/-- The bytes that are hashed. -/
def checksumDocument (manifest : BackupSnapshotManifest) : Bytes :=
  Text.utf8 ((Serde.checksumManifestView.encode (ChecksumManifestView.from manifest)).write
    .compact 0)

/-- The document under which a manifest is stored. -/
def manifestDocument (manifest : BackupSnapshotManifest) : Bytes :=
  Text.utf8 ((Serde.backupSnapshotManifest.encode manifest).write .pretty 0)

section Codec

variable [Crates]

/-- `serde_json` writes the documents of the manifest types, and reads what the
    codecs read. -/
structure EncodesManifests : Prop where
  view : ∀ view, Serde.checksumManifestView.fits view = true →
    Crates.viewToVec view = Serde.toVec .compact Serde.checksumManifestView view
  manifest : ∀ manifest, Serde.backupSnapshotManifest.fits manifest = true →
    Crates.manifestToVecPretty manifest = Serde.toVec .pretty Serde.backupSnapshotManifest manifest
  reads : ∀ doc manifest, Serde.fromSlice Serde.backupSnapshotManifest doc = .ok manifest →
    Crates.manifestFromSlice doc = .ok manifest

variable {manifest : BackupSnapshotManifest}

omit [Crates] in
/-- The view has the numbers of the manifest. -/
theorem BackupSnapshotManifest.Representable.view (h : manifest.Representable) :
    Serde.checksumManifestView.fits (ChecksumManifestView.from manifest) = true := h

omit [Crates] in
theorem BackupSnapshotManifest.Representable.withChecksum (h : manifest.Representable)
    (checksum : String) :
    BackupSnapshotManifest.Representable { manifest with checksum } := h

theorem manifestChecksum_eq_ok (henc : EncodesManifests) (h : manifest.Representable) :
    manifestChecksum manifest = .ok (sha256Hex (checksumDocument manifest)) := by
  have hvec : SerializeJson.toVec (ChecksumManifestView.from manifest) =
      .ok (checksumDocument manifest) :=
    (henc.view _ h.view).trans (Serde.toVec_eq_ok.mpr ⟨h.view, rfl⟩)
  rw [manifestChecksum, hvec]
  rfl

/-- A manifest as it is stored. -/
@[simps]
def sealManifest (manifest : BackupSnapshotManifest) : BackupSnapshotManifest :=
  { manifest with checksum := sha256Hex (checksumDocument manifest) }

theorem setManifestChecksum_of_representable (henc : EncodesManifests)
    (h : manifest.Representable) :
    setManifestChecksum manifest = .ok (sealManifest manifest) :=
  setManifestChecksum_eq_ok.mpr ⟨_, manifestChecksum_eq_ok henc h, rfl⟩

theorem manifestToVecPretty_eq_ok (henc : EncodesManifests) (h : manifest.Representable) :
    Crates.manifestToVecPretty manifest = .ok (manifestDocument manifest) :=
  (henc.manifest _ h).trans (Serde.toVec_eq_ok.mpr ⟨h, rfl⟩)

/-- A sealed manifest is loaded from where it is filed. -/
theorem loadManifest_of_lookup (henc : EncodesManifests) (h : manifest.Representable) {s : Store}
    {id : Uuid}
    (hlookup : s.lookup (snapshotManifestKey id) = some (manifestDocument (sealManifest manifest))) :
    loadManifest s id = .ok (sealManifest manifest) := by
  have hfits : Serde.backupSnapshotManifest.fits (sealManifest manifest) = true := h.withChecksum _
  have hdoc : Serde.toVec .pretty Serde.backupSnapshotManifest (sealManifest manifest) =
      .ok (manifestDocument (sealManifest manifest)) := Serde.toVec_eq_ok.mpr ⟨hfits, rfl⟩
  have hflat := Serde.flat_backupSnapshotManifest (sealManifest manifest)
  have hdepth := Nat.le_trans hflat.depth (by decide : 4 ≤ Serde.recursionLimit)
  have hread := henc.reads _ _ (Serde.fromSlice_toVec hdepth hflat.readsFloats hdoc)
  have hverify := verifyManifestChecksum_of_set (setManifestChecksum_of_representable henc h)
  exact loadManifest_eq_ok.mpr ⟨_, hlookup, hread, hverify⟩

theorem Follows.sealManifest {parent child : BackupSnapshotManifest} (h : Follows parent child) :
    Follows (sealManifest parent) (sealManifest child) := by
  constructor
  · simpa using h.parentSnapshotId
  · simpa using h.appId
  · simpa using h.databaseBackend
  · simpa using h.graphqlOrmSchemaHash

end Codec

/-! ## Filed manifests -/

namespace Reference

theorem encodesManifests : EncodesManifests where
  view _ _ := rfl
  manifest _ _ := rfl
  reads _ _ h := h

/-- A repository with these blobs and manifests, each manifest filed under the
    id before it. -/
def filed (blobs : Store) : List (Uuid × BackupSnapshotManifest) → Store
  | [] => blobs
  | (id, manifest) :: rest =>
      (filed blobs rest).putBlob (snapshotManifestKey id) (manifestDocument (sealManifest manifest))

theorem loadManifest_filed {blobs : Store} {entries : List (Uuid × BackupSnapshotManifest)}
    {id : Uuid} {manifest : BackupSnapshotManifest} (h : manifest.Representable)
    (hlookup : entries.lookup id = some manifest) :
    loadManifest (filed blobs entries) id = .ok (sealManifest manifest) := by
  apply loadManifest_of_lookup encodesManifests h
  induction entries with
  | nil => simp at hlookup
  | cons entry entries ih =>
    rcases entry with ⟨id', manifest'⟩
    rw [List.lookup_cons] at hlookup
    unfold filed
    by_cases heq : id = id'
    · rw [beq_iff_eq.mpr heq] at hlookup
      rw [heq, Store.lookup_putBlob_self, Option.some.inj hlookup]
    · rw [beq_eq_false_iff_ne.mpr heq] at hlookup
      rw [Store.lookup_putBlob_of_ne _ _ fun hkey => heq (snapshotManifestKey_injective hkey)]
      exact ih hlookup

theorem lookup_filed {blobs : Store} {entries : List (Uuid × BackupSnapshotManifest)} {key : String}
    (hkey : ∀ id, key ≠ snapshotManifestKey id) :
    (filed blobs entries).lookup key = blobs.lookup key := by
  induction entries with
  | nil => rfl
  | cons entry entries ih =>
    unfold filed
    rw [Store.lookup_putBlob_of_ne _ _ (hkey _)]
    exact ih

/-- A repository with these blobs and manifests. -/
def fileChain (blobs : Store) (manifests : List BackupSnapshotManifest) : Store :=
  filed blobs (manifests.map fun manifest => (manifest.snapshotId, manifest))

theorem lookup_map_snapshotId {manifests : List BackupSnapshotManifest}
    (hnodup : (manifests.map (·.snapshotId)).Nodup) {manifest : BackupSnapshotManifest}
    (hmem : manifest ∈ manifests) :
    (manifests.map fun manifest => (manifest.snapshotId, manifest)).lookup manifest.snapshotId =
      some manifest := by
  induction manifests with
  | nil => exact absurd hmem List.not_mem_nil
  | cons first rest ih =>
    rw [List.map_cons, List.nodup_cons] at hnodup
    rw [List.map_cons, List.lookup_cons]
    rcases List.mem_cons.mp hmem with rfl | hmem
    · rw [beq_iff_eq.mpr rfl]
    · have hne : manifest.snapshotId ≠ first.snapshotId := by
        intro heq
        exact hnodup.1 (heq ▸ List.mem_map_of_mem hmem)
      rw [beq_eq_false_iff_ne.mpr hne]
      exact ih hnodup.2 hmem

theorem validChain_map_sealManifest {manifests : List BackupSnapshotManifest}
    (h : validateManifestChain manifests = .ok ()) : ValidChain (manifests.map sealManifest) := by
  rcases validateManifestChain_eq_ok.mp h with ⟨⟨first, rest, rfl, hparent, hkind⟩, hlinked, hnodup⟩
  refine ⟨⟨sealManifest first, rest.map sealManifest, List.map_cons, ?_, ?_⟩, ?_, ?_⟩
  · rw [sealManifest_parentSnapshotId, hparent]
  · rw [sealManifest_backupKind]
    exact hkind
  · rw [List.isChain_map]
    exact hlinked.imp fun _ _ h => h.sealManifest
  · rw [List.map_map]
    exact hnodup

/-- A valid chain of sealed manifests is loaded where each of them is. -/
theorem loadManifestChain_of_loads {s : Store} {manifests : List BackupSnapshotManifest} {id : Uuid}
    (hload : ∀ manifest ∈ manifests,
      loadManifest s manifest.snapshotId = .ok (sealManifest manifest))
    (hvalid : validateManifestChain manifests = .ok ())
    (hid : manifests.getLast?.map (·.snapshotId) = some id) :
    loadManifestChain s id = .ok (manifests.map sealManifest) := by
  rcases Option.map_eq_some_iff.mp hid with ⟨leaf, hleaf, rfl⟩
  rw [loadManifestChain_iff_filedChain]
  refine ⟨⟨⟨sealManifest leaf, ?_, hload leaf (List.mem_of_getLast? hleaf)⟩, ?_⟩,
    validChain_map_sealManifest hvalid⟩
  · rw [List.getLast?_map, hleaf]
    rfl
  · intro manifest hmem
    rcases List.mem_map.mp (List.dropLast_subset _ hmem) with ⟨m, hm, rfl⟩
    exact hload m hm

theorem loadManifest_fileChain (blobs : Store) {manifests : List BackupSnapshotManifest}
    (hfits : ∀ manifest ∈ manifests, manifest.Representable)
    (hnodup : (manifests.map (·.snapshotId)).Nodup) {manifest : BackupSnapshotManifest}
    (hmem : manifest ∈ manifests) :
    loadManifest (fileChain blobs manifests) manifest.snapshotId = .ok (sealManifest manifest) :=
  loadManifest_filed (hfits manifest hmem) (lookup_map_snapshotId hnodup hmem)

/-- A valid chain that is filed is loaded. -/
theorem loadManifestChain_fileChain (blobs : Store) {manifests : List BackupSnapshotManifest}
    {id : Uuid} (hfits : ∀ manifest ∈ manifests, manifest.Representable)
    (hvalid : validateManifestChain manifests = .ok ())
    (hid : manifests.getLast?.map (·.snapshotId) = some id) :
    loadManifestChain (fileChain blobs manifests) id = .ok (manifests.map sealManifest) :=
  loadManifestChain_of_loads (fun _ hmem => loadManifest_fileChain blobs hfits
    (validateManifestChain_eq_ok.mp hvalid).nodup hmem) hvalid hid

/-- Only manifests are filed under manifest keys. -/
theorem mem_fileChain {blobs : Store} {manifests : List BackupSnapshotManifest} {key : String}
    (h : key ∈ fileChain blobs manifests) :
    key ∈ blobs ∨ ∃ manifest ∈ manifests, key = snapshotManifestKey manifest.snapshotId := by
  induction manifests with
  | nil => exact Or.inl h
  | cons first rest ih =>
    rcases (AList.mem_insert _).mp h with rfl | h
    · exact Or.inr ⟨first, List.mem_cons_self, rfl⟩
    · exact (ih h).imp_right fun ⟨manifest, hmem, hkey⟩ =>
        ⟨manifest, List.mem_cons_of_mem _ hmem, hkey⟩

/-- The blobs of a filed manifest are in place if they were before it was filed. -/
theorem holdsBlobs_fileChain {blobs : Store} {manifests : List BackupSnapshotManifest}
    {manifest : BackupSnapshotManifest}
    (h : ∀ ref ∈ manifest.references, HoldsBlob blobs ref.1 ref.2 ∧
      ∀ id, ref.1 ≠ snapshotManifestKey id) :
    HoldsBlobs (fileChain blobs manifests) (sealManifest manifest) := by
  intro ref href
  obtain ⟨⟨body, hbody, hsha⟩, hkey⟩ := h ref href
  exact ⟨body, (lookup_filed hkey).trans hbody, hsha⟩

theorem representable_manifest : ∀ m ∈ [manifest (uuid 1) none], m.Representable := by
  unfold BackupSnapshotManifest.Representable
  decide +kernel

/-- A root with nothing in it and a snapshot on top of it that has one payload. -/
def childWorld (child : BackupSnapshotManifest) (key : String) (body : Bytes) : World :=
  ⟨fileChain (Store.putBlob ∅ key body) [manifest (uuid 1) none, child], [], []⟩

section Child

variable {child : BackupSnapshotManifest} {key : String} {body : Bytes}

theorem loadManifestChain_childWorld (hfits : child.Representable)
    (hvalid : validateManifestChain [manifest (uuid 1) none, child] = .ok ()) :
    loadManifestChain (childWorld child key body).store child.snapshotId =
      .ok [sealManifest (manifest (uuid 1) none), sealManifest child] := by
  apply loadManifestChain_fileChain _ _ hvalid rfl
  intro m hm
  rcases List.mem_cons.mp hm with rfl | hm
  · exact representable_manifest _ List.mem_cons_self
  · rw [List.mem_singleton.mp hm]
    exact hfits

theorem holdsBlobs_childWorld (hrefs : child.references = [(key, sha256Hex body)])
    (hkey : ∀ id, key ≠ snapshotManifestKey id) :
    ∀ m ∈ [sealManifest (manifest (uuid 1) none), sealManifest child],
      HoldsBlobs (childWorld child key body).store m := by
  intro m hm
  rcases List.mem_cons.mp hm with rfl | hm
  · exact holdsBlobs_fileChain fun _ href => absurd href List.not_mem_nil
  · rw [List.mem_singleton.mp hm]
    apply holdsBlobs_fileChain
    intro ref href
    rw [hrefs] at href
    rw [List.mem_singleton.mp href]
    exact ⟨⟨body, Store.lookup_putBlob_self _ _ _, rfl⟩, hkey⟩

end Child

end Reference

end GraphqlOrmBackup
