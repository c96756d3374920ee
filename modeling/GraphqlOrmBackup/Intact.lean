import GraphqlOrmBackup.ChainSpec
import GraphqlOrmBackup.Prune
import GraphqlOrmBackup.SealedManifests

/-!
# Intact snapshots

A snapshot is intact when its chain loads and every manifest of the chain
verifies.  That depends on few keys of the store: the manifests of the chain
and the blobs they reference.
-/

namespace GraphqlOrmBackup

open Interaction

/-- The stores agree on the keys. -/
def AgreeOn (keys : Set String) (s s' : Store) : Prop :=
  ∀ key ∈ keys, s'.lookup key = s.lookup key

theorem AgreeOn.refl (keys : Set String) (s : Store) : AgreeOn keys s s := fun _ _ => rfl

theorem AgreeOn.trans {keys : Set String} {s s' s'' : Store} (h : AgreeOn keys s s')
    (h' : AgreeOn keys s' s'') : AgreeOn keys s s'' :=
  fun key hkey => (h' key hkey).trans (h key hkey)

theorem AgreeOn.mono {keys keys' : Set String} {s s' : Store} (h : AgreeOn keys s s')
    (hsub : keys' ⊆ keys) : AgreeOn keys' s s' :=
  fun key hkey => h key (hsub hkey)

theorem agreeOn_deleteBlob {keys : Set String} (s : Store) {key : String} (h : key ∉ keys) :
    AgreeOn keys s (s.deleteBlob key) :=
  fun _ hkey => Store.lookup_deleteBlob_of_ne s fun heq => h (heq ▸ hkey)

theorem SameButLock.agreeOn {w w' : World} (h : SameButLock w w') {keys : Set String}
    (hlock : repositoryLockKey ∉ keys) : AgreeOn keys w.store w'.store :=
  fun key hkey => h.1 key fun heq => hlock (heq ▸ hkey)

section Codec

variable [Crates]

theorem loadManifest_congr {s s' : Store} {id : Uuid}
    (h : s'.lookup (manifestKey id) = s.lookup (manifestKey id)) :
    loadManifest s' id = loadManifest s id := by
  simp only [loadManifest, Store.getBlob, h]

theorem loadManifest_sameButLock {w w' : World} (h : SameButLock w w') (id : Uuid) :
    loadManifest w'.store id = loadManifest w.store id :=
  loadManifest_congr (h.1 _ (inSnapshotDir_snapshotManifestKey id).ne_lock)

/-- The chain of the snapshot loads, and all of it verifies. -/
structure Intact (s : Store) (id : Uuid) (chain : List BackupSnapshotManifest) : Prop where
  loads : loadManifestChain s id = .ok chain
  verifies : ∀ manifest ∈ chain, ∀ order, verifyManifestAndObjects order s manifest = .ok ()

/-- The keys a chain depends on. -/
def chainKeys (chain : List BackupSnapshotManifest) : Set String :=
  {key | ∃ manifest ∈ chain, key = manifestKey manifest.snapshotId ∨
    key ∈ manifest.references.map Prod.fst}

theorem HoldsBlobs.of_agree {s s' : Store} {manifest : BackupSnapshotManifest}
    (h : HoldsBlobs s manifest)
    (hagree : AgreeOn {key | key ∈ manifest.references.map Prod.fst} s s') :
    HoldsBlobs s' manifest := by
  intro ref href
  obtain ⟨body, hbody, hsha⟩ := h ref href
  exact ⟨body, (hagree ref.1 (List.mem_map_of_mem href)).trans hbody, hsha⟩

theorem intact_iff {s : Store} {id : Uuid} {chain : List BackupSnapshotManifest} :
    Intact s id chain ↔ loadManifestChain s id = .ok chain ∧
      ∀ manifest ∈ chain, verifyManifestChecksum manifest = .ok () ∧ HoldsBlobs s manifest := by
  constructor
  · intro h
    exact ⟨h.loads, fun m hm => verifyManifestAndObjects_eq_ok.mp (h.verifies m hm fun _ => [])⟩
  · intro h
    rcases h with ⟨hload, hverify⟩
    exact ⟨hload, fun m hm order => verifyManifestAndObjects_eq_ok.mpr (hverify m hm)⟩

/-- **A snapshot stays intact** in a store that agrees on the keys of its chain. -/
theorem Intact.of_agree {s s' : Store} {id : Uuid} {chain : List BackupSnapshotManifest}
    (h : Intact s id chain)
    (hids : ∀ id manifest, loadManifest s id = .ok manifest → manifest.snapshotId = id)
    (hagree : AgreeOn (chainKeys chain) s s') : Intact s' id chain := by
  rcases intact_iff.mp h with ⟨hload, hverify⟩
  rcases loadManifestChain_eq_ok.mp hload with ⟨path, hpath, hchain, hvalid⟩
  have hnode : ∀ node ∈ path, node.2 ∈ chain := fun node hnode =>
    hchain ▸ List.mem_map_of_mem hnode
  refine intact_iff.mpr ⟨loadManifestChain_eq_ok.mpr ⟨path, ?_, hchain, hvalid⟩, ?_⟩
  · refine Lineage.congr hpath fun node hmem hstored => ?_
    rw [← hstored]
    refine loadManifest_congr (hagree _ ⟨node.2, hnode node hmem, Or.inl ?_⟩)
    rw [hids _ _ hstored]
  · intro manifest hmem
    refine ⟨(hverify manifest hmem).1, (hverify manifest hmem).2.of_agree ?_⟩
    exact hagree.mono fun key hkey => ⟨manifest, hmem, Or.inr hkey⟩

/-- What the writers of this crate leave in a repository: a manifest lies under
    the key of its snapshot, its payloads lie in the snapshot's directory, and
    its objects in the object store. -/
structure CrateWritten (s : Store) : Prop where
  canonical : ∀ key ∈ s, ∀ id, snapshotIdFromManifestKey key = some id →
    key = snapshotManifestKey id
  snapshotId : ∀ id manifest, loadManifest s id = .ok manifest → manifest.snapshotId = id
  entries : ∀ id manifest, loadManifest s id = .ok manifest →
    ∀ check ∈ manifest.entryChecks, InSnapshotDir id check.1
  objects : ∀ id manifest, loadManifest s id = .ok manifest →
    ∀ check ∈ manifest.objectChecks, InObjectStore check.1

section CrateWritten

variable {s : Store} {id : Uuid} {chain : List BackupSnapshotManifest}

/-- The manifests of an intact chain are the stored manifests of their ids. -/
theorem Intact.loadManifest (hw : CrateWritten s) (h : Intact s id chain)
    {manifest : BackupSnapshotManifest} (hmem : manifest ∈ chain) :
    loadManifest s manifest.snapshotId = .ok manifest := by
  rcases loadManifestChain_eq_ok.mp h.loads with ⟨path, hpath, rfl, _⟩
  rcases List.mem_map.mp hmem with ⟨node, hnode, rfl⟩
  have hstored := hpath.stored_of_mem node hnode
  rw [hw.snapshotId _ _ hstored]
  exact hstored

/-- Where the keys of a chain lie. -/
theorem Intact.key_cases (hw : CrateWritten s) (h : Intact s id chain) {key : String}
    (hkey : key ∈ chainKeys chain) :
    ∃ manifest ∈ chain, InSnapshotDir manifest.snapshotId key ∨
      (InObjectStore key ∧ key ∈ manifest.objectChecks.map Prod.fst) := by
  rcases hkey with ⟨manifest, hmem, hkey⟩
  have hload := h.loadManifest hw hmem
  refine ⟨manifest, hmem, ?_⟩
  rcases hkey with rfl | hkey
  · exact Or.inl (inSnapshotDir_snapshotManifestKey _)
  · rw [BackupSnapshotManifest.references, List.map_append, List.mem_append] at hkey
    rcases hkey with hkey | hkey
    · rcases List.mem_map.mp hkey with ⟨check, hcheck, rfl⟩
      exact Or.inr ⟨hw.objects _ _ hload check hcheck, List.mem_map_of_mem hcheck⟩
    · rcases List.mem_map.mp hkey with ⟨check, hcheck, rfl⟩
      exact Or.inl (hw.entries _ _ hload check hcheck)

theorem Intact.lock_notMem (hw : CrateWritten s) (h : Intact s id chain) :
    repositoryLockKey ∉ chainKeys chain := by
  intro hkey
  obtain ⟨_, _, hdir | ⟨hobj, _⟩⟩ := h.key_cases hw hkey
  · exact hdir.ne_lock rfl
  · exact hobj.ne_lock rfl

theorem CrateWritten.of_sameButLock {w w' : World} (hw : CrateWritten w.store)
    (h : SameButLock w w') : CrateWritten w'.store := by
  refine ⟨fun key hkey id hid => hw.canonical key ?_ id hid, ?_, ?_, ?_⟩
  · have hne : key ≠ repositoryLockKey := by
      rintro rfl
      exact absurd hid (by simp [show snapshotIdFromManifestKey repositoryLockKey = none from rfl])
    exact (Store.mem_congr (h.1 key hne)).mp hkey
  · simpa only [loadManifest_sameButLock h] using hw.snapshotId
  · simpa only [loadManifest_sameButLock h] using hw.entries
  · simpa only [loadManifest_sameButLock h] using hw.objects

theorem Intact.of_sameButLock {w w' : World} (hw : CrateWritten w.store)
    (hintact : Intact w.store id chain) (h : SameButLock w w') : Intact w'.store id chain :=
  hintact.of_agree hw.snapshotId (h.agreeOn (hintact.lock_notMem hw))

end CrateWritten

end Codec

/-! ## Filed manifests -/

namespace Reference

section Filed

variable {blobs : Store} {manifests : List BackupSnapshotManifest}

/-- These manifests, and no others, are stored. -/
structure Files (blobs : Store) (manifests : List BackupSnapshotManifest) : Prop where
  fits : ∀ manifest ∈ manifests, manifest.Representable
  nodup : (manifests.map (·.snapshotId)).Nodup
  blobs : ∀ key ∈ blobs, snapshotIdFromManifestKey key = none

theorem loadManifest_fileChain_iff (h : Files blobs manifests) {id : Uuid}
    {found : BackupSnapshotManifest} :
    loadManifest (fileChain blobs manifests) id = .ok found ↔
      ∃ manifest ∈ manifests, manifest.snapshotId = id ∧ sealManifest manifest = found := by
  constructor
  · intro hload
    rcases mem_fileChain (lookup_of_loadManifest hload) with hkey | ⟨manifest, hmem, hkey⟩
    · cases (h.blobs _ hkey).symm.trans (snapshotIdFromManifestKey_snapshotManifestKey id)
    · obtain rfl := snapshotManifestKey_injective hkey
      exact ⟨manifest, hmem, rfl, loadManifest_functional _ _ _ _
        (loadManifest_fileChain blobs h.fits h.nodup hmem) hload⟩
  · rintro ⟨manifest, hmem, rfl, rfl⟩
    exact loadManifest_fileChain blobs h.fits h.nodup hmem

/-- The stored manifests refer to the places where the writers put their blobs. -/
theorem crateWritten_fileChain (h : Files blobs manifests)
    (hentries : ∀ manifest ∈ manifests, ∀ check ∈ manifest.entryChecks,
      InSnapshotDir manifest.snapshotId check.1)
    (hobjects : ∀ manifest ∈ manifests, ∀ check ∈ manifest.objectChecks, InObjectStore check.1) :
    CrateWritten (fileChain blobs manifests) where
  canonical key hkey id hid := by
    rcases mem_fileChain hkey with hblob | ⟨manifest, -, rfl⟩
    · cases hid.symm.trans (h.blobs key hblob)
    · rw [snapshotIdFromManifestKey_snapshotManifestKey] at hid
      rw [Option.some.inj hid]
  snapshotId id found hload := by
    obtain ⟨manifest, -, rfl, rfl⟩ := (loadManifest_fileChain_iff h).mp hload
    rfl
  entries id found hload := by
    obtain ⟨manifest, hmem, rfl, rfl⟩ := (loadManifest_fileChain_iff h).mp hload
    exact hentries manifest hmem
  objects id found hload := by
    obtain ⟨manifest, hmem, rfl, rfl⟩ := (loadManifest_fileChain_iff h).mp hload
    exact hobjects manifest hmem

/-- A chain of filed manifests whose blobs are in place is intact. -/
theorem intact_fileChain (h : Files blobs manifests) {chain : List BackupSnapshotManifest} {id : Uuid}
    (hsub : ∀ manifest ∈ chain, manifest ∈ manifests)
    (hvalid : validateManifestChain chain = .ok ())
    (hid : chain.getLast?.map (·.snapshotId) = some id)
    (hblobs : ∀ manifest ∈ chain, ∀ ref ∈ manifest.references, HoldsBlob blobs ref.1 ref.2 ∧
      ∀ id, ref.1 ≠ snapshotManifestKey id) :
    Intact (fileChain blobs manifests) id (chain.map sealManifest) := by
  have hload : ∀ manifest ∈ chain, loadManifest (fileChain blobs manifests) manifest.snapshotId =
      .ok (sealManifest manifest) := fun manifest hmem =>
    loadManifest_fileChain blobs h.fits h.nodup (hsub manifest hmem)
  refine intact_iff.mpr ⟨loadManifestChain_of_loads hload hvalid hid, fun found hfound => ?_⟩
  obtain ⟨manifest, hmem, rfl⟩ := List.mem_map.mp hfound
  obtain ⟨_, _, _, hchecksum⟩ := loadManifest_eq_ok.mp (hload manifest hmem)
  exact ⟨hchecksum, holdsBlobs_fileChain (hblobs manifest hmem)⟩

end Filed

/-! ## A small repository -/

/-- The checksum of a blob with the single byte 7. -/
def photoSha : String := "ca358758f6d27e6cf45272937977a748fd88391db679ceda7dc7bf1f005ee879"

/-- The checksum of a blob with the single byte 8. -/
def scanSha : String := "beead77994cf573341ec17b58bbf7eb34d2711c993c1d976b128b3188dc1829a"

def photo : ObjectBackupEntry :=
  ⟨uuid 7, "photo.png", objectContentKey photoSha, photoSha, 1, none⟩

def scan : ObjectBackupEntry :=
  ⟨uuid 8, "scan.png", objectContentKey scanSha, scanSha, 1, none⟩

/-- A full snapshot of the notes and of a photo. -/
def rootSnapshot : BackupSnapshotManifest :=
  { manifest (uuid 1) none with
    database := {
      exportFormat := "jsonl"
      compression := .zstd
      rowCount := 1
      tableCount := 1
      tables := [⟨"notes", 1, databaseTableKey (uuid 1) "notes", sha256Hex notesPayload⟩]
      changes := [] }
    objects := [photo] }

/-- A snapshot on top of it, by its time older, with one more object. -/
def oldSnapshot : BackupSnapshotManifest :=
  { manifest (uuid 2) (some (uuid 1)) with createdAt := -1, objects := [photo, scan] }

/-- Another snapshot on top of the first, with changes of the notes. -/
def newSnapshot : BackupSnapshotManifest :=
  { manifest (uuid 3) (some (uuid 1)) with
    createdAt := 1
    database := {
      exportFormat := "jsonl"
      compression := .zstd
      rowCount := 4
      tableCount := 1
      tables := []
      changes := [⟨"notes", 4, databaseChangesKey (uuid 3) "notes", sha256Hex editsPayload⟩] }
    objects := [photo]
    tombstones := [⟨some "notes", some "3", none, 1⟩] }

def familyBlobs : Store :=
  (((Store.putBlob ∅ photo.contentKey [7]).putBlob scan.contentKey [8]).putBlob
    (databaseTableKey (uuid 1) "notes") notesPayload).putBlob
    (databaseChangesKey (uuid 3) "notes") editsPayload

def family : List BackupSnapshotManifest := [newSnapshot, rootSnapshot, oldSnapshot]

/-- Two snapshots on top of one, all of which share an object. -/
def familyWorld : World := ⟨fileChain familyBlobs family, [], []⟩

theorem files_family : Files familyBlobs family where
  fits := by
    unfold BackupSnapshotManifest.Representable
    decide +kernel
  nodup := by decide
  blobs key hkey := by
    simp only [familyBlobs, Store.putBlob, AList.mem_insert, AList.notMem_empty, or_false] at hkey
    rcases hkey with rfl | rfl | rfl | rfl <;> decide

theorem lookup_familyBlobs :
    familyBlobs.lookup photo.contentKey = some [7] ∧
    familyBlobs.lookup scan.contentKey = some [8] ∧
    familyBlobs.lookup (databaseTableKey (uuid 1) "notes") = some notesPayload ∧
    familyBlobs.lookup (databaseChangesKey (uuid 3) "notes") = some editsPayload := by
  have hkeys : [photo.contentKey, scan.contentKey, databaseTableKey (uuid 1) "notes",
      databaseChangesKey (uuid 3) "notes"].Nodup := by decide
  simp only [List.nodup_cons, List.mem_cons, List.not_mem_nil, not_or, or_false] at hkeys
  obtain ⟨⟨hscan, htable, hchanges⟩, ⟨htable', hchanges'⟩, hchanges'', -⟩ := hkeys
  simp only [familyBlobs, Store.lookup_putBlob, if_neg hscan, if_neg htable, if_neg hchanges,
    if_neg htable', if_neg hchanges', if_neg hchanges'', if_true, and_self]

theorem sha256Hex_photo : sha256Hex [7] = photoSha := by decide +kernel

theorem sha256Hex_scan : sha256Hex [8] = scanSha := by decide +kernel

/-- Every blob that is referenced is there. -/
theorem holds_familyBlobs : ∀ manifest ∈ family, ∀ ref ∈ manifest.references,
    HoldsBlob familyBlobs ref.1 ref.2 ∧ ∀ id, ref.1 ≠ snapshotManifestKey id := by
  have hrefs : ∀ manifest ∈ family, manifest.references ⊆ [(photo.contentKey, photoSha),
      (scan.contentKey, scanSha), (databaseTableKey (uuid 1) "notes", sha256Hex notesPayload),
      (databaseChangesKey (uuid 3) "notes", sha256Hex editsPayload)] := by
    simp [family, rootSnapshot, oldSnapshot, newSnapshot, manifest, photo, scan, List.cons_subset,
      BackupSnapshotManifest.references, BackupSnapshotManifest.objectChecks,
      BackupSnapshotManifest.entryChecks]
  obtain ⟨hphoto, hscan, htable, hchanges⟩ := lookup_familyBlobs
  have hobject : ∀ (sha : String) id, objectContentKey sha ≠ snapshotManifestKey id := fun sha id h =>
    (inObjectStore_objectContentKey sha).not_inSnapshotDir id
      (h ▸ inSnapshotDir_snapshotManifestKey id)
  intro manifest hmem ref href
  have href := hrefs manifest hmem href
  simp only [List.mem_cons, List.not_mem_nil, or_false] at href
  rcases href with rfl | rfl | rfl | rfl
  · exact ⟨⟨_, hphoto, sha256Hex_photo⟩, hobject _⟩
  · exact ⟨⟨_, hscan, sha256Hex_scan⟩, hobject _⟩
  · exact ⟨⟨_, htable, rfl⟩, (inSnapshotDir_databaseTableKey _ _).ne_snapshotManifestKey
      (databaseTableKey_ne_snapshotManifestKey _ _)⟩
  · exact ⟨⟨_, hchanges, rfl⟩, (inSnapshotDir_databaseChangesKey _ _).ne_snapshotManifestKey
      (databaseChangesKey_ne_snapshotManifestKey _ _)⟩

theorem crateWritten_familyWorld : CrateWritten familyWorld.store := by
  refine crateWritten_fileChain files_family ?_ ?_
  · unfold InSnapshotDir
    decide +kernel
  · unfold InObjectStore
    decide +kernel

/-- The first snapshot, and each of the others on top of it. -/
theorem intact_familyWorld : Intact familyWorld.store (uuid 1) [sealManifest rootSnapshot] ∧
    Intact familyWorld.store (uuid 2) [sealManifest rootSnapshot, sealManifest oldSnapshot] ∧
    Intact familyWorld.store (uuid 3) [sealManifest rootSnapshot, sealManifest newSnapshot] := by
  have hintact : ∀ (chain : List BackupSnapshotManifest) {id : Uuid},
      (∀ manifest ∈ chain, manifest ∈ family) → validateManifestChain chain = .ok () →
      chain.getLast?.map (·.snapshotId) = some id →
      Intact familyWorld.store id (chain.map sealManifest) := fun chain id hsub hvalid hid =>
    intact_fileChain files_family hsub hvalid hid fun manifest hmem =>
      holds_familyBlobs manifest (hsub manifest hmem)
  exact ⟨hintact [rootSnapshot] (by simp [family]) rfl rfl,
    hintact [rootSnapshot, oldSnapshot] (by simp [family]) rfl rfl,
    hintact [rootSnapshot, newSnapshot] (by simp [family]) rfl rfl⟩

end Reference

end GraphqlOrmBackup
