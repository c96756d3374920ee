import GraphqlOrmBackup.GarbageCollection

/-!
# Which keys are taken for manifests

`snapshot_id_from_manifest_key` reads the name of a snapshot directory in every
form in which a UUID can be written, while the writers use one of them.  A key
in another form names a snapshot that is stored under another key, or nowhere.
-/

namespace GraphqlOrmBackup

open Interaction

/-! ## One key -/

/-- A name that is read as a snapshot id but is not the one that is written: it
    is not hyphenated, or has an upper-case letter. -/
def OtherSpelling (name : List Char) : Prop :=
  '/' ∉ name ∧ (Uuid.parseStr name).isSome = true ∧
    (name.length ≠ 36 ∨ ∃ c ∈ name, 'A' ≤ c ∧ c ≤ 'F')

/-- The manifest key of a directory with such a name. -/
def StrayManifestKey (key : String) : Prop :=
  ∃ name, OtherSpelling name ∧
    key.toList = "snapshots/".toList ++ (name ++ "/manifest.json".toList)

/-- A key that is taken for the manifest of a snapshot is that manifest's, or stray. -/
theorem stray_iff_of_snapshotIdFromManifestKey {key : String} {id : Uuid}
    (h : snapshotIdFromManifestKey key = some id) :
    StrayManifestKey key ↔ key ≠ snapshotManifestKey id := by
  rcases snapshotIdFromManifestKey_eq_some.mp h with ⟨name, hslash, hparse, hkey⟩
  have hcanonical : key = snapshotManifestKey id ↔ id.toChars = name := by
    rw [← String.toList_inj, toList_snapshotManifestKey, hkey, List.append_cancel_left_eq,
      List.append_cancel_right_eq, eq_comm]
  rw [ne_eq, hcanonical, Uuid.toChars_eq_iff hparse, not_and_or]
  simp only [not_forall, not_not, exists_prop]
  constructor
  · intro hstray
    rcases hstray with ⟨name', hspelling, hkey'⟩
    obtain rfl : name' = name :=
      List.append_cancel_right (List.append_cancel_left (hkey'.symm.trans hkey))
    exact hspelling.2.2
  · intro hform
    exact ⟨name, ⟨hslash, Option.isSome_iff_exists.mpr ⟨id, hparse⟩, hform⟩, hkey⟩

theorem StrayManifestKey.exists_id {key : String} (h : StrayManifestKey key) :
    ∃ id, snapshotIdFromManifestKey key = some id := by
  rcases h with ⟨name, ⟨hslash, hparse, -⟩, hkey⟩
  rcases Option.isSome_iff_exists.mp hparse with ⟨id, hid⟩
  exact ⟨id, snapshotIdFromManifestKey_eq_some.mpr ⟨name, hslash, hid, hkey⟩⟩

/-- A key is recognised exactly unless it is stray. -/
theorem recognised_iff_not_stray (key : String) :
    (∀ id, snapshotIdFromManifestKey key = some id ↔ key = snapshotManifestKey id) ↔
      ¬ StrayManifestKey key := by
  constructor
  · intro hexact hstray
    obtain ⟨id, hid⟩ := hstray.exists_id
    exact (stray_iff_of_snapshotIdFromManifestKey hid).mp hstray ((hexact id).mp hid)
  · intro hnot id
    constructor
    · intro hid
      by_contra hne
      exact hnot ((stray_iff_of_snapshotIdFromManifestKey hid).mpr hne)
    · rintro rfl
      exact snapshotIdFromManifestKey_snapshotManifestKey id

/-! ## All keys of a repository -/

/-- The ids are those under which a manifest is stored, each once. -/
def StoredOnce (s : Store) (ids : List Uuid) : Prop :=
  ids.Nodup ∧ ∀ id, id ∈ ids ↔ snapshotManifestKey id ∈ s

/-- The ids that `load_all_manifests` reads from a listing are those of the
    stored snapshots, each once, unless there is a stray key. -/
theorem storedOnce_iff_not_stray {s : Store} {keys : List String}
    (hkeys : Lists s "snapshots" keys) :
    StoredOnce s (keys.filterMap snapshotIdFromManifestKey) ↔
      ∀ key ∈ s, ¬ StrayManifestKey key := by
  have hlisted : ∀ id, snapshotManifestKey id ∈ s → snapshotManifestKey id ∈ keys := fun id hid =>
    (hkeys.2 _).mpr ⟨hid, startsWith_snapshotManifestKey id⟩
  constructor
  · intro honce key hkey hstray
    rcases honce with ⟨hnodup, hmem⟩
    obtain ⟨id, hid⟩ := hstray.exists_id
    have hne := (stray_iff_of_snapshotIdFromManifestKey hid).mp hstray
    have hstarts : startsWith key "snapshots" = true := by
      rcases hstray with ⟨name, -, hname⟩
      rw [startsWith_iff, hname]
      exact ⟨'/' :: (name ++ "/manifest.json".toList), by simp⟩
    have hkey' : key ∈ keys := (hkeys.2 key).mpr ⟨hkey, hstarts⟩
    have hstored := (hmem id).mp (List.mem_filterMap.mpr ⟨key, hkey', hid⟩)
    -- the stray key and the manifest's own key give one id twice
    rw [List.Nodup, List.pairwise_filterMap] at hnodup
    have hsymm : Std.Symm fun key key' : String => ∀ id, snapshotIdFromManifestKey key = some id →
        ∀ id', snapshotIdFromManifestKey key' = some id' → id ≠ id' :=
      ⟨fun _ _ h id hid id' hid' heq => h id' hid' id hid heq.symm⟩
    exact hnodup.forall hkey' (hlisted id hstored) hne id hid id
      (snapshotIdFromManifestKey_snapshotManifestKey id) rfl
  · intro hnot
    have hexact : ∀ key ∈ s, ∀ id,
        snapshotIdFromManifestKey key = some id ↔ key = snapshotManifestKey id := fun key hkey =>
      (recognised_iff_not_stray key).mpr (hnot key hkey)
    refine ⟨nodup_snapshotIds (fun key hkey id => (hexact key hkey id).mp) hkeys, fun id => ?_⟩
    rw [List.mem_filterMap]
    constructor
    · intro h
      rcases h with ⟨key, hkey, hid⟩
      have hmem := ((hkeys.2 key).mp hkey).1
      exact (hexact key hmem id).mp hid ▸ hmem
    · intro hid
      exact ⟨_, hlisted id hid, snapshotIdFromManifestKey_snapshotManifestKey id⟩

section Runs

variable [Crates] {host : Host} {w : World}

theorem wpE_loadAllManifests_once (hnot : ∀ key ∈ w.store, ¬ StrayManifestKey key) :
    wpE host.MayFail (fun _ => True) loadAllManifests
      (fun manifests _ => ∃ ids, StoredOnce w.store ids ∧
        List.Forall₂ (fun id manifest => loadManifest w.store id = .ok manifest) ids manifests)
      (fun _ _ => True) w := by
  refine wpE.seq (P := fun keys w' => Lists w.store "snapshots" keys ∧ w' = w) ?_ ?_
  · apply wpE_call_mayFail trivial (fun _ _ _ => trivial)
    intro r w' h
    rcases h with ⟨⟨keys, rfl, hkeys⟩, rfl⟩
    exact ⟨trivial, hkeys, rfl⟩
  · rintro keys w - ⟨hkeys, rfl⟩
    apply ((wpE_mapM'_read _).relax (fun _ _ => trivial) fun _ _ _ h => h).mono
    · intro manifests _ _ hload
      exact ⟨_, (storedOnce_iff_not_stray hkeys).mpr hnot, hload.2⟩
    · exact fun _ _ _ h => h

/-- **Manifest keys are recognised exactly** unless they are stray, and without
    stray keys in a repository every run of `load_all_manifests` that succeeds
    returns each stored snapshot once. -/
theorem manifest_keys_are_recognised_iff :
    (∀ key, (∀ id, snapshotIdFromManifestKey key = some id ↔ key = snapshotManifestKey id) ↔
      ¬ StrayManifestKey key) ∧
    (∀ s keys, Lists s "snapshots" keys →
      (StoredOnce s (keys.filterMap snapshotIdFromManifestKey) ↔
        ∀ key ∈ s, ¬ StrayManifestKey key)) ∧
    (∀ (host : Host) (w w' : World) manifests, (∀ key ∈ w.store, ¬ StrayManifestKey key) →
      Returns host.MayFail w loadAllManifests.run (.ok manifests) w' →
      ∃ ids, StoredOnce w.store ids ∧
        List.Forall₂ (fun id manifest => loadManifest w.store id = .ok manifest) ids manifests) :=
  ⟨recognised_iff_not_stray, fun _ _ => storedOnce_iff_not_stray,
    fun _ _ _ _ hnot hret => hret.post (wpE_loadAllManifests_once hnot)⟩

end Runs

/-- What this crate has written has no stray keys. -/
theorem CrateWritten.not_stray [Crates] {s : Store} (hw : CrateWritten s) :
    ∀ key ∈ s, ¬ StrayManifestKey key := by
  intro key hkey hstray
  obtain ⟨id, hid⟩ := hstray.exists_id
  exact (stray_iff_of_snapshotIdFromManifestKey hid).mp hstray (hw.canonical key hkey id hid)

/-! ## A snapshot that is counted twice -/

section Twice

open Reference

theorem manifest_keys_are_recognised_iff_family :
    (∃ key ∈ familyWorld.store, startsWith key "snapshots" = true ∧
      snapshotIdFromManifestKey key = none) ∧
    ∃ ids, StoredOnce familyWorld.store ids ∧
      List.Forall₂ (fun id manifest => loadManifest familyWorld.store id = .ok manifest)
        ids [sealManifest newSnapshot, sealManifest rootSnapshot, sealManifest oldSnapshot] := by
  have hload : Returns (database [] []).Answers familyWorld loadAllManifests.run
      (.ok sealedFamily) familyWorld :=
    Host.returns_loadAllManifests lists_snapshotFiles loadAllManifests_familyWorld
  have hblob : databaseTableKey (uuid 1) "notes" ∈ familyBlobs :=
    mem_familyBlobs.mpr (Or.inl (by simp))
  have hother := (lists_snapshotFiles.2 (databaseTableKey (uuid 1) "notes")).mp
    (by simp [snapshotFiles])
  exact ⟨⟨_, hother.1, hother.2, files_family.blobs _ hblob⟩,
    manifest_keys_are_recognised_iff.2.2 (database [] []) _ _ _ crateWritten_familyWorld.not_stray
      (returns_mayFail hload)⟩

/-- The manifest key of the second snapshot, with the id in its simple form. -/
def simpleManifestKey : String := "snapshots/02020202020202020202020202020202/manifest.json"

def older : BackupSnapshotManifest := manifest (uuid 1) none

def newer : BackupSnapshotManifest := manifest (uuid 2) none

/-- Two snapshots, and something under the other key of the second one. -/
def twiceWorld : World := ⟨(fileChain ∅ [newer, older]).putBlob simpleManifestKey [], [], []⟩

def keepTwo : KeepPolicy := ⟨2, RepositoryLockOptions.default⟩

/-- The repository under the lock, without the directory of the older snapshot. -/
def afterExpiry : World :=
  (runDatabase [] [] ([uuid 1].mapM' deleteSnapshotBlobs) twiceWorld.locked).2

def afterKeepTwo : World := (runDatabase [] [] (deleteUnreachable []) afterExpiry).2

theorem loadManifest_twiceWorld {m : BackupSnapshotManifest} (hmem : m ∈ [newer, older]) :
    loadManifest twiceWorld.locked.store m.snapshotId = .ok (sealManifest m) := by
  have hfits : ∀ m ∈ [newer, older], m.Representable := by
    unfold BackupSnapshotManifest.Representable
    decide +kernel
  have hids : ∀ m ∈ [newer, older], snapshotManifestKey m.snapshotId ≠ simpleManifestKey := by
    decide
  have hfiled : loadManifest (fileChain ∅ [newer, older]) m.snapshotId = .ok (sealManifest m) :=
    loadManifest_filed (hfits m hmem) (lookup_map_snapshotId (by decide) hmem)
  rw [loadManifest_sameButLock (World.sameButLock_locked _), ← hfiled]
  exact loadManifest_congr (Store.lookup_putBlob_of_ne _ _ (hids m hmem))

theorem loadManifestChain_twiceWorld : loadManifestChain twiceWorld.locked.store (uuid 2) =
    .ok [sealManifest newer] := by
  rw [loadManifestChain_iff_filedChain]
  have hload := loadManifest_twiceWorld (m := newer) List.mem_cons_self
  exact ⟨⟨⟨_, rfl, hload⟩, by simp⟩,
    ⟨_, _, rfl, rfl, Or.inl rfl⟩, List.isChain_singleton _, by simp⟩

/-- The manifests in the order in which they are listed, which is also theirs by age. -/
def listed : List BackupSnapshotManifest :=
  [sealManifest newer, sealManifest newer, sealManifest older]

theorem mergeSort_listed : listed.mergeSort newerFirst = listed :=
  List.mergeSort_of_pairwise (by decide)

theorem returns_loadAllManifests_twiceWorld :
    Returns (database [] []).Answers twiceWorld.locked loadAllManifests.run (.ok listed)
      twiceWorld.locked := by
  have hnewer := loadManifest_twiceWorld (m := newer) List.mem_cons_self
  have holder := loadManifest_twiceWorld (m := older) (by simp)
  have hids : (twiceWorld.locked.store.listing "snapshots").filterMap
      snapshotIdFromManifestKey = [uuid 2, uuid 2, uuid 1] := by decide +kernel
  apply Host.returns_loadAllManifests (Store.lists_listing _ _)
  rw [hids]
  exact .cons hnewer (.cons hnewer (.cons holder .nil))

/-- A key of the simple form is taken for a manifest key, and a prune that is
    to keep the two snapshots deletes one of them. -/
theorem simple_key_counts_as_snapshot :
    snapshotIdFromManifestKey simpleManifestKey = some (uuid 2) ∧
    simpleManifestKey ≠ snapshotManifestKey (uuid 2) ∧
    ∃ w', Returns (database [] []).Answers twiceWorld (prune inOrder keepTwo).run
      (.ok ⟨1, 1, 1⟩) w' ∧
    snapshotManifestKey (uuid 1) ∈ twiceWorld.store ∧ snapshotManifestKey (uuid 1) ∉ w'.store := by
  -- the newer one takes both places
  have hchains : List.Forall₂
      (fun id chain => loadManifestChain twiceWorld.locked.store id = .ok chain)
      (((listed.mergeSort newerFirst).take keepTwo.keepLast).map (·.snapshotId))
      [[sealManifest newer], [sealManifest newer]] := by
    rw [mergeSort_listed]
    exact .cons loadManifestChain_twiceWorld (.cons loadManifestChain_twiceWorld .nil)
  have hexpired : inOrder.iterate (((listed.mergeSort newerFirst).map (·.snapshotId)).dedup.filter
      fun id => id ∉ ([[sealManifest newer], [sealManifest newer]].flatten.map
        (·.snapshotId)).dedup) = [uuid 1] := by
    rw [mergeSort_listed]
    decide
  have hblobs : Returns (database [] []).Answers twiceWorld.locked
      ([uuid 1].mapM' deleteSnapshotBlobs).run (.ok [1]) afterExpiry :=
    returns_of_toOption (by decide +kernel)
  have hobjects : Returns (database [] []).Answers afterExpiry (deleteUnreachable []).run (.ok 0)
      afterKeepTwo := returns_of_toOption (by decide +kernel)
  have hinner := Host.returns_pruneInner inOrder keepTwo returns_loadAllManifests_twiceWorld
    hchains hexpired hblobs hobjects
  have hret : Returns (database [] []).Answers twiceWorld (prune inOrder keepTwo).run
      (.ok ⟨1, 1, 1⟩) (afterKeepTwo.withStore (afterKeepTwo.store.deleteBlob repositoryLockKey)) :=
    Host.returns_withLock (by decide +kernel) hinner
  exact ⟨by decide, by decide, _, hret, by decide +kernel, by decide +kernel⟩

end Twice

end GraphqlOrmBackup
