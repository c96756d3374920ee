import GraphqlOrmBackup.FiledChain
import GraphqlOrmBackup.Restore
import Mathlib.Data.List.Induction

/-!
# Objects of a compacted chain

`compact_object_entries` takes a tombstone of an object for the whole chain,
also for the manifests that come after it.  It agrees with a replay of the
chain in order exactly if no object is stored again after its last tombstone.
-/

namespace GraphqlOrmBackup

/-! ## The last of several entries -/

section LastWrite

variable {α β : Type} [DecidableEq α] {key : β → α}

/-- The last element with the key. -/
def findLast (key : β → α) (k : α) (l : List β) : Option β := l.reverse.find? fun b => key b = k

theorem findLast_append (k : α) (l l' : List β) :
    findLast key k (l ++ l') = (findLast key k l').or (findLast key k l) := by
  rw [findLast, List.reverse_append, List.find?_append]
  rfl

theorem findLast_eq_none {k : α} {l : List β} :
    findLast key k l = none ↔ ∀ b ∈ l, key b ≠ k := by
  simp [findLast]

theorem key_of_findLast {k : α} {l : List β} {b : β} (h : findLast key k l = some b) :
    key b = k := by
  simpa using List.find?_some h

theorem mem_of_findLast {k : α} {l : List β} {b : β} (h : findLast key k l = some b) : b ∈ l :=
  List.mem_reverse.mp (List.mem_of_find?_eq_some h)

/-- Removing the elements of some keys keeps the last elements of the others. -/
theorem findLast_filter (k : α) (l : List β) (p : α → Prop) [DecidablePred p] :
    findLast key k (l.filter fun b => p (key b)) = if p k then findLast key k l else none := by
  induction l using List.reverseRecOn with
  | nil => simp [findLast]
  | append_singleton l b ih =>
    rw [List.filter_append, findLast_append, findLast_append, ih]
    by_cases hp : p k
    · by_cases hb : key b = k
      · simp [findLast, hb, hp]
      · by_cases hpb : p (key b)
        · simp [findLast, hb, hp, hpb]
        · simp [findLast, hb, hp, hpb]
    · by_cases hpb : p (key b)
      · have hb : key b ≠ k := fun heq => hp (heq ▸ hpb)
        simp [findLast, hb, hp, hpb]
      · simp [findLast, hp, hpb]

/-- A map that is filled by insertions holds the last element of each key. -/
theorem lookup_foldl_insert (l : List β) (m : AList fun _ : α => β) (k : α) :
    (l.foldl (fun m b => m.insert (key b) b) m).lookup k = (findLast key k l).or (m.lookup k) := by
  induction l generalizing m with
  | nil => rfl
  | cons b l ih =>
    rw [List.foldl_cons, ih, ← List.singleton_append, findLast_append, Option.or_assoc]
    congr 1
    by_cases hb : key b = k
    · subst hb
      rw [AList.lookup_insert]
      simp [findLast]
    · rw [AList.lookup_insert_ne (Ne.symm hb)]
      simp [findLast, hb]

/-- The last element of a key lies in the last list that has one. -/
theorem findLast_flatMap {γ : Type} (items : γ → List β) (k : α) (l : List γ) (b : β) :
    findLast key k (l.flatMap items) = some b ↔
      ∃ pre x post, l = pre ++ x :: post ∧ findLast key k (items x) = some b ∧
        ∀ y ∈ post, ∀ b' ∈ items y, key b' ≠ k := by
  induction l using List.reverseRecOn with
  | nil => simp [findLast]
  | append_singleton l last ih =>
    have hlast : [last].flatMap items = items last := by simp
    rw [List.flatMap_append, findLast_append, hlast]
    cases hfind : findLast key k (items last) with
    | some b' =>
      rw [Option.some_or]
      constructor
      · intro h
        exact ⟨l, last, [], rfl, hfind.trans h, by simp⟩
      · intro h
        rcases h with ⟨pre, x, post, heq, hx, hpost⟩
        rcases List.eq_nil_or_concat post with rfl | ⟨post, y, rfl⟩
        · rcases List.singleton_inj.mp (List.append_inj' heq rfl).2 with rfl
          exact hfind.symm.trans hx
        · have h : l ++ [last] = (pre ++ x :: post) ++ [y] := by simpa using heq
          rcases List.singleton_inj.mp (List.append_inj' h rfl).2 with rfl
          exact absurd (key_of_findLast hfind) (hpost last (by simp) b' (mem_of_findLast hfind))
    | none =>
      rw [Option.none_or, ih]
      constructor
      · intro h
        rcases h with ⟨pre, x, post, rfl, hx, hpost⟩
        refine ⟨pre, x, post ++ [last], by simp, hx, ?_⟩
        rw [List.forall_mem_append]
        exact ⟨hpost, List.forall_mem_singleton.mpr (findLast_eq_none.mp hfind)⟩
      · intro h
        rcases h with ⟨pre, x, post, heq, hx, hpost⟩
        rcases List.eq_nil_or_concat post with rfl | ⟨post, y, rfl⟩
        · rcases List.singleton_inj.mp (List.append_inj' heq rfl).2 with rfl
          rw [hfind] at hx
          cases hx
        · have h : l ++ [last] = (pre ++ x :: post) ++ [y] := by simpa using heq
          obtain ⟨rfl, _⟩ := List.append_inj' h rfl
          exact ⟨pre, x, post, rfl, hx, fun z hz => hpost z (by simp [hz])⟩

end LastWrite

/-! ## Replay in chain order -/

/-- The manifest has a tombstone of the object. -/
def Tombstones (manifest : BackupSnapshotManifest) (objectId : Uuid) : Prop :=
  ∃ tombstone ∈ manifest.tombstones, tombstone.objectId = some objectId

/-- The entry is the last one of its object, and neither its manifest nor a
    later one has a tombstone of the object. -/
def OutlivesChain (chain : List BackupSnapshotManifest) (entry : ObjectBackupEntry) : Prop :=
  ∃ earlier manifest later, chain = earlier ++ manifest :: later ∧
    findLast (·.objectId) entry.objectId manifest.objects = some entry ∧
    (∀ m ∈ manifest :: later, ¬ Tombstones m entry.objectId) ∧
    ∀ m ∈ later, ∀ object ∈ m.objects, object.objectId ≠ entry.objectId

/-- What a replay of the chain leaves: one entry for each object, by object id. -/
structure IsObjectReplay (chain : List BackupSnapshotManifest) (entries : List ObjectBackupEntry) :
    Prop where
  sorted : entries.Pairwise fun left right => left.objectId.ordKey < right.objectId.ordKey
  mem_iff : ∀ entry, entry ∈ entries ↔ OutlivesChain chain entry

/-- An object that is stored after one of its tombstones has a later one. -/
def NoneStoredAgain (chain : List BackupSnapshotManifest) : Prop :=
  ∀ earlier manifest later, chain = earlier ++ manifest :: later →
    ∀ object ∈ manifest.objects, (∃ m ∈ earlier, Tombstones m object.objectId) →
      ∃ m ∈ manifest :: later, Tombstones m object.objectId

theorem mem_tombstonedObjects {chain : List BackupSnapshotManifest} {objectId : Uuid} :
    objectId ∈ tombstonedObjects chain ↔ ∃ m ∈ chain, Tombstones m objectId := by
  simp only [tombstonedObjects, Tombstones, List.mem_filterMap, List.mem_flatMap]
  constructor
  · intro h
    rcases h with ⟨tombstone, ⟨m, hm, hmem⟩, heq⟩
    exact ⟨m, hm, tombstone, hmem, heq⟩
  · intro h
    rcases h with ⟨m, hm, tombstone, hmem, heq⟩
    exact ⟨tombstone, ⟨m, hm, hmem⟩, heq⟩

/-- The map that is filled in the loop. -/
def objectsById (chain : List BackupSnapshotManifest) : AList fun _ : Uuid => ObjectBackupEntry :=
  ((chain.flatMap (·.objects)).filter fun object =>
    object.objectId ∉ tombstonedObjects chain).foldl
      (fun objects object => objects.insert object.objectId object) ∅

theorem compactObjectEntries_eq (chain : List BackupSnapshotManifest) :
    compactObjectEntries chain = ((objectsById chain).entries.map (·.2)).mergeSort
      fun left right => left.objectId.ordKey ≤ right.objectId.ordKey := rfl

theorem lookup_objectsById (chain : List BackupSnapshotManifest) (objectId : Uuid) :
    (objectsById chain).lookup objectId = if objectId ∉ tombstonedObjects chain then
      findLast (·.objectId) objectId (chain.flatMap (·.objects)) else none := by
  rw [objectsById, lookup_foldl_insert, AList.lookup_empty, Option.or_none,
    findLast_filter objectId _ fun id => id ∉ tombstonedObjects chain]

/-- Every entry is filed under its object id. -/
theorem objectId_of_mem_objectsById {chain : List BackupSnapshotManifest} {id : Uuid}
    {entry : ObjectBackupEntry} (h : ⟨id, entry⟩ ∈ (objectsById chain).entries) :
    entry.objectId = id := by
  have hlookup : (objectsById chain).lookup id = some entry := AList.mem_lookup_iff.mpr h
  rw [lookup_objectsById] at hlookup
  split at hlookup
  · exact key_of_findLast hlookup
  · exact absurd hlookup (by simp)

theorem mem_compactObjectEntries_iff {chain : List BackupSnapshotManifest}
    {entry : ObjectBackupEntry} :
    entry ∈ compactObjectEntries chain ↔ entry.objectId ∉ tombstonedObjects chain ∧
      findLast (·.objectId) entry.objectId (chain.flatMap (·.objects)) = some entry := by
  have hlookup := lookup_objectsById chain entry.objectId
  rw [compactObjectEntries_eq, List.mem_mergeSort, List.mem_map]
  constructor
  · intro h
    rcases h with ⟨⟨id, _⟩, hmem, rfl⟩
    obtain rfl := objectId_of_mem_objectsById hmem
    rw [AList.mem_lookup_iff.mpr hmem] at hlookup
    split at hlookup
    · next hkept => exact ⟨hkept, hlookup.symm⟩
    · exact absurd hlookup (by simp)
  · intro h
    rcases h with ⟨hkept, hlast⟩
    rw [if_pos hkept, hlast] at hlookup
    exact ⟨⟨entry.objectId, entry⟩, AList.mem_lookup_iff.mp hlookup, rfl⟩

/-- One entry for each object, by object id. -/
theorem sorted_compactObjectEntries (chain : List BackupSnapshotManifest) :
    (compactObjectEntries chain).Pairwise fun left right =>
      left.objectId.ordKey < right.objectId.ordKey := by
  rw [compactObjectEntries_eq]
  have hperm := List.mergeSort_perm ((objectsById chain).entries.map (·.2))
    fun left right => left.objectId.ordKey ≤ right.objectId.ordKey
  have hids : ((objectsById chain).entries.map (·.2)).map (·.objectId) =
      (objectsById chain).keys := by
    rw [List.map_map, AList.keys, List.keys]
    exact List.map_congr_left fun entry hentry => objectId_of_mem_objectsById hentry
  have hnodup : ((objectsById chain).entries.map (·.2)).Pairwise
      fun left right => left.objectId ≠ right.objectId := by
    rw [← List.pairwise_map, hids]
    exact (objectsById chain).keys_nodup
  have hdistinct := hperm.symm.pairwise hnodup fun h => h.symm
  have hsorted : (((objectsById chain).entries.map (·.2)).mergeSort
      fun left right => left.objectId.ordKey ≤ right.objectId.ordKey).Pairwise
      fun left right => left.objectId.ordKey ≤ right.objectId.ordKey := by
    refine (List.pairwise_mergeSort ?_ ?_ _).imp of_decide_eq_true
    · intro a b c hab hbc
      rw [decide_eq_true_eq] at *
      exact hab.trans hbc
    · intro a b
      rw [Bool.or_eq_true, decide_eq_true_eq, decide_eq_true_eq]
      exact le_total _ _
  apply (hsorted.and hdistinct).imp
  rintro left right ⟨hle, hne⟩
  exact lt_of_le_of_ne hle fun heq => hne (Uuid.ordKey_injective heq)

/-- An object without a tombstone in the rest of the chain has a last entry there. -/
theorem exists_outlivesChain (earlier : List BackupSnapshotManifest)
    {later : List BackupSnapshotManifest} {manifest : BackupSnapshotManifest}
    {object : ObjectBackupEntry} (hobject : object ∈ manifest.objects)
    (hlater : ∀ m ∈ manifest :: later, ¬ Tombstones m object.objectId) :
    ∃ entry, entry.objectId = object.objectId ∧
      OutlivesChain (earlier ++ manifest :: later) entry := by
  cases hlast : findLast (·.objectId) object.objectId
      ((manifest :: later).flatMap (·.objects)) with
  | none =>
    have hmem : object ∈ (manifest :: later).flatMap (·.objects) :=
      List.mem_flatMap.mpr ⟨manifest, List.mem_cons_self, hobject⟩
    exact absurd rfl (findLast_eq_none.mp hlast object hmem)
  | some entry =>
    have hid := key_of_findLast hlast
    obtain ⟨pre, m, post, heq, hm, hpost⟩ := (findLast_flatMap _ _ _ _).mp hlast
    refine ⟨entry, hid, earlier ++ pre, m, post, ?_, by rw [hid]; exact hm, ?_, ?_⟩
    · rw [heq, List.append_assoc]
    · rw [hid]
      exact fun m' hm' => hlater m' (heq ▸ List.mem_append_right _ hm')
    · rw [hid]
      exact hpost

/-- **Objects of a compacted chain.**  The entries are those of a replay in
    chain order if and only if no object is stored again after its last
    tombstone. -/
theorem compactObjectEntries_replays_iff (chain : List BackupSnapshotManifest) :
    IsObjectReplay chain (compactObjectEntries chain) ↔ NoneStoredAgain chain := by
  constructor
  · rintro h earlier manifest later rfl object hobject ⟨m, hm, htombstone⟩
    by_contra hlater
    simp only [not_exists, not_and] at hlater
    obtain ⟨entry, hid, houtlives⟩ := exists_outlivesChain earlier hobject hlater
    -- the entry outlives the chain, and the early tombstone drops it
    have hkept := (mem_compactObjectEntries_iff.mp ((h.mem_iff entry).mpr houtlives)).1
    refine hkept (mem_tombstonedObjects.mpr ⟨m, List.mem_append_left _ hm, ?_⟩)
    rw [hid]
    exact htombstone
  · intro h
    refine ⟨sorted_compactObjectEntries chain, fun entry => ?_⟩
    rw [mem_compactObjectEntries_iff, findLast_flatMap]
    constructor
    · intro h
      rcases h with ⟨hkept, earlier, manifest, later, rfl, hlast, hlater⟩
      refine ⟨earlier, manifest, later, rfl, hlast, fun m hm htombstone => ?_, hlater⟩
      exact hkept (mem_tombstonedObjects.mpr ⟨m, List.mem_append_right _ hm, htombstone⟩)
    · intro h
      rcases h with ⟨earlier, manifest, later, rfl, hlast, hnone, hlater⟩
      refine ⟨fun hmem => ?_, earlier, manifest, later, rfl, hlast, hlater⟩
      rcases mem_tombstonedObjects.mp hmem with ⟨m, hm, htombstone⟩
      rcases List.mem_append.mp hm with hm | hm
      · obtain ⟨m', hm', htombstone'⟩ :=
          h earlier manifest later rfl entry (mem_of_findLast hlast) ⟨m, hm, htombstone⟩
        exact hnone m' hm' htombstone'
      · exact hnone m hm htombstone

section StoredAgain

open Reference

def blob : ObjectBackupEntry where
  objectId := uuid 9
  storageKey := "picture"
  contentKey := objectContentKey (sha256Hex [])
  sha256Hex := sha256Hex []
  sizeBytes := 0
  mimeType := none

def blobTombstone : BackupTombstone where
  tableName := none
  primaryKey := none
  objectId := some (uuid 9)
  deletedAt := 0

def firstStored : BackupSnapshotManifest := { manifest (uuid 1) none with objects := [blob] }

def deleted : BackupSnapshotManifest :=
  { manifest (uuid 2) (some (uuid 1)) with tombstones := [blobTombstone] }

def storedAgain : BackupSnapshotManifest :=
  { manifest (uuid 3) (some (uuid 2)) with objects := [blob] }

/-- The chain of an object that is stored, deleted and stored again is loaded,
    and the entry outlives it, but the compacted chain has no entry. -/
theorem object_stored_again_is_dropped :
    loadManifestChain (fileChain ∅ [firstStored, deleted, storedAgain]) (uuid 3) =
      .ok [sealManifest firstStored, sealManifest deleted, sealManifest storedAgain] ∧
    OutlivesChain [sealManifest firstStored, sealManifest deleted, sealManifest storedAgain] blob ∧
    compactObjectEntries
      [sealManifest firstStored, sealManifest deleted, sealManifest storedAgain] = [] := by
  have htombstone : Tombstones (sealManifest deleted) blob.objectId :=
    ⟨blobTombstone, by simp [deleted], rfl⟩
  refine ⟨?_, ?_, ?_⟩
  · apply loadManifestChain_fileChain ∅ 
    · unfold BackupSnapshotManifest.Representable
      decide +kernel
    · rfl
    · rfl
  · refine ⟨[sealManifest firstStored, sealManifest deleted], sealManifest storedAgain, [], rfl,
      ?_, ?_, by simp⟩
    · simp [findLast, storedAgain]
    · simp [Tombstones, storedAgain, manifest]
  · apply List.eq_nil_iff_forall_not_mem.mpr
    intro entry hentry
    rcases mem_compactObjectEntries_iff.mp hentry with ⟨hkept, hlast⟩
    have hentry := mem_of_findLast hlast
    obtain rfl : entry = blob := by
      simpa [firstStored, deleted, storedAgain, manifest] using hentry
    exact hkept (mem_tombstonedObjects.mpr ⟨_, by simp, htombstone⟩)

end StoredAgain

end GraphqlOrmBackup
