import GraphqlOrmBackup.Intact
import Mathlib.Data.List.Dedup

/-!
# Garbage collection keeps the survivors

Neither `prune` nor `delete_snapshot` touches a key that the chain of a
surviving snapshot depends on, at whatever call they are stopped.
-/

namespace GraphqlOrmBackup

open Interaction

section Codec

variable [Crates]

/-- `manifests` lists every stored manifest once. -/
structure ListsManifests (s : Store) (manifests : List BackupSnapshotManifest) : Prop where
  nodup : (manifests.map (·.snapshotId)).Nodup
  mem_iff : ∀ manifest, manifest ∈ manifests ↔ ∃ id, loadManifest s id = .ok manifest

/-- Every key of a manifest has been loaded. -/
theorem exists_of_forall₂ {s : Store} {keys : List String} (hkeys : Lists s "snapshots" keys)
    {manifests : List BackupSnapshotManifest}
    (hload : List.Forall₂ (fun id manifest => loadManifest s id = .ok manifest)
      (keys.filterMap snapshotIdFromManifestKey) manifests) {id : Uuid}
    (hid : snapshotManifestKey id ∈ s) : ∃ manifest ∈ manifests, loadManifest s id = .ok manifest := by
  have hkey : snapshotManifestKey id ∈ keys :=
    (hkeys.2 _).mpr ⟨hid, startsWith_snapshotManifestKey id⟩
  exact forall₂_mem_left hload id
    (List.mem_filterMap.mpr ⟨_, hkey, snapshotIdFromManifestKey_snapshotManifestKey id⟩)

omit [Crates] in
/-- No id is read from two keys when each is read from its manifest's key only. -/
theorem nodup_snapshotIds {s : Store}
    (hcanonical : ∀ key ∈ s, ∀ id, snapshotIdFromManifestKey key = some id →
      key = snapshotManifestKey id) {keys : List String} (hkeys : Lists s "snapshots" keys) :
    (keys.filterMap snapshotIdFromManifestKey).Nodup := by
  rw [List.Nodup, List.pairwise_filterMap]
  apply hkeys.1.imp_of_mem
  rintro key key' hkey hkey' hne id hid id' hid' rfl
  exact hne ((hcanonical key ((hkeys.2 key).mp hkey).1 id hid).trans
    (hcanonical key' ((hkeys.2 key').mp hkey').1 id hid').symm)

theorem listsManifests_of_forall₂ {s : Store} (hw : CrateWritten s) {keys : List String}
    (hkeys : Lists s "snapshots" keys) {manifests : List BackupSnapshotManifest}
    (hload : List.Forall₂ (fun id manifest => loadManifest s id = .ok manifest)
      (keys.filterMap snapshotIdFromManifestKey) manifests) : ListsManifests s manifests := by
  have hids := nodup_snapshotIds hw.canonical hkeys
  refine ⟨?_, fun manifest => ⟨fun hmem => ?_, ?_⟩⟩
  · have hmap : manifests.map (·.snapshotId) = keys.filterMap snapshotIdFromManifestKey := by
      refine List.forall₂_eq_eq_eq ▸ List.forall₂_map_left_iff.mpr ?_
      exact hload.flip.imp fun manifest id h => hw.snapshotId id manifest h
    rw [hmap]
    exact hids
  · obtain ⟨id, _, hid⟩ := forall₂_mem_right hload manifest hmem
    exact ⟨id, hid⟩
  · intro h
    rcases h with ⟨id, hid⟩
    obtain ⟨manifest', hmem', hload'⟩ :=
      exists_of_forall₂ hkeys hload (lookup_of_loadManifest hid)
    rw [loadManifest_functional s id _ _ hid hload']
    exact hmem'

/-! ## Deleting what is not kept -/

section Rules

variable {host : Host} {w : World} {s : Store} {kept : Set String}

theorem wpE_loadAllManifests (hw : CrateWritten w.store) :
    wpE host.MayFail (· = w) loadAllManifests
      (fun manifests _ => ListsManifests w.store manifests ∧
        ∀ id, snapshotManifestKey id ∈ w.store → ∃ manifest, loadManifest w.store id = .ok manifest)
      (fun _ _ => True) w := by
  refine wpE.seq (P := fun keys _ => Lists w.store "snapshots" keys)
    (wpE_listBlobs rfl (fun _ _ _ => trivial) fun _ h => h) ?_
  rintro keys w' rfl hkeys
  refine (wpE_mapM'_read _).mono (fun manifests _ _ hload => ?_) fun _ _ _ h => h
  refine ⟨listsManifests_of_forall₂ hw hkeys hload, fun id hid => ?_⟩
  obtain ⟨manifest, -, hmanifest⟩ := exists_of_forall₂ hkeys hload hid
  exact ⟨manifest, hmanifest⟩

omit [Crates] in
theorem wpE_deleteBlobs {keys : List String} (h : AgreeOn kept s w.store)
    (hkeys : ∀ key ∈ keys, key ∉ kept) :
    wpE host.MayFail (fun w => AgreeOn kept s w.store) (deleteBlobs keys) (fun _ _ => True)
      (fun _ _ => True) w := by
  refine wpE.seq (wpE_forM (P := fun _ _ => True) keys trivial h ?_) fun _ _ h _ => ⟨h, trivial⟩
  rintro key rest w' ⟨pre, hpre⟩ hagree _
  have hkey : key ∉ kept := hkeys key (hpre ▸ by simp)
  exact wpE_deleteBlob hagree (fun _ _ _ => trivial)
    (hagree.trans (agreeOn_deleteBlob _ hkey)) trivial

omit [Crates] in
theorem wpE_deleteSnapshotBlobs {id : Uuid} (h : AgreeOn kept s w.store)
    (hid : ∀ key ∈ kept, startsWith key (snapshotPrefix id) = false) :
    wpE host.MayFail (fun w => AgreeOn kept s w.store) (deleteSnapshotBlobs id) (fun _ _ => True)
      (fun _ _ => True) w := by
  refine wpE.seq (P := fun keys _ => ∀ key ∈ keys, key ∉ kept) ?_ fun keys w' h hkeys =>
    wpE_deleteBlobs h hkeys
  refine wpE_listBlobs h (fun _ _ _ => trivial) fun keys hkeys key hkey hkept => ?_
  exact absurd (((hkeys.2 key).mp hkey).2.symm.trans (hid key hkept)) (by decide)

omit [Crates] in
theorem wpE_deleteUnreachable {reachable : List String} (h : AgreeOn kept s w.store)
    (hreach : ∀ key ∈ kept, startsWith key "objects/sha256" = true → key ∈ reachable) :
    wpE host.MayFail (fun w => AgreeOn kept s w.store) (deleteUnreachable reachable)
      (fun _ _ => True) (fun _ _ => True) w := by
  refine wpE.seq (P := fun keys _ => ∀ key ∈ keys, startsWith key "objects/sha256" = true) ?_ ?_
  · exact wpE_listBlobs h (fun _ _ _ => trivial) fun keys hkeys key hkey =>
      ((hkeys.2 key).mp hkey).2
  · intro keys w' h hkeys
    refine wpE_deleteBlobs h fun key hkey hkept => ?_
    rw [List.mem_filter, decide_eq_true_eq] at hkey
    exact hkey.2 (hreach key hkept (hkeys key hkey.1))

end Rules

/-! ## The survivors of a prune -/

/-- The order by which snapshots are kept: creation time, then snapshot id. -/
def Newer (left right : BackupSnapshotManifest) : Prop :=
  right.createdAt < left.createdAt ∨
    (right.createdAt = left.createdAt ∧ right.snapshotId.ordKey < left.snapshotId.ordKey)

/-- Fewer than `keepLast` stored snapshots are newer than `id`. -/
def AmongNewest (s : Store) (keepLast : Nat) (id : Uuid) : Prop :=
  ∃ manifest, loadManifest s id = .ok manifest ∧
    ∀ ids : List Uuid, ids.Nodup →
      (∀ id' ∈ ids, ∃ manifest', loadManifest s id' = .ok manifest' ∧ Newer manifest' manifest) →
      ids.length < keepLast

def HasParent (s : Store) (child parent : Uuid) : Prop :=
  ∃ manifest, loadManifest s child = .ok manifest ∧ manifest.parentSnapshotId = some parent

/-- The `keepLast` newest snapshots and all their ancestors. -/
def SurvivesPrune (s : Store) (keepLast : Nat) (id : Uuid) : Prop :=
  ∃ leaf, AmongNewest s keepLast leaf ∧ Relation.ReflTransGen (HasParent s) leaf id

omit [Crates] in
theorem newerFirst_iff {left right : BackupSnapshotManifest} :
    newerFirst left right = true ↔ right.createdAt < left.createdAt ∨
      (right.createdAt = left.createdAt ∧
        right.snapshotId.ordKey ≤ left.snapshotId.ordKey) := by
  simp [newerFirst]

omit [Crates] in
theorem pairwise_newerFirst (manifests : List BackupSnapshotManifest) :
    (manifests.mergeSort newerFirst).Pairwise fun left right => newerFirst left right = true := by
  refine List.pairwise_mergeSort ?_ ?_ manifests
  · intro a b c hab hbc
    rw [newerFirst_iff] at *
    rcases hab with hab | ⟨hab, hab'⟩
    · rcases hbc with hbc | ⟨hbc, _⟩
      · exact Or.inl (Int.lt_trans hbc hab)
      · exact Or.inl (hbc ▸ hab)
    · rcases hbc with hbc | ⟨hbc, hbc'⟩
      · exact Or.inl (hab ▸ hbc)
      · exact Or.inr ⟨hbc.trans hab, hbc'.trans hab'⟩
  · intro a b
    rw [Bool.or_eq_true, newerFirst_iff, newerFirst_iff]
    rcases Int.lt_trichotomy a.createdAt b.createdAt with h | h | h
    · exact Or.inr (Or.inl h)
    · rcases le_total b.snapshotId.ordKey a.snapshotId.ordKey with h' | h'
      · exact Or.inl (Or.inr ⟨h.symm, h'⟩)
      · exact Or.inr (Or.inr ⟨h, h'⟩)
    · exact Or.inl (Or.inl h)

omit [Crates] in
/-- What is selected is newer than what is not. -/
theorem newer_of_mem_take {manifests : List BackupSnapshotManifest}
    (hnodup : (manifests.map (·.snapshotId)).Nodup) {keepLast : Nat}
    {selected other : BackupSnapshotManifest}
    (hselected : selected ∈ (manifests.mergeSort newerFirst).take keepLast)
    (hother : other ∈ (manifests.mergeSort newerFirst).drop keepLast) : Newer selected other := by
  have hpair := pairwise_newerFirst manifests
  have hids : ((manifests.mergeSort newerFirst).map (·.snapshotId)).Nodup :=
    ((List.mergeSort_perm manifests newerFirst).map _).nodup_iff.mpr hnodup
  rw [← List.take_append_drop keepLast (manifests.mergeSort newerFirst)] at hpair hids
  rw [List.pairwise_append] at hpair
  rw [List.map_append, List.nodup_append] at hids
  have hne := hids.2.2 _ (List.mem_map_of_mem hselected) _ (List.mem_map_of_mem hother)
  rcases newerFirst_iff.mp (hpair.2.2 _ hselected _ hother) with hlt | ⟨heq, hle⟩
  · exact Or.inl hlt
  · exact Or.inr ⟨heq, lt_of_le_of_ne hle fun h => hne (Uuid.ordKey_injective h).symm⟩

/-- Either a manifest is selected, or `keepLast` newer ones are. -/
theorem mem_take_or_newer {s : Store} {manifests : List BackupSnapshotManifest}
    (hlist : ListsManifests s manifests) (keepLast : Nat) {manifest : BackupSnapshotManifest}
    (hmem : manifest ∈ manifests) :
    manifest ∈ (manifests.mergeSort newerFirst).take keepLast ∨
      ((manifests.mergeSort newerFirst).take keepLast).length = keepLast ∧
        ∀ selected ∈ (manifests.mergeSort newerFirst).take keepLast, Newer selected manifest := by
  have hsorted : manifest ∈ manifests.mergeSort newerFirst := List.mem_mergeSort.mpr hmem
  rw [← List.take_append_drop keepLast (manifests.mergeSort newerFirst), List.mem_append] at hsorted
  rcases hsorted with htake | hdrop
  · exact Or.inl htake
  · have hpos := List.length_pos_of_mem hdrop
    rw [List.length_drop] at hpos
    refine Or.inr ⟨?_, fun selected hselected => newer_of_mem_take hlist.nodup hselected hdrop⟩
    rw [List.length_take]
    omega

theorem nodup_selected {s : Store} {manifests : List BackupSnapshotManifest}
    (hlist : ListsManifests s manifests) (keepLast : Nat) :
    (((manifests.mergeSort newerFirst).take keepLast).map (·.snapshotId)).Nodup := by
  have hids : ((manifests.mergeSort newerFirst).map (·.snapshotId)).Nodup :=
    ((List.mergeSort_perm manifests newerFirst).map _).nodup_iff.mpr hlist.nodup
  rw [List.map_take]
  exact hids.take

theorem loadManifest_of_mem_sorted {s : Store} {manifests : List BackupSnapshotManifest}
    (hw : CrateWritten s) (hlist : ListsManifests s manifests) {manifest : BackupSnapshotManifest}
    (hmem : manifest ∈ manifests.mergeSort newerFirst) :
    loadManifest s manifest.snapshotId = .ok manifest := by
  obtain ⟨id, hload⟩ := (hlist.mem_iff manifest).mp (List.mem_mergeSort.mp hmem)
  rw [hw.snapshotId _ _ hload]
  exact hload

/-- `prune` selects the newest snapshots. -/
theorem mem_selected {s : Store} {manifests : List BackupSnapshotManifest}
    (hw : CrateWritten s) (hlist : ListsManifests s manifests) {keepLast : Nat} {id : Uuid}
    (h : AmongNewest s keepLast id) :
    id ∈ ((manifests.mergeSort newerFirst).take keepLast).map (·.snapshotId) := by
  rcases h with ⟨manifest, hload, hfew⟩
  have hmem := (hlist.mem_iff manifest).mpr ⟨id, hload⟩
  rcases mem_take_or_newer hlist keepLast hmem with htake | ⟨hlength, hnewer⟩
  · exact List.mem_map.mpr ⟨manifest, htake, hw.snapshotId id manifest hload⟩
  -- otherwise the selected snapshots are `keepLast` newer ones
  · exfalso
    have hlt := hfew _ (nodup_selected hlist keepLast) ?_
    · rw [List.length_map, hlength] at hlt
      exact Nat.lt_irrefl _ hlt
    · intro id' hid'
      rcases List.mem_map.mp hid' with ⟨selected, hselected, rfl⟩
      exact ⟨selected, loadManifest_of_mem_sorted hw hlist (List.mem_of_mem_take hselected),
        hnewer selected hselected⟩

/-- The ancestors of a snapshot are on its lineage. -/
theorem mem_path_of_hasParent {s : Store} {leaf id : Uuid}
    {path : List (Uuid × BackupSnapshotManifest)} (hpath : ManifestPath s leaf path)
    (h : Relation.ReflTransGen (HasParent s) leaf id) : id ∈ path.map Prod.fst := by
  induction h with
  | refl => exact hpath.key_mem
  | tail _ hparent ih =>
    rcases hparent with ⟨manifest, hload, hparent⟩
    rcases List.mem_map.mp ih with ⟨node, hnode, rfl⟩
    have hstored := hpath.stored_of_mem node hnode
    rw [← loadManifest_functional s node.1 _ _ hstored hload] at hparent
    exact hpath.parent_mem (loadManifest_functional s) hnode hparent

/-- The chain of an ancestor is part of the chain of a snapshot. -/
theorem chain_subset {s : Store} {leaf id : Uuid} {leafChain chain : List BackupSnapshotManifest}
    (hleaf : loadManifestChain s leaf = .ok leafChain)
    (hanc : Relation.ReflTransGen (HasParent s) leaf id)
    (h : loadManifestChain s id = .ok chain) : chain ⊆ leafChain := by
  rcases loadManifestChain_eq_ok.mp hleaf with ⟨leafPath, hleafPath, rfl, _⟩
  rcases loadManifestChain_eq_ok.mp h with ⟨path, hpath, rfl, _⟩
  rcases List.mem_map.mp (mem_path_of_hasParent hleafPath hanc) with ⟨node, hnode, rfl⟩
  obtain ⟨pre, hpre, hinit⟩ := hleafPath.prefix_of_mem node hnode
  rw [hpath.unique (loadManifest_functional s) hpre]
  exact (hinit.map Prod.snd).subset

/-! ## Both operations -/

section Operations

variable {host : Host} {w : World} {id : Uuid} {chain : List BackupSnapshotManifest}

omit [Crates] in
theorem mem_collectReachableKeys {manifest : BackupSnapshotManifest} {key : String}
    (h : key ∈ manifest.objectChecks.map Prod.fst) : key ∈ collectReachableKeys manifest := by
  rw [BackupSnapshotManifest.objectChecks, List.map_map] at h
  exact List.mem_append_right _ h

/-- A listing of another snapshot's blobs meets no key of the chain. -/
theorem Intact.not_startsWith (hw : CrateWritten w.store) (h : Intact w.store id chain)
    {other : Uuid} (hother : other ∉ chain.map (·.snapshotId)) :
    ∀ key ∈ chainKeys chain, startsWith key (snapshotPrefix other) = false := by
  intro key hkey
  obtain ⟨manifest, hmem, hdir | ⟨hobj, _⟩⟩ := h.key_cases hw hkey
  · rw [Bool.eq_false_iff]
    intro hstarts
    exact hother (hdir.id_eq hstarts ▸ List.mem_map_of_mem hmem)
  · exact hobj.not_snapshots other

/-- The object keys of the chain are those that its manifests reach. -/
theorem Intact.reachable (hw : CrateWritten w.store) (h : Intact w.store id chain)
    {manifests : List BackupSnapshotManifest} (hsub : chain ⊆ manifests) :
    ∀ key ∈ chainKeys chain, startsWith key "objects/sha256" = true →
      key ∈ manifests.flatMap collectReachableKeys := by
  intro key hkey hstarts
  obtain ⟨manifest, hmem, hdir | ⟨_, hobj⟩⟩ := h.key_cases hw hkey
  · exact absurd (hstarts.symm.trans hdir.not_objects) (by decide)
  · exact List.mem_flatMap.mpr ⟨manifest, hsub hmem, mem_collectReachableKeys hobj⟩

theorem wpE_pruneInner (order : HashOrder) (keepPolicy : KeepPolicy) (hw : CrateWritten w.store)
    (hsurvives : SurvivesPrune w.store keepPolicy.keepLast id) (h : Intact w.store id chain) :
    wpE host.MayFail (fun w' => AgreeOn (chainKeys chain) w.store w'.store)
      (pruneInner order keepPolicy) (fun _ _ => True) (fun _ _ => True) w := by
  have hsame : ∀ w', w' = w → AgreeOn (chainKeys chain) w.store w'.store := by
    rintro w' rfl
    exact AgreeOn.refl _ _
  apply wpE.seq ((wpE_loadAllManifests hw).relax hsame fun _ _ _ h => h)
  rintro manifests w' _ ⟨rfl, hlist, -⟩
  apply wpE.seq ((wpE_mapM'_read _).relax hsame fun _ _ _ h => h)
  rintro chains w'' _ ⟨rfl, hchains⟩
  -- the survivor's chain is part of a chain that was loaded
  rcases hsurvives with ⟨leaf, hleaf, hanc⟩
  obtain ⟨leafChain, hmem, hload⟩ := forall₂_mem_left hchains leaf (mem_selected hw hlist hleaf)
  have hsub : chain ⊆ chains.flatten := fun manifest hmanifest =>
    List.mem_flatten.mpr ⟨leafChain, hmem, chain_subset hload hanc h.loads hmanifest⟩
  refine wpE.seq (wpE_mapM' (P := fun _ _ _ => True) _ [] trivial (AgreeOn.refl _ _) ?_) ?_
  · rintro expired done rest w₁ ⟨pre, hpre⟩ hagree _
    refine wpE_deleteSnapshotBlobs hagree (h.not_startsWith hw fun hretained => ?_)
    have hexpired : expired ∈ pre ++ expired :: rest := by simp
    rw [hpre, (order.perm _).mem_iff, List.mem_filter, decide_eq_true_eq, List.mem_dedup] at hexpired
    rcases List.mem_map.mp hretained with ⟨manifest, hmanifest, rfl⟩
    exact hexpired.2 (List.mem_dedup.mpr (List.mem_map_of_mem (hsub hmanifest)))
  · intro snapshotBlobs w₁ hagree _
    apply wpE.seq (wpE_deleteUnreachable hagree (h.reachable hw hsub))
    exact fun _ w₂ hagree _ => ⟨hagree, trivial⟩

theorem wpE_deleteSnapshotInner {deleted : Uuid} (hw : CrateWritten w.store) (hne : id ≠ deleted)
    (h : Intact w.store id chain) :
    wpE host.MayFail (fun w' => AgreeOn (chainKeys chain) w.store w'.store)
      (deleteSnapshotInner deleted) (fun _ _ => True) (fun _ _ => True) w := by
  have hsame : ∀ w', w' = w → AgreeOn (chainKeys chain) w.store w'.store := by
    rintro w' rfl
    exact AgreeOn.refl _ _
  apply wpE.seq ((wpE_loadAllManifests hw).relax hsame fun _ _ _ h => h)
  rintro manifests w' _ ⟨rfl, hlist, -⟩
  split
  · exact ⟨AgreeOn.refl _ _, trivial⟩
  split
  · exact ⟨AgreeOn.refl _ _, trivial⟩
  next hchild =>
  have hsub : chain ⊆ manifests := fun manifest hmem =>
    (hlist.mem_iff manifest).mpr ⟨_, h.loadManifest hw hmem⟩
  -- no stored manifest names the deleted snapshot as its parent
  have hnotMem : deleted ∉ chain.map (·.snapshotId) := by
    intro hmem
    rcases loadManifestChain_eq_ok.mp h.loads with ⟨path, hpath, rfl, _⟩
    rw [List.map_map] at hmem
    rcases List.mem_map.mp hmem with ⟨node, hnode, hid⟩
    have hkey := hw.snapshotId _ _ (hpath.stored_of_mem node hnode)
    obtain ⟨child, hmemChild, hparent⟩ :=
      hpath.child_of_ne node hnode (by rw [← hkey]; exact fun heq => hne (heq ▸ hid))
    have hnone := List.find?_eq_none.mp hchild child.2 (hsub (List.mem_map_of_mem hmemChild))
    rw [hparent, ← hkey] at hnone
    exact hnone (decide_eq_true (congrArg some hid))
  apply wpE.seq (wpE_deleteSnapshotBlobs (AgreeOn.refl _ _) (h.not_startsWith hw hnotMem))
  intro snapshotBlobs w₁ hagree _
  refine wpE.seq (wpE_deleteUnreachable hagree (h.reachable hw fun manifest hmem => ?_)) ?_
  · rw [List.mem_filter, decide_eq_true_eq]
    exact ⟨hsub hmem, fun heq => hnotMem (heq ▸ List.mem_map_of_mem hmem)⟩
  · exact fun _ w₂ hagree _ => ⟨hagree, trivial⟩

theorem SurvivesPrune.of_sameButLock {w' : World} {keepLast : Nat}
    (h : SurvivesPrune w.store keepLast id) (hsame : SameButLock w w') :
    SurvivesPrune w'.store keepLast id := by
  have hparent : HasParent w'.store = HasParent w.store := by
    funext child parent
    simp only [HasParent, loadManifest_sameButLock hsame]
  simpa only [SurvivesPrune, AmongNewest, hparent, loadManifest_sameButLock hsame] using h

/-- What the work keeps of a chain, the work under the lock keeps as well. -/
theorem wpE_withLock_keeps {α : Type} {options : RepositoryLockOptions} {inner : BackupM α}
    (hw : CrateWritten w.store) (h : Intact w.store id chain)
    (hinner : ∀ w', SameButLock w w' →
      wpE host.MayFail (fun w'' => AgreeOn (chainKeys chain) w'.store w''.store) inner
        (fun _ _ => True) (fun _ _ => True) w') :
    wpE host.MayFail (fun w' => AgreeOn (chainKeys chain) w.store w'.store)
      (withLock options inner) (fun _ _ => True) (fun _ _ => True) w := by
  have hlock := h.lock_notMem hw
  refine wpE_withLock (fun w₁ w₂ hsame hagree => hagree.trans (hsame.agreeOn hlock))
    (fun _ _ _ _ _ => trivial) (AgreeOn.refl _ _) fun w' hsame => ?_
  exact wp.mono (hinner w' hsame) (fun _ hagree => (hsame.agreeOn hlock).trans hagree)
    fun _ _ _ hr => hr

theorem Host.returns_loadAllManifests {keys : List String} {manifests : List BackupSnapshotManifest}
    (hkeys : Lists w.store "snapshots" keys)
    (hload : List.Forall₂ (fun id manifest => loadManifest w.store id = .ok manifest)
      (keys.filterMap snapshotIdFromManifestKey) manifests) :
    Returns host.Answers w loadAllManifests.run (.ok manifests) w := by
  have hlist : Returns host.Answers w (listBlobs "snapshots").run (.ok keys) w :=
    Host.returns_call ⟨⟨keys, rfl, hkeys⟩, rfl⟩
  exact Fallible.returns_bind hlist (Host.returns_mapM'_read hload)

/-- The world without these blobs. -/
def World.without (w : World) (keys : List String) : World :=
  w.withStore (keys.foldl Store.deleteBlob w.store)

omit [Crates] in
theorem World.mem_without {keys : List String} {key : String} :
    key ∈ (w.without keys).store ↔ key ∈ w.store ∧ key ∉ keys := by
  change key ∈ keys.foldl Store.deleteBlob w.store ↔ _
  generalize w.store = s
  induction keys generalizing s with
  | nil => simp
  | cons first keys ih =>
    rw [List.foldl_cons, ih, Store.deleteBlob, AList.mem_erase, List.mem_cons, not_or]
    tauto

omit [Crates] in
theorem World.lists_without {pfx : String} {listed : List String} (h : Lists w.store pfx listed)
    (keys : List String) :
    Lists (w.without keys).store pfx (listed.filter fun key => key ∉ keys) := by
  refine ⟨h.1.filter _, fun key => ?_⟩
  rw [List.mem_filter, h.2, World.mem_without, decide_eq_true_eq]
  tauto

omit [Crates] in
theorem World.lists_locked {pfx : String} {listed : List String} (h : Lists w.store pfx listed)
    (hlock : startsWith repositoryLockKey pfx = false) : Lists w.locked.store pfx listed := by
  refine ⟨h.1, fun key => (h.2 key).trans (and_congr_left fun hstarts => ?_)⟩
  have hne : key ≠ repositoryLockKey := by
    rintro rfl
    exact absurd (hstarts.symm.trans hlock) (by decide)
  exact (SameButLock.mem_iff (World.sameButLock_locked w) hne).symm

omit [Crates] in
theorem Host.returns_deleteBlobs (keys : List String) :
    Returns host.Answers w (deleteBlobs keys).run (.ok keys.length) (w.without keys) := by
  have hall : Returns host.Answers w (forM keys deleteBlob : BackupM PUnit).run (.ok ⟨⟩)
      (w.without keys) := by
    induction keys generalizing w with
    | nil => exact Reaches.refl _ _
    | cons key keys ih =>
      have hdelete : Returns host.Answers w (deleteBlob key).run (.ok ())
          (w.without [key]) := Host.returns_call ⟨rfl, rfl⟩
      rw [List.forM_cons]
      exact Fallible.returns_bind hdelete ih
  exact Fallible.returns_bind hall (Reaches.refl _ _)

omit [Crates] in
theorem Host.returns_deleteSnapshotBlobs {id : Uuid} {keys : List String}
    (hkeys : Lists w.store (snapshotPrefix id) keys) :
    Returns host.Answers w (deleteSnapshotBlobs id).run (.ok keys.length) (w.without keys) := by
  have hlist : Returns host.Answers w (listBlobs (snapshotPrefix id)).run (.ok keys) w :=
    Host.returns_call ⟨⟨keys, rfl, hkeys⟩, rfl⟩
  exact Fallible.returns_bind hlist (Host.returns_deleteBlobs keys)

omit [Crates] in
theorem Host.returns_deleteUnreachable {reachable keys unreachable : List String}
    (hkeys : Lists w.store "objects/sha256" keys)
    (hfilter : keys.filter (fun key => key ∉ reachable) = unreachable) :
    Returns host.Answers w (deleteUnreachable reachable).run (.ok unreachable.length)
      (w.without unreachable) := by
  have hlist : Returns host.Answers w (listBlobs "objects/sha256").run (.ok keys) w :=
    Host.returns_call ⟨⟨keys, rfl, hkeys⟩, rfl⟩
  subst hfilter
  exact Fallible.returns_bind hlist (Host.returns_deleteBlobs _)

/-- A prune from its parts. -/
theorem Host.returns_pruneInner (order : HashOrder) (keepPolicy : KeepPolicy)
    {manifests : List BackupSnapshotManifest} {chains : List (List BackupSnapshotManifest)}
    {blobs : List Nat} {objectBlobs : Nat} {w₁ w' : World} {expired : List Uuid}
    (hload : Returns host.Answers w loadAllManifests.run (.ok manifests) w)
    (hchains : List.Forall₂ (fun id chain => loadManifestChain w.store id = .ok chain)
      (((manifests.mergeSort newerFirst).take keepPolicy.keepLast).map (·.snapshotId)) chains)
    (hexpired : order.iterate (((manifests.mergeSort newerFirst).map (·.snapshotId)).dedup.filter
      fun id => id ∉ (chains.flatten.map (·.snapshotId)).dedup) = expired)
    (hblobs : Returns host.Answers w (expired.mapM' deleteSnapshotBlobs).run (.ok blobs) w₁)
    (hobjects : Returns host.Answers w₁
      (deleteUnreachable (chains.flatten.flatMap collectReachableKeys)).run (.ok objectBlobs) w') :
    Returns host.Answers w (pruneInner order keepPolicy).run
      (.ok ⟨(chains.flatten.map (·.snapshotId)).dedup.length, expired.length,
        blobs.sum + objectBlobs⟩) w' := by
  subst hexpired
  apply Fallible.returns_bind hload
  apply Fallible.returns_bind (Host.returns_mapM'_read hchains)
  exact Fallible.returns_bind hblobs (Fallible.returns_bind hobjects (Reaches.refl _ _))

/-- The deletion of a stored snapshot that is no parent, from its parts. -/
theorem Host.returns_deleteSnapshotInner {id : Uuid} {manifests : List BackupSnapshotManifest}
    {snapshotBlobs objectBlobs : Nat} {w₁ w' : World}
    (hload : Returns host.Answers w loadAllManifests.run (.ok manifests) w)
    (hstored : ∃ manifest ∈ manifests, manifest.snapshotId = id)
    (hleaf : ∀ manifest ∈ manifests, manifest.parentSnapshotId ≠ some id)
    (hblobs : Returns host.Answers w (deleteSnapshotBlobs id).run (.ok snapshotBlobs) w₁)
    (hobjects : Returns host.Answers w₁ (deleteUnreachable ((manifests.filter fun manifest =>
      manifest.snapshotId ≠ id).flatMap collectReachableKeys)).run (.ok objectBlobs) w') :
    Returns host.Answers w (deleteSnapshotInner id).run
      (.ok ⟨snapshotBlobs + objectBlobs, manifests.length - 1⟩) w' := by
  have hsome : ¬ (manifests.all fun manifest => manifest.snapshotId ≠ id) = true := by
    simpa using hstored
  have hnone : (manifests.find? fun manifest => manifest.parentSnapshotId = some id) = none :=
    List.find?_eq_none.mpr fun manifest hmem => by simpa using hleaf manifest hmem
  apply Fallible.returns_bind hload
  rw [if_neg hsome, hnone]
  exact Fallible.returns_bind hblobs (Fallible.returns_bind hobjects (Reaches.refl _ _))

/-- The deletion of a stored snapshot that is no parent returns, when every manifest
    loads, and leaves nothing in the directory of the snapshot. -/
theorem Host.exists_returns_deleteSnapshotInner {id : Uuid}
    (hloads : ∀ key ∈ w.store, ∀ found, snapshotIdFromManifestKey key = some found →
      ∃ manifest, loadManifest w.store found = .ok manifest ∧ manifest.parentSnapshotId ≠ some id)
    {stored : BackupSnapshotManifest} (hstored : loadManifest w.store id = .ok stored)
    (hid : stored.snapshotId = id) :
    ∃ result w', Returns host.Answers w (deleteSnapshotInner id).run (.ok result) w' ∧
      ∀ key ∈ w'.store, key ∈ w.store ∧ startsWith key (snapshotPrefix id) = false := by
  have hkeys := w.store.lists_listing "snapshots"
  have hlisted : ∀ found ∈ (w.store.listing "snapshots").filterMap snapshotIdFromManifestKey,
      ∃ manifest, loadManifest w.store found = .ok manifest ∧
        manifest.parentSnapshotId ≠ some id := by
    intro found hfound
    obtain ⟨key, hkey, hkeyId⟩ := List.mem_filterMap.mp hfound
    exact hloads key ((hkeys.2 key).mp hkey).1 found hkeyId
  obtain ⟨manifests, hboth⟩ := exists_forall₂ hlisted
  have hmem : id ∈ (w.store.listing "snapshots").filterMap snapshotIdFromManifestKey :=
    List.mem_filterMap.mpr ⟨snapshotManifestKey id, (hkeys.2 _).mpr ⟨lookup_of_loadManifest hstored,
      InSnapshotDir.startsWith_snapshots (inSnapshotDir_snapshotManifestKey id)⟩,
      snapshotIdFromManifestKey_snapshotManifestKey id⟩
  obtain ⟨manifest, hmanifest, hload, -⟩ := forall₂_mem_left hboth id hmem
  obtain rfl := Except.ok.inj (hstored.symm.trans hload)
  have hleaf : ∀ manifest ∈ manifests, manifest.parentSnapshotId ≠ some id := by
    intro manifest hmem
    obtain ⟨_, -, -, hparent⟩ := forall₂_mem_right hboth manifest hmem
    exact hparent
  refine ⟨_, _, Host.returns_deleteSnapshotInner
    (Host.returns_loadAllManifests hkeys (hboth.imp fun _ _ h => h.1)) ⟨stored, hmanifest, hid⟩ hleaf
    (Host.returns_deleteSnapshotBlobs (w.store.lists_listing _))
    (Host.returns_deleteUnreachable (Store.lists_listing _ _) rfl), fun key hkey => ?_⟩
  obtain ⟨hkey, hnot⟩ := World.mem_without.mp (World.mem_without.mp hkey).1
  refine ⟨hkey, Bool.eq_false_iff.mpr fun hstarts => hnot ?_⟩
  exact ((w.store.lists_listing _).2 key).mpr ⟨hkey, hstarts⟩

/-- **Garbage collection keeps the survivors.**  At every call at which `prune`
    or `delete_snapshot` is stopped or fails, a surviving snapshot loads to the
    chain it had before, and all of the chain verifies. -/
theorem garbage_collection_keeps_survivors (hw : CrateWritten w.store) :
    (∀ order keepPolicy w' rest,
      Reaches host.MayFail w (prune order keepPolicy).run w' rest →
      ∀ id chain, SurvivesPrune w.store keepPolicy.keepLast id →
        Intact w.store id chain → Intact w'.store id chain) ∧
    (∀ deleted lockOptions w' rest,
      Reaches host.MayFail w (deleteSnapshot deleted lockOptions).run w' rest →
      ∀ id chain, id ≠ deleted → Intact w.store id chain → Intact w'.store id chain) := by
  constructor
  · intro order keepPolicy w' rest hreach id chain hsurvives h
    refine h.of_agree hw.snapshotId (hreach.crash (wpE_withLock_keeps hw h fun w₁ hsame => ?_))
    exact wpE_pruneInner order keepPolicy (hw.of_sameButLock hsame)
      (hsurvives.of_sameButLock hsame) (h.of_sameButLock hw hsame)
  · intro deleted lockOptions w' rest hreach id chain hne h
    refine h.of_agree hw.snapshotId (hreach.crash (wpE_withLock_keeps hw h fun w₁ hsame => ?_))
    exact wpE_deleteSnapshotInner (hw.of_sameButLock hsame) hne (h.of_sameButLock hw hsame)

end Operations

end Codec

/-! ## A prune and a deletion -/

section Family

open Reference

def inOrder : HashOrder := ⟨id, fun _ => List.Perm.refl _⟩

def keepOne : KeepPolicy := ⟨1, RepositoryLockOptions.default⟩

/-- The manifests in the order in which they are listed, which is also theirs by age. -/
def sealedFamily : List BackupSnapshotManifest := family.map sealManifest

theorem mergeSort_sealedFamily : sealedFamily.mergeSort newerFirst = sealedFamily :=
  List.mergeSort_of_pairwise (by decide)

theorem loadManifest_familyWorld_iff {id : Uuid} {found : BackupSnapshotManifest} :
    loadManifest familyWorld.store id = .ok found ↔
      ∃ manifest ∈ family, manifest.snapshotId = id ∧ sealManifest manifest = found :=
  loadManifest_fileChain_iff files_family

/-- What is stored in the directories of the snapshots. -/
def snapshotFiles : List String :=
  family.map (fun manifest => snapshotManifestKey manifest.snapshotId) ++
    [databaseChangesKey (uuid 3) "notes", databaseTableKey (uuid 1) "notes"]

def objectFiles : List String := [scan.contentKey, photo.contentKey]

theorem mem_familyBlobs {key : String} : key ∈ familyBlobs ↔
    key ∈ [databaseChangesKey (uuid 3) "notes", databaseTableKey (uuid 1) "notes"] ∨
      key ∈ objectFiles := by
  simp only [familyBlobs, objectFiles, Store.putBlob, AList.mem_insert, AList.notMem_empty,
    List.mem_cons, List.not_mem_nil, or_false, or_assoc]

theorem mem_familyWorld {key : String} :
    key ∈ familyWorld.store ↔ key ∈ snapshotFiles ∨ key ∈ objectFiles := by
  have hmem : ∀ entries, key ∈ filed familyBlobs entries ↔
      key ∈ entries.map (fun entry => snapshotManifestKey entry.1) ∨ key ∈ familyBlobs := by
    intro entries
    induction entries with
    | nil => simp [filed]
    | cons entry entries ih =>
      rw [filed, Store.putBlob, AList.mem_insert, ih, List.map_cons, List.mem_cons, or_assoc]
  have h := hmem (family.map fun manifest => (manifest.snapshotId, manifest))
  rw [List.map_map, mem_familyBlobs, ← or_assoc] at h
  rw [snapshotFiles, List.mem_append]
  exact h

theorem inSnapshotDir_of_mem_snapshotFiles {key : String} (h : key ∈ snapshotFiles) :
    ∃ id, InSnapshotDir id key ∧ (id = uuid 2 → key = snapshotManifestKey id) := by
  rcases List.mem_append.mp h with h | h
  · obtain ⟨manifest, -, rfl⟩ := List.mem_map.mp h
    exact ⟨_, inSnapshotDir_snapshotManifestKey _, fun _ => rfl⟩
  · rcases List.mem_pair.mp h with rfl | rfl
    · exact ⟨_, inSnapshotDir_databaseChangesKey _ _, fun h => absurd h (by decide)⟩
    · exact ⟨_, inSnapshotDir_databaseTableKey _ _, fun h => absurd h (by decide)⟩

theorem inObjectStore_of_mem_objectFiles {key : String} (h : key ∈ objectFiles) :
    InObjectStore key := by
  rcases List.mem_pair.mp h with rfl | rfl
  · exact inObjectStore_objectContentKey _
  · exact inObjectStore_objectContentKey _

theorem lists_snapshotFiles : Lists familyWorld.store "snapshots" snapshotFiles := by
  refine ⟨by decide +kernel, fun key => ?_⟩
  rw [mem_familyWorld]
  constructor
  · intro h
    obtain ⟨id, hdir, -⟩ := inSnapshotDir_of_mem_snapshotFiles h
    exact ⟨Or.inl h, hdir.startsWith_snapshots⟩
  · rintro ⟨h | h, hstarts⟩
    · exact h
    · have hnot := (inObjectStore_of_mem_objectFiles h).not_startsWith_snapshots
      exact absurd (hstarts.symm.trans hnot) (by decide)

theorem lists_objectFiles : Lists familyWorld.store "objects/sha256" objectFiles := by
  refine ⟨by decide, fun key => ?_⟩
  rw [mem_familyWorld]
  constructor
  · exact fun h => ⟨Or.inr h, (inObjectStore_of_mem_objectFiles h).startsWith_objects⟩
  · rintro ⟨h | h, hstarts⟩
    · obtain ⟨id, hdir, -⟩ := inSnapshotDir_of_mem_snapshotFiles h
      exact absurd (hstarts.symm.trans hdir.not_objects) (by decide)
    · exact h

/-- The directory of the old snapshot. -/
theorem lists_oldSnapshot :
    Lists familyWorld.store (snapshotPrefix (uuid 2)) [snapshotManifestKey (uuid 2)] := by
  refine ⟨List.nodup_singleton _, fun key => ?_⟩
  rw [List.mem_singleton, mem_familyWorld]
  constructor
  · rintro rfl
    exact ⟨Or.inl (by simp [snapshotFiles, family, oldSnapshot, manifest]),
      InSnapshotDir.startsWith_prefix (inSnapshotDir_snapshotManifestKey _)⟩
  · rintro ⟨h | h, hstarts⟩
    · obtain ⟨id, hdir, hkey⟩ := inSnapshotDir_of_mem_snapshotFiles h
      obtain rfl := hdir.id_eq hstarts
      exact hkey rfl
    · have hnot := (inObjectStore_of_mem_objectFiles h).not_snapshots (uuid 2)
      exact absurd (hstarts.symm.trans hnot) (by decide)

/-- Each manifest is loaded from the key that is listed for it. -/
theorem loadAllManifests_familyWorld :
    List.Forall₂ (fun id manifest => loadManifest familyWorld.store id = .ok manifest)
      (snapshotFiles.filterMap snapshotIdFromManifestKey) sealedFamily := by
  have hmanifests : snapshotIdFromManifestKey ∘
      (fun manifest : BackupSnapshotManifest => snapshotManifestKey manifest.snapshotId) =
        some ∘ (·.snapshotId) :=
    funext fun manifest => snapshotIdFromManifestKey_snapshotManifestKey _
  have hother : [databaseChangesKey (uuid 3) "notes", databaseTableKey (uuid 1) "notes"].filterMap
      snapshotIdFromManifestKey = [] := by
    rw [List.filterMap_eq_nil_iff]
    exact fun key hkey => files_family.blobs key (mem_familyBlobs.mpr (Or.inl hkey))
  rw [snapshotFiles, List.filterMap_append, hother, List.append_nil, List.filterMap_map, hmanifests,
    List.filterMap_eq_map, sealedFamily, List.forall₂_map_left_iff, List.forall₂_map_right_iff,
    List.forall₂_same]
  exact fun manifest hmem => loadManifest_familyWorld_iff.mpr ⟨manifest, hmem, rfl, rfl⟩

theorem returns_loadAllManifests_locked : Returns (database [] []).Answers familyWorld.locked
    loadAllManifests.run (.ok sealedFamily) familyWorld.locked := by
  apply Host.returns_loadAllManifests (World.lists_locked lists_snapshotFiles (by decide))
  exact loadAllManifests_familyWorld.imp fun _ _ hload =>
    (loadManifest_sameButLock (World.sameButLock_locked _) _).trans hload

/-- The repository under the lock, without the directory of the old snapshot. -/
def withoutOld : World := familyWorld.locked.without [snapshotManifestKey (uuid 2)]

/-- The repository without the old snapshot and the object that only it has. -/
def youngWorld : World :=
  let w := withoutOld.without [scan.contentKey]
  w.withStore (w.store.deleteBlob repositoryLockKey)

theorem returns_deleteSnapshotBlobs_locked : Returns (database [] []).Answers familyWorld.locked
    (deleteSnapshotBlobs (uuid 2)).run (.ok 1) withoutOld :=
  Host.returns_deleteSnapshotBlobs (World.lists_locked lists_oldSnapshot (by decide))

theorem returns_deleteUnreachable_withoutOld {reachable : List String}
    (hphoto : photo.contentKey ∈ reachable) (hscan : scan.contentKey ∉ reachable) :
    Returns (database [] []).Answers withoutOld (deleteUnreachable reachable).run (.ok 1)
      (withoutOld.without [scan.contentKey]) := by
  have hkept : objectFiles.filter (fun key => key ∉ [snapshotManifestKey (uuid 2)]) =
      objectFiles := by
    refine List.filter_eq_self.mpr fun key hkey => decide_eq_true ?_
    rw [List.mem_singleton]
    rintro rfl
    exact (inObjectStore_of_mem_objectFiles hkey).not_inSnapshotDir _
      (inSnapshotDir_snapshotManifestKey _)
  have hlists := World.lists_without (World.lists_locked lists_objectFiles (by decide))
    [snapshotManifestKey (uuid 2)]
  apply Host.returns_deleteUnreachable (hkept ▸ hlists)
  simp [objectFiles, hphoto, hscan]

/-- The newest snapshot and its parent are retained; the other one is removed,
    though it has the same parent. -/
theorem returns_prune_familyWorld : Returns (database [] []).Answers familyWorld
    (prune inOrder keepOne).run (.ok ⟨2, 1, 2⟩) youngWorld := by
  have hchains : List.Forall₂
      (fun id chain => loadManifestChain familyWorld.locked.store id = .ok chain)
      (((sealedFamily.mergeSort newerFirst).take keepOne.keepLast).map (·.snapshotId))
      [[sealManifest rootSnapshot, sealManifest newSnapshot]] := by
    rw [mergeSort_sealedFamily]
    have hintact := intact_familyWorld.2.2.of_sameButLock crateWritten_familyWorld
      (World.sameButLock_locked _)
    exact .cons hintact.loads .nil
  have hexpired : inOrder.iterate (((sealedFamily.mergeSort newerFirst).map
      (·.snapshotId)).dedup.filter fun id => id ∉
        ([[sealManifest rootSnapshot, sealManifest newSnapshot]].flatten.map
          (·.snapshotId)).dedup) = [uuid 2] := by
    rw [mergeSort_sealedFamily]
    decide
  have hblobs : Returns (database [] []).Answers familyWorld.locked
      ([uuid 2].mapM' deleteSnapshotBlobs).run (.ok [1]) withoutOld :=
    Fallible.returns_bind returns_deleteSnapshotBlobs_locked
      (Fallible.returns_bind (Reaches.refl _ _) (Reaches.refl _ _))
  have hobjects := @returns_deleteUnreachable_withoutOld
    ([[sealManifest rootSnapshot, sealManifest newSnapshot]].flatten.flatMap collectReachableKeys)
    (by decide +kernel) (by decide +kernel)
  exact Host.returns_withLock (by decide +kernel)
    (Host.returns_pruneInner inOrder keepOne returns_loadAllManifests_locked hchains hexpired
      hblobs hobjects)

theorem returns_deleteSnapshot_familyWorld : Returns (database [] []).Answers familyWorld
    (deleteSnapshot (uuid 2) .default).run (.ok ⟨2, 2⟩) youngWorld := by
  have hothers : (sealedFamily.filter fun manifest => manifest.snapshotId ≠ uuid 2) =
      [sealManifest newSnapshot, sealManifest rootSnapshot] := rfl
  have hobjects := @returns_deleteUnreachable_withoutOld
    ([sealManifest newSnapshot, sealManifest rootSnapshot].flatMap collectReachableKeys)
    (by decide +kernel) (by decide +kernel)
  exact Host.returns_withLock (by decide +kernel) (Host.returns_deleteSnapshotInner
    returns_loadAllManifests_locked (by decide) (by decide) returns_deleteSnapshotBlobs_locked
    (hothers ▸ hobjects))

/-- The old snapshot and its own object are gone. -/
theorem notMem_youngWorld :
    snapshotManifestKey (uuid 2) ∉ youngWorld.store ∧ scan.contentKey ∉ youngWorld.store := by
  have hgone : ∀ key, key ∈ youngWorld.store →
      key ∉ [snapshotManifestKey (uuid 2)] ∧ key ∉ [scan.contentKey] := by
    intro key hkey
    obtain ⟨hkey, hscan⟩ := World.mem_without.mp (AList.mem_erase.mp hkey).2
    exact ⟨(World.mem_without.mp hkey).2, hscan⟩
  exact ⟨fun hkey => (hgone _ hkey).1 List.mem_cons_self,
    fun hkey => (hgone _ hkey).2 List.mem_cons_self⟩

theorem survivesPrune_familyWorld :
    SurvivesPrune familyWorld.store keepOne.keepLast (uuid 3) ∧
    SurvivesPrune familyWorld.store keepOne.keepLast (uuid 1) := by
  have hnew : loadManifest familyWorld.store (uuid 3) = .ok (sealManifest newSnapshot) :=
    loadManifest_familyWorld_iff.mpr ⟨newSnapshot, by simp [family], rfl, rfl⟩
  have hnewest : AmongNewest familyWorld.store keepOne.keepLast (uuid 3) := by
    refine ⟨_, hnew, fun ids _ hids => Nat.lt_succ_of_le (Nat.le_of_eq ?_)⟩
    rw [List.length_eq_zero_iff, List.eq_nil_iff_forall_not_mem]
    intro id hid
    obtain ⟨_, hload, hnewer⟩ := hids id hid
    obtain ⟨manifest, hmem, -, rfl⟩ := loadManifest_familyWorld_iff.mp hload
    have hnone : ∀ manifest ∈ family,
        ¬ Newer (sealManifest manifest) (sealManifest newSnapshot) := by
      unfold Newer
      decide
    exact hnone manifest hmem hnewer
  exact ⟨⟨_, hnewest, .refl⟩, ⟨_, hnewest, .single ⟨_, hnew, rfl⟩⟩⟩

theorem garbage_collection_keeps_survivors_family :
    (∃ w', Returns (database [] []).MayFail familyWorld (prune inOrder keepOne).run
        (.ok ⟨2, 1, 2⟩) w' ∧
      snapshotManifestKey (uuid 2) ∉ w'.store ∧ scan.contentKey ∉ w'.store ∧
      Intact w'.store (uuid 3) [sealManifest rootSnapshot, sealManifest newSnapshot] ∧
      Intact w'.store (uuid 1) [sealManifest rootSnapshot]) ∧
    ∃ w', Returns (database [] []).MayFail familyWorld (deleteSnapshot (uuid 2) .default).run
        (.ok ⟨2, 2⟩) w' ∧
      snapshotManifestKey (uuid 2) ∉ w'.store ∧ scan.contentKey ∉ w'.store ∧
      Intact w'.store (uuid 3) [sealManifest rootSnapshot, sealManifest newSnapshot] ∧
      Intact w'.store (uuid 1) [sealManifest rootSnapshot] := by
  obtain ⟨hprune, hdelete⟩ :=
    @garbage_collection_keeps_survivors _ (database [] []) _ crateWritten_familyWorld
  obtain ⟨hroot, -, hnew⟩ := intact_familyWorld
  obtain ⟨hsurvives, hancestor⟩ := survivesPrune_familyWorld
  have hpruned := returns_mayFail returns_prune_familyWorld
  have hdeleted := returns_mayFail returns_deleteSnapshot_familyWorld
  obtain ⟨hgone, hscan⟩ := notMem_youngWorld
  exact ⟨⟨_, hpruned, hgone, hscan, hprune _ _ _ _ hpruned _ _ hsurvives hnew,
      hprune _ _ _ _ hpruned _ _ hancestor hroot⟩,
    ⟨_, hdeleted, hgone, hscan, hdelete _ _ _ _ hdeleted _ _ (by decide) hnew,
      hdelete _ _ _ _ hdeleted _ _ (by decide) hroot⟩⟩

end Family

end GraphqlOrmBackup
