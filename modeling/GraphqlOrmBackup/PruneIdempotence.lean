import GraphqlOrmBackup.Garbage

/-!
# Pruning twice

A prune that returns leaves a repository in which every stored snapshot
survives a prune and nothing is garbage.  A prune of such a repository finds
the same newest snapshots, whose chains are all that is stored.
-/

namespace GraphqlOrmBackup

open Interaction

section Codec

variable [Crates]

/-! ## Repositories in which there is nothing to prune -/

/-- All that is stored is retained: `count` snapshots, and no garbage. -/
structure AllRetained (s : Store) (keepLast count : Nat) : Prop where
  written : CrateWritten s
  loads : ∀ id, snapshotManifestKey id ∈ s → ∃ manifest, loadManifest s id = .ok manifest
  chains : ∀ id, AmongNewest s keepLast id → ∃ chain, loadManifestChain s id = .ok chain
  clean : ∀ key ∈ s, ¬ Garbage s keepLast key
  counts : ∀ ids : List Uuid, ids.Nodup → (∀ id, id ∈ ids ↔ snapshotManifestKey id ∈ s) →
    ids.length = count

section AllRetained

variable {s : Store} {keepLast count : Nat} {manifests : List BackupSnapshotManifest}
  {chains : List (List BackupSnapshotManifest)}

theorem AllRetained.survives (h : AllRetained s keepLast count) {id : Uuid}
    {manifest : BackupSnapshotManifest} (hload : loadManifest s id = .ok manifest) :
    SurvivesPrune s keepLast id := by
  by_contra hexpired
  have hdir := inSnapshotDir_snapshotManifestKey id
  exact h.clean _ (lookup_of_loadManifest hload)
    (Or.inl ⟨id, manifest, hload, hexpired, hdir.startsWith_prefix⟩)

/-- The manifests of a listing load. -/
theorem AllRetained.exists_manifests (h : AllRetained s keepLast count) {keys : List String}
    (hkeys : Lists s "snapshots" keys) :
    ∃ manifests, List.Forall₂ (fun id manifest => loadManifest s id = .ok manifest)
      (keys.filterMap snapshotIdFromManifestKey) manifests := by
  apply exists_forall₂
  intro id hid
  rcases List.mem_filterMap.mp hid with ⟨key, hkey, hid⟩
  have hstored := ((hkeys.2 key).mp hkey).1
  rw [h.written.canonical key hstored id hid] at hstored
  exact h.loads id hstored

/-- So do the chains of what is selected. -/
theorem AllRetained.exists_chains (h : AllRetained s keepLast count)
    (hlist : ListsManifests s manifests) :
    ∃ chains, List.Forall₂ (fun id chain => loadManifestChain s id = .ok chain)
      (((manifests.mergeSort newerFirst).take keepLast).map (·.snapshotId)) chains :=
  exists_forall₂ fun id hid => h.chains id (amongNewest_of_mem_selected h.written hlist hid)

section Selected

variable (h : AllRetained s keepLast count) (hlist : ListsManifests s manifests)
  (hchains : List.Forall₂ (fun id chain => loadManifestChain s id = .ok chain)
    (((manifests.mergeSort newerFirst).take keepLast).map (·.snapshotId)) chains)

include h hlist hchains

/-- The chains hold all manifests. -/
theorem AllRetained.mem_flatten {manifest : BackupSnapshotManifest} :
    manifest ∈ chains.flatten ↔ loadManifest s manifest.snapshotId = .ok manifest := by
  rw [mem_flatten_iff h.written hlist hchains, and_iff_right_iff_imp]
  exact h.survives

theorem AllRetained.retained : (chains.flatten.map (·.snapshotId)).dedup.length = count := by
  apply h.counts _ (List.nodup_dedup _)
  intro id
  rw [List.mem_dedup, List.mem_map]
  constructor
  · intro hmem
    rcases hmem with ⟨manifest, hmem, rfl⟩
    exact lookup_of_loadManifest ((h.mem_flatten hlist hchains).mp hmem)
  · intro hstored
    obtain ⟨manifest, hload⟩ := h.loads id hstored
    obtain rfl := h.written.snapshotId _ _ hload
    exact ⟨manifest, (h.mem_flatten hlist hchains).mpr hload, rfl⟩

/-- No snapshot is expired. -/
theorem AllRetained.expired (order : HashOrder) :
    order.iterate (((manifests.mergeSort newerFirst).map (·.snapshotId)).dedup.filter
      fun id => id ∉ (chains.flatten.map (·.snapshotId)).dedup) = [] := by
  have hnone : ((manifests.mergeSort newerFirst).map (·.snapshotId)).dedup.filter
      (fun id => id ∉ (chains.flatten.map (·.snapshotId)).dedup) = [] := by
    rw [List.filter_eq_nil_iff]
    intro id hid
    rcases List.mem_map.mp (List.mem_dedup.mp hid) with ⟨manifest, hmem, rfl⟩
    have hload := loadManifest_of_mem_sorted h.written hlist hmem
    have hretained := (h.mem_flatten hlist hchains).mpr hload
    rw [decide_eq_true_eq, not_not, List.mem_dedup]
    exact List.mem_map_of_mem hretained
  rw [hnone]
  exact (order.perm []).eq_nil

/-- No object blob is unreachable. -/
theorem AllRetained.unreachable {keys : List String} (hkeys : Lists s "objects/sha256" keys) :
    keys.filter (fun key => key ∉ chains.flatten.flatMap collectReachableKeys) = [] := by
  rw [List.filter_eq_nil_iff]
  intro key hkey
  rw [hkeys.2] at hkey
  have hnot := h.clean key hkey.1
  rw [Garbage, not_or, not_and] at hnot
  have hreferenced := hnot.2 hkey.2
  simp only [not_forall, not_not] at hreferenced
  rcases hreferenced with ⟨id, manifest, -, hload, hmem⟩
  obtain rfl := h.written.snapshotId _ _ hload
  rw [decide_eq_true_eq, not_not]
  exact List.mem_flatMap.mpr ⟨manifest, (h.mem_flatten hlist hchains).mpr hload, hmem⟩

end Selected

theorem not_garbage_repositoryLockKey : ¬ Garbage s keepLast repositoryLockKey := by
  intro h
  rcases h with ⟨id, -, -, -, hstarts⟩ | ⟨hstarts, -⟩
  · exact absurd (head?_of_startsWith (head?_snapshotPrefix id) hstarts) (by decide)
  · exact absurd hstarts (by decide)

theorem AllRetained.of_sameButLock {w w' : World} (h : AllRetained w.store keepLast count)
    (hsame : SameButLock w w') : AllRetained w'.store keepLast count := by
  have hmem : ∀ id, snapshotManifestKey id ∈ w'.store ↔ snapshotManifestKey id ∈ w.store :=
    fun id => Store.mem_congr (hsame.1 _ (inSnapshotDir_snapshotManifestKey id).ne_lock)
  constructor
  · exact h.written.of_sameButLock hsame
  · intro id hid
    rw [loadManifest_sameButLock hsame]
    exact h.loads id ((hmem id).mp hid)
  · intro id hnewest
    simp only [AmongNewest, loadManifest_sameButLock hsame] at hnewest
    obtain ⟨chain, hchain⟩ := h.chains id hnewest
    exact ⟨chain, loadManifestChain_sameButLock hsame.symm hchain⟩
  · intro key hkey
    by_cases hlock : key = repositoryLockKey
    · rw [hlock]
      exact not_garbage_repositoryLockKey
    · rw [garbage_sameButLock hsame]
      exact h.clean key ((Store.mem_congr (hsame.1 key hlock)).mp hkey)
  · intro ids hnodup hids
    exact h.counts ids hnodup fun id => (hids id).trans (hmem id)

end AllRetained

/-! ## Pruning such a repository -/

section Again

variable {host : Host} {w : World} {keepPolicy : KeepPolicy} {count : Nat}

theorem AllRetained.wpE_pruneInner (h : AllRetained w.store keepPolicy.keepLast count)
    (order : HashOrder) :
    wpE host.Answers (fun _ => True) (pruneInner order keepPolicy)
      (fun result w' => result = ⟨count, 0, 0⟩ ∧ w' = w) (fun _ _ => False) w := by
  refine wpE.seq (P := fun manifests w' => ListsManifests w.store manifests ∧ w' = w) ?_ ?_
  · apply wpE.seq wpE_listBlobs_answers
    rintro keys w' _ ⟨hkeys, rfl⟩
    obtain ⟨manifests, hload⟩ := h.exists_manifests hkeys
    refine (wpE_mapM'_read_answers hload).mono (fun _ _ _ hread => ?_) fun _ _ _ h => h
    rcases hread with ⟨rfl, rfl⟩
    exact ⟨listsManifests_of_forall₂ h.written hkeys hload, rfl⟩
  rintro manifests w' _ ⟨hlist, rfl⟩
  obtain ⟨chains, hchains⟩ := h.exists_chains hlist
  apply wpE.seq (wpE_mapM'_read_answers hchains)
  rintro _ w' _ ⟨rfl, rfl⟩
  simp only [h.expired hlist hchains order, h.retained hlist hchains]
  refine wpE.seq (P := fun blobs w'' => blobs = [] ∧ w'' = w') ⟨trivial, rfl, rfl⟩ ?_
  rintro _ w' _ ⟨rfl, rfl⟩
  refine wpE.seq (P := fun blobs w'' => blobs = 0 ∧ w'' = w') ?_ ?_
  · apply wpE.seq wpE_listBlobs_answers
    rintro keys w' _ ⟨hkeys, rfl⟩
    rw [h.unreachable hlist hchains hkeys]
    exact ⟨trivial, rfl, rfl⟩
  · rintro _ w' _ ⟨rfl, rfl⟩
    exact ⟨trivial, rfl, rfl⟩

theorem AllRetained.returns_pruneInner (h : AllRetained w.store keepPolicy.keepLast count)
    (order : HashOrder) :
    Returns host.Answers w (pruneInner order keepPolicy).run (.ok ⟨count, 0, 0⟩) w := by
  have hkeys := w.store.lists_listing "snapshots"
  obtain ⟨manifests, hload⟩ := h.exists_manifests hkeys
  have hlist := listsManifests_of_forall₂ h.written hkeys hload
  obtain ⟨chains, hchains⟩ := h.exists_chains hlist
  have hobjects : Returns host.Answers w
      (deleteUnreachable (chains.flatten.flatMap collectReachableKeys)).run (.ok 0) w := by
    have hlisted : Returns host.Answers w (listBlobs "objects/sha256").run
        (.ok (w.store.listing "objects/sha256")) w :=
      Host.returns_call ⟨⟨_, rfl, w.store.lists_listing _⟩, rfl⟩
    apply Fallible.returns_bind hlisted
    rw [h.unreachable hlist hchains (w.store.lists_listing _)]
    exact Reaches.refl _ _
  rw [← h.retained hlist hchains]
  exact Host.returns_pruneInner order keepPolicy (Host.returns_loadAllManifests hkeys hload) hchains
    (h.expired hlist hchains order) (Reaches.refl _ _) hobjects

/-- A prune of such a repository returns, whatever the environment, and
    changes no blob. -/
theorem AllRetained.prune_again (h : AllRetained w.store keepPolicy.keepLast count)
    (hfree : w.store.lookup repositoryLockKey = none) (order : HashOrder) :
    (∃ r w', Returns host.Answers w (prune order keepPolicy).run r w') ∧
    ∀ r w', Returns host.Answers w (prune order keepPolicy).run r w' →
      r = .ok ⟨count, 0, 0⟩ ∧ ∀ key, w'.store.lookup key = w.store.lookup key := by
  constructor
  · have hinner : Returns host.Answers w.locked (pruneInner order keepPolicy).run
        (.ok ⟨count, 0, 0⟩) w.locked :=
      (h.of_sameButLock (World.sameButLock_locked w)).returns_pruneInner order
    exact ⟨_, _, Host.returns_withLock hfree hinner⟩
  · intro r w' hret
    have hpost := hret.post (wpE_withLock_unchanged (P := (· = ⟨count, 0, 0⟩)) hfree
      fun w₁ hsame => (h.of_sameButLock hsame).wpE_pruneInner order)
    cases r with
    | error e => exact hpost.elim
    | ok result =>
      rcases hpost with ⟨rfl, hsame⟩
      exact ⟨rfl, hsame⟩

end Again

/-! ## What a prune leaves is all retained -/

section Left

variable {w w' : World} {keepLast count : Nat}

/-- The snapshots that are left are those that survive. -/
theorem Pruned.loadManifest_iff (h : Pruned keepLast w w') {id : Uuid}
    {manifest : BackupSnapshotManifest} : loadManifest w'.store id = .ok manifest ↔
      loadManifest w.store id = .ok manifest ∧ SurvivesPrune w.store keepLast id := by
  have hdir := inSnapshotDir_snapshotManifestKey id
  constructor
  · intro hload'
    have hstored := (h.mem_iff hdir.ne_lock).mp (lookup_of_loadManifest hload')
    have hload : loadManifest w.store id = .ok manifest := by
      rw [← hload', loadManifest_congr ((h.erased _ hdir.ne_lock).2 hstored.2)]
    refine ⟨hload, ?_⟩
    by_contra hexpired
    exact hstored.2 (Or.inl ⟨id, manifest, hload, hexpired, hdir.startsWith_prefix⟩)
  · intro hload
    exact h.loadManifest_of_survives hload.2 hload.1

theorem AmongNewest.survives {s : Store} {id : Uuid} (h : AmongNewest s keepLast id) :
    SurvivesPrune s keepLast id :=
  ⟨id, h, .refl⟩

/-- The same snapshots are the newest. -/
theorem Pruned.amongNewest_iff (h : Pruned keepLast w w') (hw : CrateWritten w.store)
    {manifests : List BackupSnapshotManifest} (hlist : ListsManifests w.store manifests)
    {id : Uuid} : AmongNewest w'.store keepLast id ↔ AmongNewest w.store keepLast id := by
  constructor
  · intro hnewest
    rcases hnewest with ⟨manifest, hload', hfew⟩
    obtain ⟨hload, -⟩ := h.loadManifest_iff.mp hload'
    rcases mem_take_or_newer hlist keepLast ((hlist.mem_iff manifest).mpr ⟨id, hload⟩) with
      htake | ⟨hlength, hnewer⟩
    · rw [← hw.snapshotId _ _ hload]
      exact amongNewest_of_mem_selected hw hlist (List.mem_map_of_mem htake)
    -- the selected snapshots are all left, and they would be newer
    · have hlt := hfew _ (nodup_selected hlist keepLast) ?_
      · rw [List.length_map, hlength] at hlt
        exact absurd hlt (Nat.lt_irrefl _)
      · intro id' hid'
        have hsurvives := (amongNewest_of_mem_selected hw hlist hid').survives
        rcases List.mem_map.mp hid' with ⟨selected, hselected, rfl⟩
        have hselected' := loadManifest_of_mem_sorted hw hlist (List.mem_of_mem_take hselected)
        exact ⟨selected, h.loadManifest_iff.mpr ⟨hselected', hsurvives⟩, hnewer selected hselected⟩
  · intro hnewest
    have hsurvives := hnewest.survives
    rcases hnewest with ⟨manifest, hload, hfew⟩
    refine ⟨manifest, h.loadManifest_iff.mpr ⟨hload, hsurvives⟩, fun ids hnodup hnewer => ?_⟩
    refine hfew ids hnodup fun id' hid' => ?_
    rcases hnewer id' hid' with ⟨manifest', hload', hnew⟩
    exact ⟨manifest', (h.loadManifest_iff.mp hload').1, hnew⟩

/-- What survived survives again. -/
theorem Pruned.survives_again (h : Pruned keepLast w w') (hw : CrateWritten w.store)
    {manifests : List BackupSnapshotManifest} (hlist : ListsManifests w.store manifests)
    {id : Uuid} (hsurvives : SurvivesPrune w.store keepLast id) :
    SurvivesPrune w'.store keepLast id := by
  rcases hsurvives with ⟨leaf, hleaf, hanc⟩
  refine ⟨leaf, (h.amongNewest_iff hw hlist).mpr hleaf, ?_⟩
  induction hanc with
  | refl => exact .refl
  | @tail child parent hanc hparent ih =>
    rcases hparent with ⟨manifest, hload, hparent⟩
    exact ih.tail ⟨manifest, h.loadManifest_iff.mpr ⟨hload, leaf, hleaf, hanc⟩, hparent⟩

/-- The chains of the newest snapshots are all left. -/
theorem Pruned.loadManifestChain_of_amongNewest (h : Pruned keepLast w w') {id : Uuid}
    {chain : List BackupSnapshotManifest} (hnewest : AmongNewest w.store keepLast id)
    (hload : loadManifestChain w.store id = .ok chain) :
    loadManifestChain w'.store id = .ok chain := by
  rcases loadManifestChain_eq_ok.mp hload with ⟨path, hpath, hrest⟩
  refine loadManifestChain_eq_ok.mpr ⟨path, Lineage.congr hpath fun node hnode hstored => ?_, hrest⟩
  exact h.loadManifest_iff.mpr ⟨hstored, id, hnewest, reflTransGen_of_mem_path hpath node hnode⟩

theorem Pruned.crateWritten (h : Pruned keepLast w w') (hw : CrateWritten w.store) :
    CrateWritten w'.store := by
  constructor
  · intro key hkey id hid
    have hlock : key ≠ repositoryLockKey := by
      rintro rfl
      exact absurd hid (by simp [show snapshotIdFromManifestKey repositoryLockKey = none from rfl])
    exact hw.canonical key ((h.mem_iff hlock).mp hkey).1 id hid
  · exact fun id manifest hload => hw.snapshotId id manifest (h.loadManifest_iff.mp hload).1
  · exact fun id manifest hload => hw.entries id manifest (h.loadManifest_iff.mp hload).1
  · exact fun id manifest hload => hw.objects id manifest (h.loadManifest_iff.mp hload).1

/-- Nothing that is left is garbage. -/
theorem Pruned.not_garbage (h : Pruned keepLast w w') (hw : CrateWritten w.store)
    {manifests : List BackupSnapshotManifest} (hlist : ListsManifests w.store manifests)
    {key : String} (hkey : key ∈ w'.store) : ¬ Garbage w'.store keepLast key := by
  by_cases hlock : key = repositoryLockKey
  · rw [hlock]
    exact not_garbage_repositoryLockKey
  have hnot := ((h.mem_iff hlock).mp hkey).2
  intro hgarbage
  rcases hgarbage with ⟨id, manifest, hload, hexpired, -⟩ | ⟨hobj, hnone⟩
  · exact hexpired (h.survives_again hw hlist (h.loadManifest_iff.mp hload).2)
  · refine hnot (Or.inr ⟨hobj, fun id manifest hsurvives hload => ?_⟩)
    exact hnone id manifest (h.survives_again hw hlist hsurvives)
      (h.loadManifest_iff.mpr ⟨hload, hsurvives⟩)

theorem Pruned.loads_left (h : Pruned keepLast w w') {id : Uuid}
    (hid : snapshotManifestKey id ∈ w'.store) :
    ∃ manifest, loadManifest w'.store id = .ok manifest := by
  have hdir := inSnapshotDir_snapshotManifestKey id
  obtain ⟨hstored, hnot⟩ := (h.mem_iff hdir.ne_lock).mp hid
  obtain ⟨manifest, hload⟩ := h.loads id hstored
  exact ⟨manifest, (loadManifest_congr ((h.erased _ hdir.ne_lock).2 hnot)).trans hload⟩

/-- **All that a prune leaves is retained.** -/
theorem Pruned.allRetained (h : Pruned keepLast w w') (hw : CrateWritten w.store)
    (hretains : Retains w.store keepLast count) : AllRetained w'.store keepLast count := by
  rcases hretains with ⟨manifests, chains, hlist, hchains, rfl⟩
  constructor
  · exact h.crateWritten hw
  · exact fun id => h.loads_left
  · intro id hnewest
    rw [h.amongNewest_iff hw hlist] at hnewest
    obtain ⟨chain, -, hload⟩ := forall₂_mem_left hchains id (mem_selected hw hlist hnewest)
    exact ⟨chain, h.loadManifestChain_of_amongNewest hnewest hload⟩
  · exact fun key hkey => h.not_garbage hw hlist hkey
  · intro ids hnodup hids
    apply List.Perm.length_eq
    rw [List.perm_ext_iff_of_nodup hnodup (List.nodup_dedup _)]
    intro id
    rw [hids, List.mem_dedup, List.mem_map]
    constructor
    · intro hid
      obtain ⟨manifest, hload⟩ := h.loads_left hid
      obtain ⟨hload, hsurvives⟩ := h.loadManifest_iff.mp hload
      obtain rfl := hw.snapshotId _ _ hload
      exact ⟨manifest, (mem_flatten_iff hw hlist hchains).mpr ⟨hsurvives, hload⟩, rfl⟩
    · intro hid
      rcases hid with ⟨manifest, hmem, rfl⟩
      obtain ⟨hsurvives, hload⟩ := (mem_flatten_iff hw hlist hchains).mp hmem
      exact lookup_of_loadManifest (h.loadManifest_iff.mpr ⟨hload, hsurvives⟩)

end Left

/-- **Pruning is idempotent.**  After a prune that returns a result, a prune
    that keeps as many snapshots returns, in every environment in which the
    calls are answered, with the same number of retained snapshots and none
    deleted, and leaves every blob as it is. -/
theorem prune_is_idempotent {host : Host} {w w' : World} {order : HashOrder}
    {keepPolicy : KeepPolicy} {result : PruneResult} (hw : CrateWritten w.store)
    (hret : Returns host.MayFail w (prune order keepPolicy).run (.ok result) w')
    (host' : Host) (order' : HashOrder) (keepPolicy' : KeepPolicy)
    (hkeep : keepPolicy'.keepLast = keepPolicy.keepLast) :
    (∃ r w'', Returns host'.Answers w' (prune order' keepPolicy').run r w'') ∧
    ∀ r w'', Returns host'.Answers w' (prune order' keepPolicy').run r w'' →
      r = .ok ⟨result.retainedSnapshots, 0, 0⟩ ∧
      ∀ key, w''.store.lookup key = w'.store.lookup key := by
  obtain ⟨hpruned, hretains⟩ := returns_prune hw hret
  have hall := hpruned.allRetained hw hretains
  rw [← hkeep] at hall
  exact hall.prune_again (hret.post (wpE_withLock_unlocked _)) order'

end Codec

section Family

open Reference

/-- The first prune removes the old snapshot and keeps the parent of the new one. -/
theorem prune_is_idempotent_family : ∃ w' w'', Returns (database [] []).Answers familyWorld
      (prune inOrder keepOne).run (.ok ⟨2, 1, 2⟩) w' ∧
    Returns (database [] []).Answers w' (prune inOrder keepOne).run (.ok ⟨2, 0, 0⟩) w'' ∧
    ∀ key, w''.store.lookup key = w'.store.lookup key := by
  obtain ⟨⟨r, w'', hagain⟩, hall⟩ := prune_is_idempotent crateWritten_familyWorld
    (returns_mayFail returns_prune_familyWorld) (database [] []) inOrder keepOne rfl
  obtain ⟨rfl, hsame⟩ := hall r w'' hagain
  exact ⟨youngWorld, w'', returns_prune_familyWorld, hagain, hsame⟩

end Family

end GraphqlOrmBackup
