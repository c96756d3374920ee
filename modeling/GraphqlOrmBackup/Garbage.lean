import GraphqlOrmBackup.Environment
import GraphqlOrmBackup.GarbageCollection
import GraphqlOrmBackup.Reachability

/-!
# What a prune leaves

A prune that returns has erased the directories of the expired snapshots and
the object blobs that no retained manifest references, and nothing else.  So
what it leaves belongs to a retained snapshot, or lies in the directory of an
id under which no manifest was stored: the remains of a failed backup or of an
interrupted deletion.
-/

namespace GraphqlOrmBackup

open Interaction

/-! ## Erasing -/

/-- `s'` is `s` without the keys that satisfy `P`. -/
def Erased (P : String → Prop) (s s' : Store) : Prop :=
  ∀ key, (P key → s'.lookup key = none) ∧ (¬ P key → s'.lookup key = s.lookup key)

section Erasing

variable {P P' : String → Prop} {s s₁ s' : Store} {host : Host} {w : World}

theorem Erased.refl (s : Store) : Erased (fun _ => False) s s := fun _ => ⟨False.elim, fun _ => rfl⟩

theorem Erased.trans (h : Erased P s s₁) (h' : Erased P' s₁ s') :
    Erased (fun key => P key ∨ P' key) s s' := by
  intro key
  by_cases hkey' : P' key
  · exact ⟨fun _ => (h' key).1 hkey', fun hnot => absurd (Or.inr hkey') hnot⟩
  · simp only [(h' key).2 hkey', or_iff_left hkey']
    exact h key

/-- Only the stored keys matter. -/
theorem Erased.congr (h : Erased P s s') (hiff : ∀ key ∈ s, P key ↔ P' key) : Erased P' s s' := by
  intro key
  by_cases hmem : key ∈ s
  · rw [← hiff key hmem]
    exact h key
  · have hnone : s.lookup key = none := AList.lookup_eq_none.mpr hmem
    have hnone' : s'.lookup key = none := by
      by_cases hkey : P key
      · exact (h key).1 hkey
      · rw [(h key).2 hkey, hnone]
    exact ⟨fun _ => hnone', fun _ => hnone'.trans hnone.symm⟩

theorem Erased.mem_iff (h : Erased P s s') {key : String} : key ∈ s' ↔ key ∈ s ∧ ¬ P key := by
  rw [← AList.lookup_isSome, ← AList.lookup_isSome]
  by_cases hkey : P key
  · simp [(h key).1 hkey, hkey]
  · simp [(h key).2 hkey, hkey]

theorem erased_deleteBlob (s : Store) (key : String) : Erased (· = key) s (s.deleteBlob key) := by
  intro key'
  rw [Store.lookup_deleteBlob]
  exact ⟨fun heq => if_pos heq, fun hne => if_neg hne⟩

theorem wpE_forM_deleteBlob (keys : List String) (w : World) :
    wpE host.MayFail (fun _ => True) (forM keys deleteBlob)
      (fun _ w' => Erased (· ∈ keys) w.store w'.store) (fun _ _ => True) w := by
  induction keys generalizing w with
  | nil => exact ⟨trivial, (Erased.refl w.store).congr fun key _ => by simp⟩
  | cons key keys ih =>
    rw [List.forM_cons]
    refine wpE.seq (P := fun _ w₁ => Erased (· = key) w.store w₁.store)
      (wpE_deleteBlob trivial (fun _ _ _ => trivial) trivial (erased_deleteBlob w.store key)) ?_
    intro _ w₁ _ hkey
    refine (ih w₁).mono (fun _ w' _ hkeys => ?_) (fun _ _ _ h => h)
    exact (hkey.trans hkeys).congr fun key' _ => List.mem_cons.symm

theorem wpE_deleteBlobs_erased (keys : List String) (w : World) :
    wpE host.MayFail (fun _ => True) (deleteBlobs keys)
      (fun _ w' => Erased (· ∈ keys) w.store w'.store) (fun _ _ => True) w :=
  wpE.seq (wpE_forM_deleteBlob keys w) fun _ _ _ herased => ⟨trivial, herased⟩

/-- Deleting the keys of a listing that satisfy a further condition. -/
theorem wpE_deleteListed (host : Host) (listPrefix : String) (p : String → Bool) (w : World) :
    wpE host.MayFail (fun _ => True)
      (listBlobs listPrefix >>= fun keys => deleteBlobs (keys.filter p))
      (fun _ w' => Erased (fun key => startsWith key listPrefix = true ∧ p key = true)
        w.store w'.store) (fun _ _ => True) w := by
  refine wpE.seq (P := fun keys w' => Lists w.store listPrefix keys ∧ w' = w) ?_ ?_
  · apply wpE_call_mayFail trivial (fun _ _ _ => trivial)
    rintro r w' ⟨⟨keys, rfl, hkeys⟩, rfl⟩
    exact ⟨trivial, hkeys, rfl⟩
  · rintro keys w - ⟨hkeys, rfl⟩
    refine (wpE_deleteBlobs_erased _ w).mono (fun _ w' _ herased => ?_) (fun _ _ _ h => h)
    refine herased.congr fun key hkey => ?_
    rw [List.mem_filter, hkeys.2]
    simp [hkey]

theorem wpE_deleteSnapshotBlobs_erased (id : Uuid) (w : World) :
    wpE host.MayFail (fun _ => True) (deleteSnapshotBlobs id)
      (fun _ w' => Erased (fun key => startsWith key (snapshotPrefix id) = true) w.store w'.store)
      (fun _ _ => True) w := by
  have h := wpE_deleteListed host (snapshotPrefix id) (fun _ => true) w
  simpa [deleteSnapshotBlobs, List.filter_true] using h

/-- Deletions one after the other. -/
theorem wpE_mapM'_erased {α γ : Type} {Q : γ → String → Prop} {f : γ → BackupM α}
    (hf : ∀ x w, wpE host.MayFail (fun _ => True) (f x)
      (fun _ w' => Erased (Q x) w.store w'.store) (fun _ _ => True) w) (l : List γ) (w : World) :
    wpE host.MayFail (fun _ => True) (l.mapM' f)
      (fun _ w' => Erased (fun key => ∃ x ∈ l, Q x key) w.store w'.store) (fun _ _ => True) w := by
  induction l generalizing w with
  | nil => exact ⟨trivial, (Erased.refl w.store).congr fun key _ => by simp⟩
  | cons x l ih =>
    rw [List.mapM'_cons]
    refine wpE.seq (hf x w) fun _ w₁ _ hx => wpE.seq (ih w₁) fun _ w' _ hl => ⟨trivial, ?_⟩
    exact (hx.trans hl).congr fun key _ => by simp

theorem wpE_deleteUnreachable_erased (reachable : List String) (w : World) :
    wpE host.MayFail (fun _ => True) (deleteUnreachable reachable)
      (fun _ w' => Erased (fun key => startsWith key "objects/sha256" = true ∧ key ∉ reachable)
        w.store w'.store) (fun _ _ => True) w := by
  have h := wpE_deleteListed host "objects/sha256" (fun key => key ∉ reachable) w
  simpa only [deleteUnreachable, decide_eq_true_eq] using h

end Erasing

/-! ## What is retained -/

section Codec

variable [Crates]

section Retained

variable {s : Store} {manifests : List BackupSnapshotManifest}
  {chains : List (List BackupSnapshotManifest)} {keepLast : Nat} {id : Uuid}

omit [Crates] in
theorem Newer.asymm {left right : BackupSnapshotManifest} (h : Newer left right) :
    newerFirst right left = false := by
  rw [Bool.eq_false_iff, ne_eq, newerFirst_iff]
  rcases h with hlt | ⟨heq, hlt⟩
  · intro h
    rcases h with hlt' | ⟨heq', -⟩
    · exact absurd hlt (Int.not_lt.mpr (Int.le_of_lt hlt'))
    · rw [heq'] at hlt
      exact Int.lt_irrefl _ hlt
  · intro h
    rcases h with hlt' | ⟨-, hle⟩
    · rw [heq] at hlt'
      exact Int.lt_irrefl _ hlt'
    · exact absurd hlt (not_lt.mpr hle)

/-- The snapshots that are selected are among the newest. -/
theorem amongNewest_of_mem_selected (hw : CrateWritten s) (hlist : ListsManifests s manifests)
    (h : id ∈ ((manifests.mergeSort newerFirst).take keepLast).map (·.snapshotId)) :
    AmongNewest s keepLast id := by
  rcases List.mem_map.mp h with ⟨manifest, hmem, rfl⟩
  have hperm := List.mergeSort_perm manifests newerFirst
  have hpair := pairwise_newerFirst manifests
  have hstored : ∀ manifest ∈ manifests.mergeSort newerFirst,
      loadManifest s manifest.snapshotId = .ok manifest := fun _ =>
    loadManifest_of_mem_sorted hw hlist
  generalize manifests.mergeSort newerFirst = sorted at *
  rcases List.mem_iff_getElem.mp hmem with ⟨i, hi, rfl⟩
  rw [List.length_take] at hi
  rw [List.getElem_take]
  refine ⟨sorted[i], hstored _ (List.getElem_mem _), ?_⟩
  intro ids hnodup hnewer
  -- whatever is newer comes earlier
  have hsub : ids ⊆ (sorted.take i).map (·.snapshotId) := by
    intro id' hid'
    obtain ⟨manifest', hload', hnew⟩ := hnewer id' hid'
    have hmem' : manifest' ∈ sorted := hperm.mem_iff.mpr ((hlist.mem_iff manifest').mpr ⟨_, hload'⟩)
    rcases List.mem_iff_getElem.mp hmem' with ⟨j, hj, rfl⟩
    have hlt : j < i := by
      by_contra hnot
      rcases Nat.eq_or_lt_of_le (Nat.le_of_not_lt hnot) with rfl | hlt
      · exact absurd hnew.asymm (by simp [newerFirst_iff])
      · have hfirst := List.pairwise_iff_getElem.mp hpair i j (by omega) hj hlt
        rw [hnew.asymm] at hfirst
        contradiction
    refine List.mem_map.mpr ⟨sorted[j], ?_, hw.snapshotId _ _ hload'⟩
    exact List.mem_take_iff_getElem.mpr ⟨j, by omega, rfl⟩
  have hle := (List.subperm_of_subset hnodup hsub).length_le
  rw [List.length_map, List.length_take] at hle
  omega

/-- The members of a chain are ancestors of its snapshot. -/
theorem reflTransGen_of_mem_path {leaf : Uuid} {path : List (Uuid × BackupSnapshotManifest)}
    (hpath : ManifestPath s leaf path) :
    ∀ node ∈ path, Relation.ReflTransGen (HasParent s) leaf node.1 := by
  induction hpath with
  | root hk hn =>
    intro node hmem
    rw [List.mem_singleton.mp hmem]
  | child hk hn hpath ih =>
    intro node hmem
    rcases List.mem_append.mp hmem with hmem | hmem
    · exact .head ⟨_, hk, hn⟩ (ih node hmem)
    · rw [List.mem_singleton.mp hmem]

/-- **Retention.**  The manifests of the chains that `prune` loads are those of
    the surviving snapshots. -/
theorem mem_flatten_iff (hw : CrateWritten s) (hlist : ListsManifests s manifests)
    (hchains : List.Forall₂ (fun id chain => loadManifestChain s id = .ok chain)
      (((manifests.mergeSort newerFirst).take keepLast).map (·.snapshotId)) chains)
    {manifest : BackupSnapshotManifest} : manifest ∈ chains.flatten ↔
      SurvivesPrune s keepLast manifest.snapshotId ∧
        loadManifest s manifest.snapshotId = .ok manifest := by
  constructor
  · intro hmem
    rcases List.mem_flatten.mp hmem with ⟨chain, hchain, hmem⟩
    obtain ⟨leaf, hleaf, hload⟩ := forall₂_mem_right hchains chain hchain
    rcases loadManifestChain_eq_ok.mp hload with ⟨path, hpath, rfl, -⟩
    rcases List.mem_map.mp hmem with ⟨node, hnode, rfl⟩
    have hstored := hpath.stored_of_mem node hnode
    rw [hw.snapshotId _ _ hstored]
    exact ⟨⟨leaf, amongNewest_of_mem_selected hw hlist hleaf,
      reflTransGen_of_mem_path hpath node hnode⟩, hstored⟩
  · intro h
    rcases h with ⟨⟨leaf, hnewest, hanc⟩, hload⟩
    obtain ⟨chain, hchain, hloadChain⟩ :=
      forall₂_mem_left hchains leaf (mem_selected hw hlist hnewest)
    refine List.mem_flatten.mpr ⟨chain, hchain, ?_⟩
    rcases loadManifestChain_eq_ok.mp hloadChain with ⟨path, hpath, rfl, -⟩
    rcases List.mem_map.mp (mem_path_of_hasParent hpath hanc) with ⟨node, hnode, hid⟩
    have hstored := hpath.stored_of_mem node hnode
    rw [hid] at hstored
    rw [loadManifest_functional s _ _ _ hload hstored]
    exact List.mem_map_of_mem hnode

end Retained

/-- A key in the directory of an expired snapshot, or of an object blob that no
    retained manifest references. -/
def Garbage (s : Store) (keepLast : Nat) (key : String) : Prop :=
  (∃ id manifest, loadManifest s id = .ok manifest ∧ ¬ SurvivesPrune s keepLast id ∧
    startsWith key (snapshotPrefix id) = true) ∨
  (startsWith key "objects/sha256" = true ∧ ∀ id manifest, SurvivesPrune s keepLast id →
    loadManifest s id = .ok manifest → key ∉ collectReachableKeys manifest)

/-- The chains of the newest snapshots load and have this many manifests. -/
def Retains (s : Store) (keepLast : Nat) (count : Nat) : Prop :=
  ∃ manifests chains, ListsManifests s manifests ∧
    List.Forall₂ (fun id chain => loadManifestChain s id = .ok chain)
      (((manifests.mergeSort newerFirst).take keepLast).map (·.snapshotId)) chains ∧
    count = (chains.flatten.map (·.snapshotId)).dedup.length

section Prune

variable {host : Host} {w w' : World}

/-- **The effect of a prune.** -/
theorem wpE_pruneInner_erased (order : HashOrder) (keepPolicy : KeepPolicy)
    (hw : CrateWritten w.store) :
    wpE host.MayFail (fun _ => True) (pruneInner order keepPolicy)
      (fun result w' => (∀ id, snapshotManifestKey id ∈ w.store →
          ∃ manifest, loadManifest w.store id = .ok manifest) ∧
        Retains w.store keepPolicy.keepLast result.retainedSnapshots ∧
        Erased (Garbage w.store keepPolicy.keepLast) w.store w'.store)
      (fun _ _ => True) w := by
  apply wpE.seq ((wpE_loadAllManifests hw).relax (fun _ _ => trivial) fun _ _ _ h => h)
  rintro manifests w - ⟨rfl, hlist, hall⟩
  apply wpE.seq ((wpE_mapM'_read _).relax (fun _ _ => trivial) fun _ _ _ h => h)
  rintro chains w - ⟨rfl, hchains⟩
  have hretained : ∀ manifest, manifest ∈ chains.flatten ↔
      SurvivesPrune w.store keepPolicy.keepLast manifest.snapshotId ∧
        loadManifest w.store manifest.snapshotId = .ok manifest := fun manifest =>
    mem_flatten_iff hw hlist hchains
  apply wpE.seq (wpE_mapM'_erased wpE_deleteSnapshotBlobs_erased _ w)
  intro snapshotBlobs w₁ _ hexpired
  apply wpE.seq (wpE_deleteUnreachable_erased _ w₁)
  intro objectBlobs w₂ _ hobjects
  refine ⟨trivial, hall, ⟨manifests, chains, hlist, hchains, rfl⟩,
    (hexpired.trans hobjects).congr fun key _ => or_congr ?_ ?_⟩
  · constructor
    · intro h
      rcases h with ⟨id, hid, hstarts⟩
      rw [(order.perm _).mem_iff, List.mem_filter, decide_eq_true_eq, List.mem_dedup,
        List.mem_dedup] at hid
      rcases List.mem_map.mp hid.1 with ⟨manifest, hmem, rfl⟩
      obtain ⟨id, hload⟩ := (hlist.mem_iff manifest).mp (List.mem_mergeSort.mp hmem)
      obtain rfl := hw.snapshotId _ _ hload
      refine ⟨_, manifest, hload, fun hsurvives => hid.2 ?_, hstarts⟩
      exact List.mem_map_of_mem ((hretained manifest).mpr ⟨hsurvives, hload⟩)
    · intro h
      rcases h with ⟨id, manifest, hload, hnot, hstarts⟩
      obtain rfl := hw.snapshotId _ _ hload
      refine ⟨_, ?_, hstarts⟩
      rw [(order.perm _).mem_iff, List.mem_filter, decide_eq_true_eq, List.mem_dedup,
        List.mem_dedup]
      constructor
      · exact List.mem_map_of_mem (List.mem_mergeSort.mpr ((hlist.mem_iff manifest).mpr ⟨_, hload⟩))
      · intro hmem
        rcases List.mem_map.mp hmem with ⟨manifest', hmem', heq⟩
        exact hnot (heq ▸ ((hretained manifest').mp hmem').1)
  · refine and_congr_right fun _ => ?_
    constructor
    · intro hnot id manifest hsurvives hload hkey
      obtain rfl := hw.snapshotId _ _ hload
      exact hnot (List.mem_flatMap.mpr ⟨manifest, (hretained manifest).mpr ⟨hsurvives, hload⟩, hkey⟩)
    · intro hnone hmem
      rcases List.mem_flatMap.mp hmem with ⟨manifest, hmanifest, hkey⟩
      obtain ⟨hsurvives, hload⟩ := (hretained manifest).mp hmanifest
      exact hnone _ manifest hsurvives hload hkey

theorem garbage_sameButLock (hsame : SameButLock w w') (keepLast : Nat) (key : String) :
    Garbage w'.store keepLast key ↔ Garbage w.store keepLast key := by
  have hsurvives : ∀ id, SurvivesPrune w'.store keepLast id ↔ SurvivesPrune w.store keepLast id :=
    fun id => ⟨fun h => h.of_sameButLock hsame.symm, fun h => h.of_sameButLock hsame⟩
  simp only [Garbage, hsurvives, loadManifest_sameButLock hsame]

/-- What a prune that returns has done, the lock's blob apart. -/
structure Pruned (keepLast : Nat) (w w' : World) : Prop where
  loads : ∀ id, snapshotManifestKey id ∈ w.store → ∃ manifest, loadManifest w.store id = .ok manifest
  erased : ∀ key, key ≠ repositoryLockKey →
    (Garbage w.store keepLast key → w'.store.lookup key = none) ∧
    (¬ Garbage w.store keepLast key → w'.store.lookup key = w.store.lookup key)

theorem Retains.of_sameButLock {keepLast count : Nat} (hsame : SameButLock w w')
    (h : Retains w'.store keepLast count) : Retains w.store keepLast count := by
  rcases h with ⟨manifests, chains, ⟨hnodup, hmem⟩, hchains, hcount⟩
  simp only [loadManifest_sameButLock hsame] at hmem
  exact ⟨manifests, chains, ⟨hnodup, hmem⟩,
    hchains.imp fun _ _ => loadManifestChain_sameButLock hsame, hcount⟩

theorem Pruned.mem_iff {keepLast : Nat} (h : Pruned keepLast w w') {key : String}
    (hlock : key ≠ repositoryLockKey) :
    key ∈ w'.store ↔ key ∈ w.store ∧ ¬ Garbage w.store keepLast key := by
  rw [← AList.lookup_isSome, ← AList.lookup_isSome]
  by_cases hkey : Garbage w.store keepLast key
  · simp [(h.erased key hlock).1 hkey, hkey]
  · simp [(h.erased key hlock).2 hkey, hkey]

theorem returns_prune {order : HashOrder} {keepPolicy : KeepPolicy} {result : PruneResult}
    (hw : CrateWritten w.store)
    (hret : Returns host.MayFail w (prune order keepPolicy).run (.ok result) w') :
    Pruned keepPolicy.keepLast w w' ∧
      Retains w.store keepPolicy.keepLast result.retainedSnapshots := by
  have hfree : ∀ result : PruneResult, LockFree fun w' => Pruned keepPolicy.keepLast w w' ∧
      Retains w.store keepPolicy.keepLast result.retainedSnapshots := by
    intro result w₁ w₂ hsame h
    refine ⟨⟨h.1.loads, fun key hkey => ?_⟩, h.2⟩
    rw [hsame.1 key hkey]
    exact h.1.erased key hkey
  refine hret.post (wpE_withLock (I := fun _ => True) (fun _ _ _ h => h) hfree trivial
    fun w₁ hsame => ?_)
  refine (wpE_pruneInner_erased order keepPolicy (hw.of_sameButLock hsame)).mono ?_
    (fun _ _ _ h => h)
  rintro _ w₂ _ ⟨hall, hretains, herased⟩
  refine ⟨⟨?_, ?_⟩, hretains.of_sameButLock hsame⟩
  · intro id hid
    rw [← loadManifest_sameButLock hsame]
    exact hall id ((hsame.mem_iff (inSnapshotDir_snapshotManifestKey id).ne_lock).mpr hid)
  · intro key hkey
    rw [← garbage_sameButLock hsame, ← hsame.1 key hkey]
    exact herased key

/-- The manifests of the surviving snapshots stay. -/
theorem Pruned.loadManifest_of_survives {keepLast : Nat} (h : Pruned keepLast w w')
    {id : Uuid} {manifest : BackupSnapshotManifest} (hsurvives : SurvivesPrune w.store keepLast id)
    (hload : loadManifest w.store id = .ok manifest) : loadManifest w'.store id = .ok manifest := by
  have hdir := inSnapshotDir_snapshotManifestKey id
  rw [← hload]
  refine loadManifest_congr ((h.erased _ hdir.ne_lock).2 ?_)
  intro h
  rcases h with ⟨expired, manifest', -, hnot, hstarts⟩ | ⟨hobj, -⟩
  · obtain rfl := hdir.id_eq hstarts
    exact hnot hsurvives
  · exact absurd (hobj.symm.trans hdir.not_objects) (by decide)

/-! ## What is left -/

/-- **Pruning.**  After a prune that returns, every object blob is referenced by
    a retained manifest, and every blob under `snapshots/` lies in the directory
    of a retained snapshot or of an id under which there was no manifest when
    the prune began. -/
theorem prune_leaves_retained_or_unfinished (hread : ManifestsReadBack)
    (hreach : ReachableRepository w) (order : HashOrder) (keepPolicy : KeepPolicy)
    (result : PruneResult)
    (hret : Returns host.MayFail w (prune order keepPolicy).run (.ok result) w') :
    (∀ key ∈ w'.store, InObjectStore key → ∃ id manifest,
      SurvivesPrune w.store keepPolicy.keepLast id ∧
      loadManifest w'.store id = .ok manifest ∧ key ∈ collectReachableKeys manifest) ∧
    (∀ key ∈ w'.store, startsWith key "snapshots/" = true → ∃ id, InSnapshotDir id key ∧
      ((SurvivesPrune w.store keepPolicy.keepLast id ∧
          ∃ manifest, loadManifest w'.store id = .ok manifest) ∨
        snapshotManifestKey id ∉ w.store)) := by
  have htidy := hreach.tidy hread
  obtain ⟨hpruned, -⟩ := returns_prune htidy.crateWritten hret
  have hkeep : ∀ id manifest, SurvivesPrune w.store keepPolicy.keepLast id →
      loadManifest w.store id = .ok manifest → loadManifest w'.store id = .ok manifest :=
    fun _ _ => hpruned.loadManifest_of_survives
  constructor
  · intro key hkey hobj
    obtain ⟨-, hnot⟩ := (hpruned.mem_iff hobj.ne_lock).mp hkey
    rw [Garbage, not_or, not_and] at hnot
    have hslash : startsWith key ("objects/sha256" ++ "/") = true := hobj
    have hreferenced := hnot.2 (startsWith_of_append hslash)
    simp only [not_forall, not_not] at hreferenced
    rcases hreferenced with ⟨id, manifest, hsurvives, hload, hkey⟩
    exact ⟨id, manifest, hsurvives, hkeep id manifest hsurvives hload, hkey⟩
  · intro key hkey hstarts
    have hlock : key ≠ repositoryLockKey := by
      rintro rfl
      exact absurd hstarts (by decide)
    obtain ⟨hmem, hnot⟩ := (hpruned.mem_iff hlock).mp hkey
    rcases htidy.keys key hmem with rfl | ⟨id, hdir⟩ | hobj
    · exact absurd rfl hlock
    · refine ⟨id, hdir, ?_⟩
      by_cases hmanifest : snapshotManifestKey id ∈ w.store
      · obtain ⟨manifest, hload⟩ := hpruned.loads id hmanifest
        have hsurvives : SurvivesPrune w.store keepPolicy.keepLast id := by
          by_contra hexpired
          exact hnot (Or.inl ⟨id, manifest, hload, hexpired, hdir.startsWith_prefix⟩)
        exact Or.inl ⟨hsurvives, manifest, hkeep id manifest hsurvives hload⟩
      · exact Or.inr hmanifest
    · exact absurd (hobj.head?.symm.trans (head?_of_startsWith rfl hstarts)) (by decide)

end Prune

end Codec

/-! ## A failed backup -/

section FailedBackup

open Reference

def lostObject : BackupObjectRef where
  objectId := uuid 9
  storageKey := "objects/lost.txt"
  sha256Hex := "00"
  sizeBytes := 1
  mimeType := none

def lostSource : BackupObjectRef → Except BackupError StorageByteStream := fun object =>
  .error (.missingBlob object.storageKey)

/-- An application whose only object is lost. -/
def losingApplication : Host := application [notes] [] [lostObject] lostSource

/-- Its full backup fails when the table has been written. -/
def failedBackup : Operation := .createFullBackup [] (fullRequest (uuid 1)) options

def afterFailedBackup : World :=
  (failedBackup.run.run.run (losingApplication.respond lostSource) emptyWorld).2

def afterPrune : World :=
  ((prune inOrder keepOne).run.run (losingApplication.respond lostSource) afterFailedBackup).2

theorem loads_lostSource (object : BackupObjectRef) :
    losingApplication.objects.loadObjectStream object (lostSource object) := rfl

theorem reachable_afterFailedBackup : ReachableRepository afterFailedBackup := by
  have hret := Host.returns_run loads_lostSource failedBackup.run.run emptyWorld
  exact ReachableRepository.step (.empty rfl) (returns_mayFail hret)

theorem returns_prune_afterFailedBackup : ∃ result, Returns losingApplication.MayFail
    afterFailedBackup (prune inOrder keepOne).run (.ok result) afterPrune := by
  have hok : ((prune inOrder keepOne).run.run (losingApplication.respond lostSource)
      afterFailedBackup).1.isOk = true := by decide +kernel
  obtain ⟨result, hret⟩ := Host.returns_of_isOk loads_lostSource hok
  exact ⟨result, returns_mayFail hret⟩

theorem keys_afterPrune : afterPrune.store.keys = [databaseTableKey (uuid 1) "notes"] := by
  decide +kernel

theorem prune_leaves_retained_or_unfinished_afterFailedBackup :
    (∀ key ∈ afterPrune.store, InObjectStore key → ∃ id manifest,
      SurvivesPrune afterFailedBackup.store keepOne.keepLast id ∧
      loadManifest afterPrune.store id = .ok manifest ∧ key ∈ collectReachableKeys manifest) ∧
    (∀ key ∈ afterPrune.store, startsWith key "snapshots/" = true → ∃ id, InSnapshotDir id key ∧
      ((SurvivesPrune afterFailedBackup.store keepOne.keepLast id ∧
          ∃ manifest, loadManifest afterPrune.store id = .ok manifest) ∨
        snapshotManifestKey id ∉ afterFailedBackup.store)) := by
  rcases returns_prune_afterFailedBackup with ⟨result, hret⟩
  exact prune_leaves_retained_or_unfinished manifestsReadBack reachable_afterFailedBackup inOrder
    keepOne result hret

/-- The table of the failed backup is still there after a prune, and there is no
    manifest. -/
theorem failed_backup_survives_prune : ReachableRepository afterFailedBackup ∧
    (∃ result, Returns losingApplication.MayFail afterFailedBackup (prune inOrder keepOne).run
      (.ok result) afterPrune) ∧
    databaseTableKey (uuid 1) "notes" ∈ afterPrune.store ∧
    ∀ id manifest, loadManifest afterPrune.store id ≠ .ok manifest := by
  refine ⟨reachable_afterFailedBackup, returns_prune_afterFailedBackup, ?_, ?_⟩
  · rw [AList.mem_keys, keys_afterPrune]
    exact List.mem_cons_self
  · intro id manifest hload
    have hkey := lookup_of_loadManifest hload
    rw [AList.mem_keys, keys_afterPrune, List.mem_singleton] at hkey
    have hdir : InSnapshotDir id (databaseTableKey (uuid 1) "notes") :=
      hkey ▸ inSnapshotDir_snapshotManifestKey id
    obtain rfl := (inSnapshotDir_databaseTableKey (uuid 1) "notes").unique hdir
    exact databaseTableKey_ne_snapshotManifestKey _ _ hkey.symm

end FailedBackup

end GraphqlOrmBackup
