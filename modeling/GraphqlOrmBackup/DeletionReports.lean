import GraphqlOrmBackup.PruneIdempotence

/-!
# What deletions report

A prune and the deletion of a snapshot return how many blobs they have deleted
and how many snapshots are left.  The numbers are those of the repository before
and after, and a deletion erases the directory of its snapshot and the object
blobs that no other manifest references, and nothing else.
-/

namespace GraphqlOrmBackup

open Interaction

/-- The number of stored blobs, the lock's apart. -/
def blobCount (s : Store) : Nat := s.keys.countP fun key => decide (key ≠ repositoryLockKey)

/-- The ids of the stored manifests. -/
def manifestIds (s : Store) : List Uuid := s.keys.filterMap snapshotIdFromManifestKey

/-! ## Counting blobs -/

section Counting

variable {s : Store} {key : String} {host : Host} {w w' : World}

theorem blobCount_deleteBlob (hmem : key ∈ s) (hlock : key ≠ repositoryLockKey) :
    1 + blobCount (s.deleteBlob key) = blobCount s := by
  have hperm : s.keys.Perm (key :: (s.deleteBlob key).keys) := by
    rw [Store.deleteBlob, AList.keys_erase]
    exact List.perm_cons_erase (AList.mem_keys.mp hmem)
  have hkey : decide (key ≠ repositoryLockKey) = true := decide_eq_true hlock
  rw [blobCount, blobCount, hperm.countP_eq, List.countP_cons, if_pos hkey, Nat.add_comm]

theorem blobCount_of_sameButLock (h : SameButLock w w') :
    blobCount w'.store = blobCount w.store := by
  have hnodup : ∀ s : Store,
      (s.keys.filter fun key => decide (key ≠ repositoryLockKey)).Nodup := fun s =>
    s.keys_nodup.filter _
  rw [blobCount, blobCount, List.countP_eq_length_filter, List.countP_eq_length_filter]
  refine ((List.perm_ext_iff_of_nodup (hnodup _) (hnodup _)).mpr fun key => ?_).length_eq
  rw [List.mem_filter, List.mem_filter, decide_eq_true_eq, ← AList.mem_keys, ← AList.mem_keys]
  exact and_congr_left fun hlock => Store.mem_congr (h.1 key hlock)

/-- The blobs that are gone are those that are counted. -/
def Counted (n : Nat) (w w' : World) : Prop := n + blobCount w'.store = blobCount w.store

theorem Counted.trans {m n : Nat} {w₁ : World} (h : Counted m w w₁) (h' : Counted n w₁ w') :
    Counted (m + n) w w' := by
  unfold Counted at *
  omega

theorem wpE_forM_deleteBlob_counted {keys : List String} (hnodup : keys.Nodup)
    (hkeys : ∀ key ∈ keys, key ∈ w.store ∧ key ≠ repositoryLockKey) :
    wpE host.MayFail (fun _ => True) (forM keys deleteBlob)
      (fun _ w' => Counted keys.length w w') (fun _ _ => True) w := by
  induction keys generalizing w with
  | nil => exact ⟨trivial, Nat.zero_add _⟩
  | cons key keys ih =>
    rw [List.forall_mem_cons] at hkeys
    rw [List.nodup_cons] at hnodup
    rw [List.forM_cons]
    have hcounted : Counted 1 w (w.withStore (w.store.deleteBlob key)) :=
      blobCount_deleteBlob hkeys.1.1 hkeys.1.2
    refine wpE.seq (P := fun _ w₁ => w₁ = w.withStore (w.store.deleteBlob key))
      (wpE_deleteBlob trivial (fun _ _ _ => trivial) trivial rfl) ?_
    rintro _ _ - rfl
    have hrest : ∀ key' ∈ keys, key' ∈ (w.withStore (w.store.deleteBlob key)).store ∧
        key' ≠ repositoryLockKey := by
      intro key' hkey'
      refine ⟨AList.mem_erase.mpr ⟨?_, (hkeys.2 key' hkey').1⟩, (hkeys.2 key' hkey').2⟩
      rintro rfl
      exact hnodup.1 hkey'
    refine (ih hnodup.2 hrest).mono (fun _ w' _ h => ?_) fun _ _ _ h => h
    rw [List.length_cons, Nat.add_comm]
    exact hcounted.trans h

/-- Deletions from a listing. -/
theorem wpE_deleteListed_counted (host : Host) {listPrefix : String} (p : String → Bool)
    (hlock : startsWith repositoryLockKey listPrefix = false) (w : World) :
    wpE host.MayFail (fun _ => True)
      (listBlobs listPrefix >>= fun keys => deleteBlobs (keys.filter p))
      (fun n w' => Counted n w w') (fun _ _ => True) w := by
  refine wpE.seq (P := fun keys w' => Lists w.store listPrefix keys ∧ w' = w) ?_ ?_
  · apply wpE_call_mayFail trivial (fun _ _ _ => trivial)
    rintro r w' ⟨⟨keys, rfl, hkeys⟩, rfl⟩
    exact ⟨trivial, hkeys, rfl⟩
  · rintro keys w - ⟨hkeys, rfl⟩
    refine wpE.seq (wpE_forM_deleteBlob_counted (hkeys.1.filter p) fun key hkey => ?_)
      fun _ _ _ h => ⟨trivial, h⟩
    obtain ⟨hstored, hstarts⟩ := (hkeys.2 key).mp (List.mem_of_mem_filter hkey)
    refine ⟨hstored, ?_⟩
    rintro rfl
    exact absurd (hstarts.symm.trans hlock) (by decide)

theorem wpE_deleteSnapshotBlobs_counted (id : Uuid) (w : World) :
    wpE host.MayFail (fun _ => True) (deleteSnapshotBlobs id)
      (fun n w' => Counted n w w') (fun _ _ => True) w := by
  have hlock : startsWith repositoryLockKey (snapshotPrefix id) = false := by
    refine Bool.eq_false_iff.mpr fun hstarts => ?_
    exact absurd (head?_of_startsWith (head?_snapshotPrefix id) hstarts) (by decide)
  have h := wpE_deleteListed_counted host (fun _ => true) hlock w
  simpa [deleteSnapshotBlobs, List.filter_true] using h

theorem wpE_deleteUnreachable_counted (reachable : List String) (w : World) :
    wpE host.MayFail (fun _ => True) (deleteUnreachable reachable)
      (fun n w' => Counted n w w') (fun _ _ => True) w :=
  wpE_deleteListed_counted host _ (by decide) w

theorem wpE_mapM'_counted {α : Type} {f : α → BackupM Nat}
    (hf : ∀ x w, wpE host.MayFail (fun _ => True) (f x) (fun n w' => Counted n w w')
      (fun _ _ => True) w) (l : List α) (w : World) :
    wpE host.MayFail (fun _ => True) (l.mapM' f) (fun ns w' => Counted ns.sum w w')
      (fun _ _ => True) w := by
  induction l generalizing w with
  | nil => exact ⟨trivial, Nat.zero_add _⟩
  | cons x l ih =>
    rw [List.mapM'_cons]
    refine wpE.seq (hf x w) fun n w₁ _ hx => wpE.seq (ih w₁) fun ns w' _ hl => ⟨trivial, ?_⟩
    change Counted (n :: ns).sum w w'
    rw [List.sum_cons]
    exact hx.trans hl

end Counting

/-! ## Counting snapshots -/

section Codec

variable [Crates]

section Snapshots

variable {s : Store} {manifests : List BackupSnapshotManifest}

/-- Only the key of its manifest is read as an id. -/
def Canonical (s : Store) : Prop :=
  ∀ key ∈ s, ∀ id, snapshotIdFromManifestKey key = some id → key = snapshotManifestKey id

omit [Crates] in
theorem nodup_manifestIds (hs : Canonical s) : (manifestIds s).Nodup := by
  rw [manifestIds, List.Nodup, List.pairwise_filterMap]
  apply s.keys_nodup.imp_of_mem
  rintro key key' hkey hkey' hne id hid _ hid' rfl
  exact hne ((hs key (AList.mem_keys.mpr hkey) id hid).trans
    (hs key' (AList.mem_keys.mpr hkey') id hid').symm)

omit [Crates] in
theorem mem_manifestIds (hs : Canonical s) {id : Uuid} :
    id ∈ manifestIds s ↔ snapshotManifestKey id ∈ s := by
  rw [manifestIds, List.mem_filterMap]
  constructor
  · rintro ⟨key, hkey, hid⟩
    exact hs key (AList.mem_keys.mpr hkey) id hid ▸ AList.mem_keys.mpr hkey
  · exact fun hmem =>
      ⟨_, AList.mem_keys.mp hmem, snapshotIdFromManifestKey_snapshotManifestKey id⟩

omit [Crates] in
theorem manifestIds_perm (hs : Canonical s) {ids : List Uuid} (hnodup : ids.Nodup)
    (hids : ∀ id, id ∈ ids ↔ snapshotManifestKey id ∈ s) : ids.Perm (manifestIds s) :=
  (List.perm_ext_iff_of_nodup hnodup (nodup_manifestIds hs)).mpr fun id =>
    (hids id).trans (mem_manifestIds hs).symm

/-- All stored manifests are listed once. -/
theorem ListsManifests.perm (hw : CrateWritten s) (hlist : ListsManifests s manifests)
    (hall : ∀ id, snapshotManifestKey id ∈ s → ∃ manifest, loadManifest s id = .ok manifest) :
    (manifests.map (·.snapshotId)).Perm (manifestIds s) := by
  refine manifestIds_perm hw.canonical hlist.nodup fun id => ?_
  rw [List.mem_map]
  constructor
  · rintro ⟨manifest, hmem, rfl⟩
    obtain ⟨id, hload⟩ := (hlist.mem_iff manifest).mp hmem
    exact hw.snapshotId _ _ hload ▸ lookup_of_loadManifest hload
  · intro hstored
    obtain ⟨manifest, hload⟩ := hall id hstored
    exact ⟨manifest, (hlist.mem_iff manifest).mpr ⟨id, hload⟩, hw.snapshotId _ _ hload⟩

theorem manifestIds_of_sameButLock {w w' : World} (hw : CrateWritten w.store)
    (hsame : SameButLock w w') : (manifestIds w'.store).Perm (manifestIds w.store) := by
  have hs' : Canonical w'.store := (hw.of_sameButLock hsame).canonical
  refine manifestIds_perm hw.canonical (nodup_manifestIds hs') fun id => ?_
  rw [mem_manifestIds hs']
  exact Store.mem_congr (hsame.1 _ (inSnapshotDir_snapshotManifestKey id).ne_lock)

omit [Crates] in
/-- Some of distinct ids, and the others. -/
theorem length_filter_notMem {ids kept : List Uuid} (hids : ids.Nodup) (hkept : kept.Nodup)
    (hsub : kept ⊆ ids) :
    (ids.filter fun id => id ∉ kept).length + kept.length = ids.length := by
  have hperm : (ids.filter fun id => id ∈ kept).Perm kept := by
    refine (List.perm_ext_iff_of_nodup (hids.filter _) hkept).mpr fun id => ?_
    rw [List.mem_filter, decide_eq_true_eq]
    exact ⟨fun h => h.2, fun h => ⟨hsub h, h⟩⟩
  have hsplit := List.length_eq_countP_add_countP (fun id => decide (id ∈ kept)) (l := ids)
  simp only [List.countP_eq_length_filter, decide_eq_true_eq] at hsplit
  rw [hsplit, hperm.length_eq, Nat.add_comm]

end Snapshots

/-! ## Prunes -/

section Prune

variable {host : Host} {w w' : World}

theorem wpE_pruneInner_counted (order : HashOrder) (keepPolicy : KeepPolicy)
    (hw : CrateWritten w.store) :
    wpE host.MayFail (fun _ => True) (pruneInner order keepPolicy)
      (fun result w' => Counted result.deletedBlobs w w' ∧
        result.deletedSnapshots + result.retainedSnapshots = (manifestIds w.store).length)
      (fun _ _ => True) w := by
  apply wpE.seq ((wpE_loadAllManifests hw).relax (fun _ _ => trivial) fun _ _ _ h => h)
  rintro manifests w - ⟨rfl, hlist, hall⟩
  apply wpE.seq ((wpE_mapM'_read _).relax (fun _ _ => trivial) fun _ _ _ h => h)
  rintro chains w - ⟨rfl, hchains⟩
  apply wpE.seq (wpE_mapM'_counted wpE_deleteSnapshotBlobs_counted _ w)
  intro snapshotBlobs w₁ _ hexpired
  apply wpE.seq (wpE_deleteUnreachable_counted _ w₁)
  intro objectBlobs w₂ _ hobjects
  refine ⟨trivial, hexpired.trans hobjects, ?_⟩
  have hsorted : ((manifests.mergeSort newerFirst).map (·.snapshotId)).Perm (manifestIds w.store) :=
    ((List.mergeSort_perm _ _).map _).trans (hlist.perm hw hall)
  have hnodup := (hsorted.nodup_iff).mpr (nodup_manifestIds hw.canonical)
  rw [List.dedup_eq_self.mpr hnodup, (order.perm _).length_eq]
  refine (length_filter_notMem hnodup (List.nodup_dedup _) fun id hid => ?_).trans hsorted.length_eq
  obtain ⟨manifest, hmem, rfl⟩ := List.mem_map.mp (List.mem_dedup.mp hid)
  have hload := ((mem_flatten_iff hw hlist hchains).mp hmem).2
  exact List.mem_map_of_mem (List.mem_mergeSort.mpr ((hlist.mem_iff manifest).mpr ⟨_, hload⟩))

/-- What a prune returns of the repository before and after. -/
structure PruneResult.Reports (result : PruneResult) (w w' : World) : Prop where
  blobs : Counted result.deletedBlobs w w'
  retained : result.retainedSnapshots = (manifestIds w'.store).length
  deleted : result.deletedSnapshots + result.retainedSnapshots = (manifestIds w.store).length

theorem reports_prune {order : HashOrder} {keepPolicy : KeepPolicy} {result : PruneResult}
    (hw : CrateWritten w.store)
    (hret : Returns host.MayFail w (prune order keepPolicy).run (.ok result) w') :
    result.Reports w w' := by
  obtain ⟨hpruned, hretains⟩ := returns_prune hw hret
  have hall := hpruned.allRetained hw hretains
  have hleft : Canonical w'.store := hall.written.canonical
  have hcount := hall.counts _ (nodup_manifestIds hleft) fun _ => mem_manifestIds hleft
  have hfree : ∀ result : PruneResult, LockFree fun w' => Counted result.deletedBlobs w w' ∧
      result.deletedSnapshots + result.retainedSnapshots = (manifestIds w.store).length := by
    intro result w₁ w₂ hsame h
    exact ⟨(congrArg _ (blobCount_of_sameButLock hsame)).trans h.1, h.2⟩
  obtain ⟨hblobs, hdeleted⟩ : Counted result.deletedBlobs w w' ∧
      result.deletedSnapshots + result.retainedSnapshots = (manifestIds w.store).length := by
    refine hret.post (wpE_withLock (I := fun _ => True) (fun _ _ _ h => h) hfree trivial
      fun w₁ hsame => ?_)
    refine (wpE_pruneInner_counted order keepPolicy (hw.of_sameButLock hsame)).mono ?_
      fun _ _ _ h => h
    rintro _ w₂ _ ⟨hblobs, hdeleted⟩
    exact ⟨Eq.trans hblobs (blobCount_of_sameButLock hsame),
      hdeleted.trans (manifestIds_of_sameButLock hw hsame).length_eq⟩
  exact ⟨hblobs, hcount.symm, hdeleted⟩

end Prune

/-! ## Deletions of one snapshot -/

section Delete

variable {host : Host} {w w' : World} {id : Uuid}

/-- A key in the directory of the snapshot, or of an object blob that no other
    manifest references. -/
def LeftBy (s : Store) (id : Uuid) (key : String) : Prop :=
  startsWith key (snapshotPrefix id) = true ∨
  (startsWith key "objects/sha256" = true ∧ ∀ other manifest, other ≠ id →
    loadManifest s other = .ok manifest → key ∉ collectReachableKeys manifest)

/-- What a deletion that returns has found and done, the lock's blob apart. -/
structure SnapshotDeleted (id : Uuid) (w w' : World) : Prop where
  stored : snapshotManifestKey id ∈ w.store
  childless : ∀ other manifest, loadManifest w.store other = .ok manifest →
    manifest.parentSnapshotId ≠ some id
  erased : ∀ key, key ≠ repositoryLockKey →
    (LeftBy w.store id key → w'.store.lookup key = none) ∧
    (¬ LeftBy w.store id key → w'.store.lookup key = w.store.lookup key)

theorem wpE_deleteSnapshotInner_reported (hw : CrateWritten w.store) :
    wpE host.MayFail (fun _ => True) (deleteSnapshotInner id)
      (fun result w' => Counted result.deletedBlobs w w' ∧
        result.retainedSnapshots + 1 = (manifestIds w.store).length ∧
        snapshotManifestKey id ∈ w.store ∧
        (∀ other manifest, loadManifest w.store other = .ok manifest →
          manifest.parentSnapshotId ≠ some id) ∧
        Erased (LeftBy w.store id) w.store w'.store)
      (fun _ _ => True) w := by
  apply wpE.seq ((wpE_loadAllManifests hw).relax (fun _ _ => trivial) fun _ _ _ h => h)
  rintro manifests w - ⟨rfl, hlist, hall⟩
  split
  · exact ⟨trivial, trivial⟩
  next hfound =>
  split
  · exact ⟨trivial, trivial⟩
  next hchild =>
  simp only [List.all_eq_true, decide_eq_true_eq, not_forall, not_not] at hfound
  obtain ⟨deleted, hmem, rfl⟩ := hfound
  obtain ⟨id, hload⟩ := (hlist.mem_iff deleted).mp hmem
  obtain rfl := hw.snapshotId _ _ hload
  refine wpE.seq (((wpE_deleteSnapshotBlobs_counted _ w).and
    (wpE_deleteSnapshotBlobs_erased _ w)).relax (fun _ _ => trivial) fun _ _ _ _ => trivial) ?_
  rintro snapshotBlobs w₁ - ⟨-, hcounted, herased⟩
  refine wpE.seq (((wpE_deleteUnreachable_counted _ w₁).and
    (wpE_deleteUnreachable_erased _ w₁)).relax (fun _ _ => trivial) fun _ _ _ _ => trivial) ?_
  rintro objectBlobs w₂ - ⟨-, hcounted', herased'⟩
  refine ⟨trivial, hcounted.trans hcounted', ?_, lookup_of_loadManifest hload, ?_, ?_⟩
  · have hlength := (hlist.perm hw hall).length_eq
    rw [List.length_map] at hlength
    change manifests.length - 1 + 1 = _
    rw [← hlength, Nat.sub_add_cancel (List.length_pos_of_mem hmem)]
  · intro other manifest hother hparent
    have hnone := List.find?_eq_none.mp hchild manifest ((hlist.mem_iff manifest).mpr ⟨_, hother⟩)
    exact hnone (decide_eq_true hparent)
  · refine (herased.trans herased').congr fun key _ => or_congr Iff.rfl (and_congr_right fun _ => ?_)
    rw [List.mem_flatMap, not_exists]
    constructor
    · intro hnot other manifest hne hother hkey
      obtain rfl := hw.snapshotId _ _ hother
      refine hnot manifest ⟨List.mem_filter.mpr ⟨?_, decide_eq_true hne⟩, hkey⟩
      exact (hlist.mem_iff manifest).mpr ⟨_, hother⟩
    · rintro hnone manifest ⟨hmem', hkey⟩
      rw [List.mem_filter, decide_eq_true_eq] at hmem'
      obtain ⟨other, hother⟩ := (hlist.mem_iff manifest).mp hmem'.1
      exact hnone other manifest (hw.snapshotId _ _ hother ▸ hmem'.2) hother hkey

/-- What a deletion returns of the repository before and after. -/
structure DeleteSnapshotResult.Reports (result : DeleteSnapshotResult) (w w' : World) : Prop where
  blobs : Counted result.deletedBlobs w w'
  retained : result.retainedSnapshots = (manifestIds w'.store).length
  deleted : 1 + result.retainedSnapshots = (manifestIds w.store).length

theorem leftBy_sameButLock (hsame : SameButLock w w') (key : String) :
    LeftBy w'.store id key ↔ LeftBy w.store id key := by
  simp only [LeftBy, loadManifest_sameButLock hsame]

theorem SnapshotDeleted.mem_iff (h : SnapshotDeleted id w w') {key : String}
    (hlock : key ≠ repositoryLockKey) :
    key ∈ w'.store ↔ key ∈ w.store ∧ ¬ LeftBy w.store id key := by
  rw [← AList.lookup_isSome, ← AList.lookup_isSome]
  by_cases hkey : LeftBy w.store id key
  · simp [(h.erased key hlock).1 hkey, hkey]
  · simp [(h.erased key hlock).2 hkey, hkey]

theorem SnapshotDeleted.canonical (hw : CrateWritten w.store) (h : SnapshotDeleted id w w') :
    Canonical w'.store := by
  intro key hkey other hother
  have hlock : key ≠ repositoryLockKey := by
    rintro rfl
    have hnone : snapshotIdFromManifestKey repositoryLockKey = none := rfl
    rw [hnone] at hother
    contradiction
  exact hw.canonical key ((h.mem_iff hlock).mp hkey).1 other hother

/-- The deleted snapshot is the one that is no longer stored. -/
theorem SnapshotDeleted.manifestIds_perm (hw : CrateWritten w.store)
    (h : SnapshotDeleted id w w') : (manifestIds w.store).Perm (id :: manifestIds w'.store) := by
  have hleft := h.canonical hw
  have hiff : ∀ other, snapshotManifestKey other ∈ w'.store ↔
      snapshotManifestKey other ∈ w.store ∧ other ≠ id := by
    intro other
    have hdir := inSnapshotDir_snapshotManifestKey other
    rw [h.mem_iff hdir.ne_lock]
    refine and_congr_right fun _ => not_congr ⟨?_, ?_⟩
    · rintro (hstarts | ⟨hobj, -⟩)
      · exact (hdir.id_eq hstarts).symm
      · exact absurd (hobj.symm.trans hdir.not_objects) (by decide)
    · rintro rfl
      exact Or.inl hdir.startsWith_prefix
  have hnodup : (id :: manifestIds w'.store).Nodup := by
    refine List.nodup_cons.mpr ⟨fun hmem => ?_, nodup_manifestIds hleft⟩
    exact ((hiff id).mp ((mem_manifestIds hleft).mp hmem)).2 rfl
  refine (GraphqlOrmBackup.manifestIds_perm hw.canonical hnodup fun other => ?_).symm
  rw [List.mem_cons, mem_manifestIds hleft, hiff]
  constructor
  · rintro (rfl | hother)
    · exact h.stored
    · exact hother.1
  · intro hother
    by_cases heq : other = id
    · exact Or.inl heq
    · exact Or.inr ⟨hother, heq⟩

theorem reports_deleteSnapshot {lockOptions : RepositoryLockOptions} {result : DeleteSnapshotResult}
    (hw : CrateWritten w.store)
    (hret : Returns host.MayFail w (deleteSnapshot id lockOptions).run (.ok result) w') :
    result.Reports w w' ∧ SnapshotDeleted id w w' := by
  have hfree : ∀ result : DeleteSnapshotResult, LockFree fun w' =>
      Counted result.deletedBlobs w w' ∧
      result.retainedSnapshots + 1 = (manifestIds w.store).length ∧ SnapshotDeleted id w w' := by
    intro result w₁ w₂ hsame h
    refine ⟨(congrArg _ (blobCount_of_sameButLock hsame)).trans h.1, h.2.1, h.2.2.stored,
      h.2.2.childless, fun key hkey => ?_⟩
    rw [hsame.1 key hkey]
    exact h.2.2.erased key hkey
  obtain ⟨hblobs, hretained, hdeleted⟩ : Counted result.deletedBlobs w w' ∧
      result.retainedSnapshots + 1 = (manifestIds w.store).length ∧ SnapshotDeleted id w w' := by
    refine hret.post (wpE_withLock (I := fun _ => True) (fun _ _ _ h => h) hfree trivial
      fun w₁ hsame => ?_)
    refine (wpE_deleteSnapshotInner_reported (hw.of_sameButLock hsame)).mono ?_ fun _ _ _ h => h
    rintro _ w₂ _ ⟨hblobs, hretained, hstored, hchildless, herased⟩
    simp only [loadManifest_sameButLock hsame] at hchildless
    refine ⟨Eq.trans hblobs (blobCount_of_sameButLock hsame),
      hretained.trans (manifestIds_of_sameButLock hw hsame).length_eq,
      (hsame.mem_iff (inSnapshotDir_snapshotManifestKey id).ne_lock).mp hstored, hchildless,
      fun key hkey => ?_⟩
    rw [← leftBy_sameButLock hsame, ← hsame.1 key hkey]
    exact herased key
  have hlength := (hdeleted.manifestIds_perm hw).length_eq
  rw [List.length_cons] at hlength
  exact ⟨⟨hblobs, Nat.succ.inj (hretained.trans hlength),
    (Nat.add_comm _ _).trans hretained⟩, hdeleted⟩

end Delete

/-- **Deletions report what they have done.**  A prune and a deletion that return
    say how many blobs are gone and how many snapshots are left and are gone, the
    lock's blob apart.  A deletion returns only for a stored snapshot that is no
    parent, and erases its directory and the object blobs that no other manifest
    references, and nothing else. -/
theorem deletions_report_what_they_did {host : Host} {w : World} (hw : CrateWritten w.store) :
    (∀ order keepPolicy result w',
      Returns host.MayFail w (prune order keepPolicy).run (.ok result) w' → result.Reports w w') ∧
    (∀ id lockOptions result w',
      Returns host.MayFail w (deleteSnapshot id lockOptions).run (.ok result) w' →
        result.Reports w w' ∧ SnapshotDeleted id w w') :=
  ⟨fun _ _ _ _ => reports_prune hw, fun _ _ _ _ => reports_deleteSnapshot hw⟩

end Codec

section Family

open Reference

theorem deletions_report_what_they_did_family :
    (∃ w', Returns (database [] []).MayFail familyWorld (prune inOrder keepOne).run
        (.ok ⟨2, 1, 2⟩) w' ∧ (PruneResult.mk 2 1 2).Reports familyWorld w') ∧
    ∃ w', Returns (database [] []).MayFail familyWorld (deleteSnapshot (uuid 2) .default).run
        (.ok ⟨2, 2⟩) w' ∧ (DeleteSnapshotResult.mk 2 2).Reports familyWorld w' ∧
      SnapshotDeleted (uuid 2) familyWorld w' := by
  obtain ⟨hprune, hdelete⟩ := @deletions_report_what_they_did _ (database [] []) _
    crateWritten_familyWorld
  have hpruned := returns_mayFail returns_prune_familyWorld
  have hdeleted := returns_mayFail returns_deleteSnapshot_familyWorld
  exact ⟨⟨_, hpruned, hprune _ _ _ _ hpruned⟩, ⟨_, hdeleted, hdelete _ _ _ _ hdeleted⟩⟩

end Family

end GraphqlOrmBackup
