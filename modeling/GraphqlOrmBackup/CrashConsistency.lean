import GraphqlOrmBackup.Writers

/-!
# Crash consistency

Wherever a writer stops, the snapshots that do not depend on the one it writes
are as they were, and a manifest that has been written is complete.
-/

namespace GraphqlOrmBackup

open Interaction

section Codec

variable [Crates]

variable {Sound : Prop} {host : Host} {snapshotId : Uuid} {w w₁ w' w'' : World}

/-! ## The lock does not matter -/

omit [Crates] in
theorem NoManifest.of_puts (h : NoManifest snapshotId w w') (h₀ : w₁.puts = w.puts)
    (h' : w''.puts = w'.puts) : NoManifest snapshotId w₁ w'' := by
  rcases h with ⟨new, hputs, hnew⟩
  exact ⟨new, h'.trans (h₀ ▸ hputs), hnew⟩

theorem InPlace.ne_lock {s : Store} {ref : String × String} (h : InPlace snapshotId s ref) :
    ref.1 ≠ repositoryLockKey := by
  rcases h.1 with ⟨hdir, _⟩ | hobj
  · exact hdir.ne_lock
  · exact hobj.ne_lock

theorem Written.of_sameButLock {manifest : BackupSnapshotManifest}
    (h : Written Sound snapshotId w'.store manifest) (hsame : SameButLock w' w'') :
    Written Sound snapshotId w''.store manifest := by
  obtain ⟨doc, hdoc, hlookup⟩ := h.stored
  refine ⟨h.id, h.checksum, ⟨doc, hdoc, ?_⟩, fun hsound ref href => ?_⟩
  · exact (hsame.1 _ (inSnapshotDir_snapshotManifestKey snapshotId).ne_lock).trans hlookup
  · have hplace := h.blobs hsound ref href
    rcases hplace.2 with ⟨body, hbody, hsha⟩
    exact ⟨hplace.1, body, (hsame.1 _ hplace.ne_lock).trans hbody, hsha⟩

theorem lockFree_writing : LockFree (Writing Sound snapshotId w) := by
  intro w' w'' hsame h
  refine ⟨fun key hlock hdir hcase => (hsame.1 key hlock).trans (h.extends_ key hlock hdir hcase), ?_⟩
  rcases h.manifest with hno | ⟨manifest, hwritten⟩
  · exact Or.inl (hno.of_puts rfl hsame.2.1)
  · exact Or.inr ⟨manifest, hwritten.of_sameButLock hsame⟩

/-- A run that started after the lock was taken. -/
theorem Writing.of_sameButLock (hsame : SameButLock w w₁) (h : Writing Sound snapshotId w₁ w') :
    Writing Sound snapshotId w w' := by
  refine ⟨fun key hlock hdir hcase => ?_, h.manifest.imp_left fun hno => ?_⟩
  · refine (h.extends_ key hlock hdir ?_).trans (hsame.1 key hlock)
    exact hcase.imp_left (hsame.mem_iff hlock).mpr
  · exact hno.of_puts hsame.2.1.symm rfl

theorem HonestObjects.of_sameButLock (h : HonestObjects w.store) (hsame : SameButLock w w₁) :
    HonestObjects w₁.store := by
  intro key hkey body hbody
  rw [hsame.1 key hkey.ne_lock] at hbody
  exact h key hkey body hbody

/-- What a writer keeps to, it keeps to under the lock. -/
theorem wpE_withLock_writing {α : Type} {options : RepositoryLockOptions} {inner : BackupM α}
    (hinner : ∀ w₁, SameButLock w w₁ →
      wpE host.MayFail (Writing Sound snapshotId w₁) inner (fun _ _ => True) (fun _ _ => True) w₁) :
    wpE host.MayFail (Writing Sound snapshotId w) (withLock options inner) (fun _ _ => True)
      (fun _ _ => True) w := by
  apply wpE_withLock lockFree_writing (fun _ _ _ _ _ => trivial) (Writing.refl _ w)
  intro w₁ hsame
  exact wp.mono (hinner w₁ hsame) (fun _ h => h.of_sameButLock hsame) fun _ _ _ hr => hr

/-- A writer that returns has kept to it, and its result holds without the lock. -/
theorem returns_withLock {α : Type} {options : RepositoryLockOptions} {inner : BackupM α}
    {P : α → World → Prop} (hP : ∀ a, LockFree (P a))
    (hinner : ∀ w₁, SameButLock w w₁ →
      wpE host.MayFail (Writing Sound snapshotId w₁) inner P (fun _ _ => True) w₁)
    {a : α} (hret : Returns host.MayFail w (withLock options inner).run (.ok a) w') :
    Writing Sound snapshotId w w' ∧ P a w' := by
  refine Reaches.wp hret (wpE_withLock lockFree_writing hP (Writing.refl _ w) fun w₁ hsame => ?_)
  exact wp.mono (hinner w₁ hsame) (fun _ h => h.of_sameButLock hsame) fun _ _ _ hr => hr

theorem Describes.of_sameButLock {T : Type} [SerializeJson T] {key name : String}
    {entries : List T} {entry : TableBackupEntry} (hsame : SameButLock w' w'')
    (hdir : InSnapshotDir snapshotId key) (h : Describes w'.store key name entries entry) :
    Describes w''.store key name entries entry :=
  h.mono (hsame.1 key hdir.ne_lock)

theorem loadManifestChain_sameButLock (hsame : SameButLock w w₁) {id : Uuid}
    {chain : List BackupSnapshotManifest} (h : loadManifestChain w₁.store id = .ok chain) :
    loadManifestChain w.store id = .ok chain := by
  rcases loadManifestChain_eq_ok.mp h with ⟨path, hpath, hrest⟩
  refine loadManifestChain_eq_ok.mpr ⟨path, Lineage.congr hpath fun node _ hload => ?_, hrest⟩
  exact (loadManifest_sameButLock hsame node.1).symm.trans hload

theorem ChainKeysStored.of_sameButLock {id : Uuid} (hsame : SameButLock w w₁)
    (h : ChainKeysStored w.store id) : ChainKeysStored w₁.store id := fun chain hload =>
  h chain (loadManifestChain_sameButLock hsame hload)

theorem returns_createFullBackup {sched : List Poll} {request : FullBackupRequest}
    {options : BackupExecutionOptions} {result : FullBackupResult}
    (hsound : Sound → HonestObjects w.store ∧ DistinctTables host)
    (hret : Returns host.MayFail w (createFullBackupWithOptions sched request options).run
      (.ok result) w') :
    Writing Sound request.snapshotId w w' ∧
      FullWritten Sound host request w'.store result.manifest := by
  refine returns_withLock (P := fun result w' => FullWritten Sound host request w'.store
    result.manifest) ?_ (fun w₁ hsame => wpE_createFullBackupInner sched request options
      fun hs => ⟨(hsound hs).1.of_sameButLock hsame, (hsound hs).2⟩) hret
  rintro result w' w'' hsame ⟨hwritten, hhonest, schema, tables, tableEntries, objectEntries,
    hschema, htables, hentries, hset⟩
  refine ⟨hwritten.of_sameButLock hsame, fun hs => (hhonest hs).of_sameButLock hsame, schema,
    tables, tableEntries, objectEntries, hschema, htables, fun hs => ?_, hset⟩
  exact (hentries hs).imp fun _ _ h => h.of_sameButLock hsame (inSnapshotDir_databaseTableKey _ _)

theorem returns_createIncrementalBackup {sched : List Poll} {request : IncrementalBackupRequest}
    {options : BackupExecutionOptions} {result : IncrementalBackupResult}
    (hsound : Sound → HonestObjects w.store)
    (hret : Returns host.MayFail w (createIncrementalBackupWithOptions sched request options).run
      (.ok result) w') :
    Writing Sound request.snapshotId w w' ∧
      IncrementalWritten Sound host request w'.store result.manifest := by
  refine returns_withLock (P := fun result w' => IncrementalWritten Sound host request w'.store
    result.manifest) ?_ (fun w₁ hsame => wpE_createIncrementalBackupInner sched request options
      fun hs => (hsound hs).of_sameButLock hsame) hret
  rintro result w' w'' hsame ⟨hwritten, hhonest, schema, changes, changeEntries, objectEntries,
    hschema, hchanges, hentries, hset⟩
  refine ⟨hwritten.of_sameButLock hsame, fun hs => (hhonest hs).of_sameButLock hsame, schema,
    changes, changeEntries, objectEntries, hschema, hchanges, ?_, hset⟩
  exact hentries.imp fun _ _ h => h.of_sameButLock hsame (inSnapshotDir_databaseChangesKey _ _)

/-- What a compaction reads, it reads under the lock. -/
theorem returns_compactChain {order : BackupSnapshotManifest → CompletionOrder}
    {request : CompactChainRequest} {options : BackupExecutionOptions}
    {result : CompactChainResult}
    (hsound : Sound → ChainKeysStored w.store request.sourceSnapshotId)
    (hret : Returns host.MayFail w (compactChainWithOptions order request options).run
      (.ok result) w') :
    Writing Sound request.snapshotId w w' ∧ ∃ w₁, SameButLock w w₁ ∧
      CompactWritten Sound request w₁.store w'.store result.manifest := by
  refine returns_withLock (P := fun result w' => ∃ w₁, SameButLock w w₁ ∧
    CompactWritten Sound request w₁.store w'.store result.manifest) ?_ (fun w₁ hsame => ?_) hret
  · rintro result w' w'' hsame ⟨w₁, hsame₁, hwritten, root, rest, latest, tableRows, tableEntries,
      hload, hblobs, hlast, hrows, hentries, hset⟩
    refine ⟨w₁, hsame₁, hwritten.of_sameButLock hsame, root, rest, latest, tableRows, tableEntries,
      hload, hblobs, hlast, hrows, ?_, hset⟩
    exact hentries.imp fun _ _ h => h.of_sameButLock hsame (inSnapshotDir_databaseTableKey _ _)
  · exact (wpE_compactChainInner order request fun hs => (hsound hs).of_sameButLock hsame).mono
      (fun result w' _ h => ⟨w₁, hsame, h⟩) fun _ _ _ h => h

/-! ## Consequences -/

/-- No key of a chain is touched to which the written snapshot does not belong. -/
theorem Extends.agreeOn (h : Extends snapshotId w w') (hw : CrateWritten w.store) {id : Uuid}
    {chain : List BackupSnapshotManifest} (hnot : snapshotId ∉ chain.map (·.snapshotId))
    (hintact : Intact w.store id chain) : AgreeOn (chainKeys chain) w.store w'.store := by
  intro key hkey
  have hlock : key ≠ repositoryLockKey := fun heq => hintact.lock_notMem hw (heq ▸ hkey)
  obtain ⟨manifest, hmem, hcase⟩ := hintact.key_cases hw hkey
  have hne : manifest.snapshotId ≠ snapshotId := fun heq =>
    hnot (heq ▸ List.mem_map_of_mem hmem)
  rcases hcase with hdir | ⟨hobj, href⟩
  · refine h key hlock (fun hdir' => hne (hdir'.unique hdir)) (Or.inr fun hobj => ?_)
    exact hobj.not_inSnapshotDir _ hdir
  · refine h key hlock (hobj.not_inSnapshotDir _) (Or.inl ?_)
    rcases List.mem_map.mp href with ⟨check, hcheck, rfl⟩
    obtain ⟨body, hbody, _⟩ :=
      ((intact_iff.mp hintact).2 manifest hmem).2 check (List.mem_append_left _ hcheck)
    exact Store.mem_of_lookup hbody

/-- The snapshots that do not depend on the one that is written stay. -/
theorem Extends.intact (h : Extends snapshotId w w') (hw : CrateWritten w.store) {id : Uuid}
    {chain : List BackupSnapshotManifest} (hnot : snapshotId ∉ chain.map (·.snapshotId))
    (hintact : Intact w.store id chain) : Intact w'.store id chain :=
  hintact.of_agree hw.snapshotId (h.agreeOn hw hnot hintact)

theorem Written.verifies {s : Store} {manifest : BackupSnapshotManifest}
    (h : Written Sound snapshotId s manifest) (hsound : Sound) :
    HoldsBlobs s manifest ∧ ∀ order, verifyManifestAndObjects order s manifest = .ok () := by
  have hblobs : HoldsBlobs s manifest := fun ref href => (h.blobs hsound ref href).2
  exact ⟨hblobs, fun _ => verifyManifestAndObjects_eq_ok.mpr ⟨h.checksum, hblobs⟩⟩

/-- At every point at which the operation stops, the snapshots that do not
    depend on `snapshotId` are as they were, and once the manifest of `snapshotId` has been
    written, it is stored and all of its blobs are in place. -/
def CrashConsistent {α : Type} (host : Host) (w : World) (snapshotId : Uuid)
    (operation : BackupM α) : Prop :=
  ∀ w' rest, Reaches host.MayFail w operation.run w' rest →
    (∀ id chain, snapshotId ∉ chain.map (·.snapshotId) →
      Intact w.store id chain → Intact w'.store id chain) ∧
    (∀ new, w'.puts = w.puts ++ new → snapshotManifestKey snapshotId ∈ new →
      ∃ manifest doc, manifest.snapshotId = snapshotId ∧
        Crates.manifestToVecPretty manifest = .ok doc ∧
        w'.store.lookup (snapshotManifestKey snapshotId) = some doc ∧
        HoldsBlobs w'.store manifest ∧
        ∀ order, verifyManifestAndObjects order w'.store manifest = .ok ())

theorem crashConsistent_of_writing {α : Type} {operation : BackupM α}
    (hw : CrateWritten w.store) {P : α → World → Prop} {E : BackupError → World → Prop}
    (hsound : Sound) (h : wpE host.MayFail (Writing Sound snapshotId w) operation P E w) :
    CrashConsistent host w snapshotId operation := by
  intro w' rest hreach
  have hwriting := hreach.crash h
  refine ⟨fun id chain hnot hintact => hwriting.extends_.intact hw hnot hintact, ?_⟩
  intro new hputs hnew
  rcases hwriting.manifest with ⟨new', hputs', hnew'⟩ | ⟨manifest, hwritten⟩
  · rw [hputs', List.append_cancel_left_eq] at hputs
    exact absurd (hputs ▸ hnew) hnew'
  · obtain ⟨doc, hdoc, hlookup⟩ := hwritten.stored
    exact ⟨manifest, doc, hwritten.id, hdoc, hlookup, hwritten.verifies hsound⟩

theorem CrateWritten.chainKeysStored {s : Store} (hw : CrateWritten s) (id : Uuid) :
    ChainKeysStored s id := by
  intro chain hload manifest hmem
  rcases loadManifestChain_eq_ok.mp hload with ⟨path, hpath, rfl, _⟩
  rcases List.mem_map.mp hmem with ⟨node, hnode, rfl⟩
  have hstored := hpath.stored_of_mem node hnode
  refine ⟨fun entry hentry => hw.objects _ _ hstored (entry.contentKey, entry.sha256Hex)
    (List.mem_map.mpr ⟨entry, hentry, rfl⟩), fun entry hentry => ?_⟩
  rw [hw.snapshotId _ _ hstored]
  exact hw.entries _ _ hstored (entry.contentKey, entry.sha256Hex)
    (List.mem_map.mpr ⟨entry, hentry, rfl⟩)

/-- **Snapshot creation is crash consistent.** -/
theorem snapshot_creation_is_crash_consistent (hw : CrateWritten w.store)
    (hhonest : HonestObjects w.store) :
    (∀ sched request options, DistinctTables host →
      CrashConsistent host w request.snapshotId
        (createFullBackupWithOptions sched request options)) ∧
    (∀ sched request options, CrashConsistent host w request.snapshotId
        (createIncrementalBackupWithOptions sched request options)) ∧
    (∀ order request options, CrashConsistent host w request.snapshotId
        (compactChainWithOptions order request options)) := by
  refine ⟨fun sched request options hdistinct => ?_, fun sched request options => ?_,
    fun order request options => ?_⟩
  · refine crashConsistent_of_writing hw trivial (wpE_withLock_writing fun w₁ hsame => ?_)
    exact (wpE_createFullBackupInner sched request options
      fun _ => ⟨hhonest.of_sameButLock hsame, hdistinct⟩).mono
      (fun _ _ _ _ => trivial) fun _ _ _ _ => trivial
  · refine crashConsistent_of_writing hw trivial (wpE_withLock_writing fun w₁ hsame => ?_)
    exact (wpE_createIncrementalBackupInner sched request options
      fun _ => hhonest.of_sameButLock hsame).mono
      (fun _ _ _ _ => trivial) fun _ _ _ _ => trivial
  · refine crashConsistent_of_writing hw trivial (wpE_withLock_writing fun w₁ hsame => ?_)
    exact (wpE_compactChainInner order request fun _ =>
      (hw.of_sameButLock hsame).chainKeysStored _).mono
      (fun _ _ _ _ => trivial) fun _ _ _ _ => trivial

end Codec

section Family

open Reference

theorem honestObjects_familyWorld : HonestObjects familyWorld.store := by
  intro key hkey body hbody
  have hlookup : familyWorld.store.lookup key = familyBlobs.lookup key := lookup_filed fun id heq =>
    hkey.not_inSnapshotDir id (heq ▸ inSnapshotDir_snapshotManifestKey id)
  replace hbody := hlookup.symm.trans hbody
  obtain ⟨hphoto, hscan, -, -⟩ := lookup_familyBlobs
  have hmem := Store.mem_of_lookup hbody
  simp only [familyBlobs, Store.putBlob, AList.mem_insert, AList.notMem_empty, or_false] at hmem
  rcases hmem with rfl | rfl | rfl | rfl
  · exact absurd (inSnapshotDir_databaseChangesKey _ _) (hkey.not_inSnapshotDir _)
  · exact absurd (inSnapshotDir_databaseTableKey _ _) (hkey.not_inSnapshotDir _)
  · rw [← Option.some.inj (hscan.symm.trans hbody)]
    exact sha256Hex_scan.trans (lastSegment_objectContentKey (by decide)).symm
  · rw [← Option.some.inj (hphoto.symm.trans hbody)]
    exact sha256Hex_photo.trans (lastSegment_objectContentKey (by decide)).symm

/-- The photo has been backed up; the drawing has not. -/
def albumObjects : List BackupObjectRef :=
  [⟨photo.objectId, photo.storageKey, photoSha, 1, none⟩, ⟨uuid 9, "drawing.png", "00", 1, none⟩]

def album : Host := application [notes] edits albumObjects fun _ => .ok (.ok [7])

theorem snapshot_creation_is_crash_consistent_family :
    CrashConsistent album familyWorld (uuid 4)
      (createFullBackupWithOptions [] (fullRequest (uuid 4)) options) ∧
    CrashConsistent album familyWorld (uuid 5)
      (createIncrementalBackupWithOptions [] (incrementalRequest (uuid 5) (uuid 3)) options) ∧
    CrashConsistent album familyWorld (uuid 6)
      (compactChainWithOptions (fun _ _ => []) (compactRequest (uuid 6) (uuid 3)) options) ∧
    Intact familyWorld.store (uuid 3) [sealManifest rootSnapshot, sealManifest newSnapshot] := by
  have hdistinct : DistinctTables album := by
    rintro _ ⟨⟩
    decide
  obtain ⟨hfull, hincremental, hcompact⟩ :=
    snapshot_creation_is_crash_consistent crateWritten_familyWorld honestObjects_familyWorld
  exact ⟨hfull _ (fullRequest _) _ hdistinct, hincremental _ (incrementalRequest _ _) _,
    hcompact _ (compactRequest _ _) _, intact_familyWorld.2.2⟩

end Family

end GraphqlOrmBackup
