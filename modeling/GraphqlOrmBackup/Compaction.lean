import GraphqlOrmBackup.ChainLoadability
import GraphqlOrmBackup.Delivery
import GraphqlOrmBackup.KeyedStore
import GraphqlOrmBackup.RestoreFailures

/-!
# What compaction preserves

A compaction folds the chain into nested maps, and a restore of the chain
delivers it payload by payload.  Both are the same database, and the synthetic
snapshot restores to it.
-/

namespace GraphqlOrmBackup

open Interaction Replay

/-- The row of a create or an update is the row that the change names. -/
def BackupChangeExport.CarriesOwnRow (change : BackupChangeExport) : Prop :=
  change.action ≠ .delete → ∀ row, change.row = some row →
    row.tableName = change.tableName ∧ row.primaryKey = change.primaryKey

/-! ## What a compaction has folded -/

section

variable [Crates] {s s' : Store} {w w₁ w' : World} {host : Host} {id : Uuid}
  {root : BackupSnapshotManifest} {rest : List BackupSnapshotManifest}
  {tables : List BackupTableExport} {changes : List (List BackupChangeExport)}

theorem compactRows_eq_ok {tableRows : TableRows} (h : compactRows s root rest = .ok tableRows) :
    ∃ tables changes, loadTableExports s root = .ok tables ∧
      List.Forall₂ (fun manifest changes => loadChangeExports s manifest = .ok changes) rest
        changes ∧ tableRows.view = KeyedStore.ofHistory tables changes := by
  rcases bind_eq_ok.mp h with ⟨tables, htables, hfold⟩
  obtain ⟨changes, hchanges, rfl⟩ := foldlM_eq_ok hfold
  refine ⟨tables, changes, htables, hchanges, ?_⟩
  rw [view_foldl_changes, view_foldl_insertTable, view_empty, KeyedStore.ofHistory]

/-- A snapshot has the same contents with and without the lock. -/
theorem Contents.of_sameButLock (hsame : SameButLock w w₁)
    (hlock : ∀ manifest ∈ root :: rest, ∀ ref ∈ manifest.references, ref.1 ≠ repositoryLockKey)
    (h : Contents w₁.store id root rest tables changes) :
    Contents w.store id root rest tables changes := by
  apply h.of_sameBlobs (loadManifestChain_sameButLock hsame h.loads)
  intro manifest hmem key hkey
  rcases List.mem_map.mp hkey with ⟨ref, href, rfl⟩
  exact (hsame.1 _ (hlock manifest hmem ref href)).symm

/-! ## The restored databases -/

/-- The changes of the chain carry the rows that they name. -/
def ChainCarriesOwnRows (s : Store) (id : Uuid) : Prop :=
  ∀ chain, loadManifestChain s id = .ok chain → ∀ manifest ∈ chain, ∀ changes,
    loadChangeExports s manifest = .ok changes → ∀ change ∈ changes, change.CarriesOwnRow

/-- The floats in the payloads of the chain are read as they were written. -/
def ChainReadsFloats (s : Store) (id : Uuid) : Prop :=
  ∀ chain, loadManifestChain s id = .ok chain → ∀ manifest ∈ chain,
    (∀ tables, loadTableExports s manifest = .ok tables →
      ∀ table ∈ tables, ∀ row ∈ table.rows, row.ReadsFloats) ∧
    ∀ changes, loadChangeExports s manifest = .ok changes →
      ∀ change ∈ changes, ∀ row, change.row = some row → row.ReadsFloats

/-- The counts of the manifest are those of the tables. -/
structure CountsRows (manifest : BackupSnapshotManifest) (tables : List BackupTableExport) :
    Prop where
  entries : List.Forall₂ (fun (table : BackupTableExport) (entry : TableBackupEntry) =>
    entry.tableName = table.tableName ∧ entry.rowCount = table.rows.length) tables
    manifest.database.tables
  rowCount : manifest.database.rowCount = (tables.map (·.rows.length)).sum

theorem countsRows_of_describes {γ : Type} {l : List γ} {key name : γ → String}
    {rows : γ → List BackupRow} {manifest : BackupSnapshotManifest}
    (h : List.Forall₂ (fun x entry => Describes s (key x) (name x) (rows x) entry) l
      manifest.database.tables)
    (hcount : manifest.database.rowCount = totalRowCount manifest.database.tables) :
    CountsRows manifest (l.map fun x => ⟨name x, rows x⟩) := by
  refine ⟨?_, hcount.trans ?_⟩
  · rw [List.forall₂_map_left_iff]
    exact h.imp fun x entry hdesc => ⟨hdesc.tableName, hdesc.rowCount⟩
  · have hcounts : List.Forall₂ (· = ·) (l.map fun x => (rows x).length)
        (manifest.database.tables.map (·.rowCount)) := by
      rw [List.forall₂_map_left_iff, List.forall₂_map_right_iff]
      exact h.imp fun x entry hdesc => hdesc.rowCount.symm
    rw [List.forall₂_eq_eq_eq] at hcounts
    rw [totalRowCount, ← hcounts, List.map_map]
    rfl

/-- The rows that a compaction folds are filed under their primary keys, -/
theorem Contents.forall_primaryKey (h : Contents s id root rest tables changes)
    (hown : ChainCarriesOwnRows s id) (tableName : String) :
    (KeyedStore.ofHistory tables changes tableName).Forall fun key row => row.primaryKey = key := by
  refine KeyedStore.forall_ofHistory (fun _ _ _ _ => rfl) (fun list hlist change hmem => ?_) _
  obtain ⟨manifest, hmanifest, hload⟩ := forall₂_mem_right h.changes list hlist
  intro hne row hrow
  exact (hown _ h.loads manifest (List.mem_cons_of_mem _ hmanifest) list hload change hmem hne row
    hrow).2

/-- and can be read once more. -/
theorem Contents.forall_readsBack (hback : CratesReadBack)
    (h : Contents s id root rest tables changes) (hfloats : ChainReadsFloats s id)
    (tableName : String) :
    (KeyedStore.ofHistory tables changes tableName).Forall fun _ row => ReadsBack row := by
  refine KeyedStore.forall_ofHistory (fun table htable row hrow => ?_)
    (fun list hlist change hmem => ?_) _
  · have hfloats := (hfloats _ h.loads root List.mem_cons_self).1 _ h.tables table htable row hrow
    exact hback.rows.readsBack row
      ⟨depth_le_of_loadTableExports hback.rows h.tables table htable row hrow, hfloats⟩
  · obtain ⟨manifest, hmanifest, hload⟩ := forall₂_mem_right h.changes list hlist
    intro _ row hrow
    have hdepth := depth_le_of_loadChangeExports hback.changes hload change hmem
    rw [BackupChangeExport.depth, hrow] at hdepth
    have hmem' := List.mem_cons_of_mem root hmanifest
    have hfloats := (hfloats _ h.loads manifest hmem').2 _ hload change hmem row hrow
    exact hback.rows.readsBack row ⟨(Nat.le_succ _).trans hdepth, hfloats⟩

/-- No blob of the chain is stored under the lock key, and no object of it in the
    directory of the snapshot that is to be written. -/
def ChainKeysApart (s : Store) (sourceSnapshotId snapshotId : Uuid) : Prop :=
  ∀ chain, loadManifestChain s sourceSnapshotId = .ok chain → ∀ manifest ∈ chain,
    (∀ ref ∈ manifest.references, ref.1 ≠ repositoryLockKey) ∧
    ∀ entry ∈ manifest.objects, ¬ InSnapshotDir snapshotId entry.contentKey

/-- The blobs of a synthetic snapshot: its tables have been written, and its
    objects were there before. -/
theorem holdsBlobs_synthetic {request : CompactChainRequest} {tableRows : TableRows}
    {latest manifest : BackupSnapshotManifest} {tableEntries : List TableBackupEntry}
    (hextends : Extends request.snapshotId w w')
    (hblobs : ∀ m ∈ root :: rest, HoldsBlobs w.store m)
    (hlock : ∀ m ∈ root :: rest, ∀ ref ∈ m.references, ref.1 ≠ repositoryLockKey)
    (hdir : ∀ m ∈ root :: rest, ∀ entry ∈ m.objects,
      ¬ InSnapshotDir request.snapshotId entry.contentKey)
    (hentries : List.Forall₂ (fun (table : String × Std.TreeMap String BackupRow) entry =>
      Describes w'.store (databaseTableKey request.snapshotId table.1) table.1 table.2.values
        entry) tableRows.toList tableEntries)
    (hset : setManifestChecksum (syntheticManifest request latest tableEntries
      (compactObjectEntries (root :: rest))) = .ok manifest) : HoldsBlobs w'.store manifest := by
  rcases setManifestChecksum_eq_ok.mp hset with ⟨checksum, _, rfl⟩
  intro ref href
  rcases List.mem_append.mp href with href | href
  · rcases List.mem_map.mp href with ⟨entry, hentry, rfl⟩
    obtain ⟨m, hm, hmem⟩ := mem_compactObjectEntries hentry
    have href : (entry.contentKey, entry.sha256Hex) ∈ m.references :=
      List.mem_append_left _ (List.mem_map.mpr ⟨entry, hmem, rfl⟩)
    obtain ⟨body, hbody, hsha⟩ := hblobs m hm _ href
    refine ⟨body, ?_, hsha⟩
    rw [hextends _ (hlock m hm _ href) (hdir m hm entry hmem) (Or.inl (Store.mem_of_lookup hbody))]
    exact hbody
  · rcases List.mem_map.mp href with ⟨entry, hentry, rfl⟩
    rw [syntheticManifest, List.append_nil] at hentry
    obtain ⟨table, _, hdescribes⟩ := forall₂_mem_right hentries entry hentry
    exact hdescribes.holdsBlob

/-- What a compaction that returns has done: it has read the contents of the
    source, and the snapshot that it has written holds the tables of the same
    database. -/
theorem compaction_contents (hback : CratesReadBack) {request : CompactChainRequest}
    {options : BackupExecutionOptions} {order : BackupSnapshotManifest → CompletionOrder}
    {result : CompactChainResult}
    (hkeys : ChainKeysApart w.store request.sourceSnapshotId request.snapshotId)
    (hfloats : ChainReadsFloats w.store request.sourceSnapshotId)
    (hret : Returns host.MayFail w (compactChainWithOptions order request options).run
      (.ok result) w') :
    ∃ root rest tables changes tableRows,
      Contents w.store request.sourceSnapshotId root rest tables changes ∧
      TableRows.view tableRows = KeyedStore.ofHistory tables changes ∧
      Contents w'.store request.snapshotId result.manifest [] tableRows.tables [] ∧
      CountsRows result.manifest tableRows.tables ∧
      result.manifest.databaseBackend = root.databaseBackend ∧
      result.manifest.graphqlOrmSchemaHash = root.graphqlOrmSchemaHash := by
  obtain ⟨hwriting, w₁, hsame, hcompact⟩ := returns_compactChain False.elim hret
  have hwritten := hcompact.written
  obtain ⟨root, rest, latest, tableRows, tableEntries, hload₁, hblobs₁, hlast, hrows, hentries,
    hset⟩ := hcompact.contents
  obtain ⟨tables, changes, htables₁, hchanges₁, hview⟩ := compactRows_eq_ok hrows
  have hapart := hkeys _ (loadManifestChain_sameButLock hsame hload₁)
  have hlock : ∀ m ∈ root :: rest, ∀ ref ∈ m.references, ref.1 ≠ repositoryLockKey :=
    fun m hm => (hapart m hm).1
  have hsource : Contents w.store request.sourceSnapshotId root rest tables changes :=
    Contents.of_sameButLock hsame hlock ⟨hload₁, hblobs₁, htables₁, hchanges₁⟩
  have hblobs : HoldsBlobs w'.store result.manifest :=
    holdsBlobs_synthetic hwriting.extends_ hsource.blobs hlock (fun m hm => (hapart m hm).2)
      hentries hset
  rcases setManifestChecksum_eq_ok.mp hset with ⟨checksum, _, hmanifest⟩
  have hdatabase : result.manifest.database = (syntheticManifest request latest tableEntries
      (compactObjectEntries (root :: rest))).database := by
    rw [hmanifest]
  have hdescribes : List.Forall₂ (fun (table : String × Std.TreeMap String BackupRow) entry =>
      Describes w'.store (databaseTableKey request.snapshotId table.1) table.1 table.2.values
        entry) tableRows.toList result.manifest.database.tables := by
    rw [hdatabase]
    exact hentries
  have hread : ∀ table ∈ tableRows.toList, ∀ row ∈ table.2.values, ReadsBack row := by
    rintro ⟨tableName, rows⟩ hmem row hrow
    rcases mem_values.mp hrow with ⟨key, hkey⟩
    apply hsource.forall_readsBack hback hfloats tableName key row
    rw [← hview, view_eq_of_mem hmem]
    exact hkey
  have hloads := (hwriting.replaces hback.manifests hwritten).chain_root
    (by rw [hmanifest]; rfl) (by rw [hmanifest]; exact Or.inr rfl)
  rcases loadManifestChain_eq_ok.mp hload₁ with ⟨_, _, _, hvalid⟩
  have hmem := List.mem_of_getLast? hlast
  refine ⟨root, rest, tables, changes, tableRows, hsource, hview,
    ⟨hloads, List.forall_mem_singleton.mpr hblobs, ?_, .nil⟩, ?_, ?_, ?_⟩
  · exact loadTableExports_of_describes hback.zstd hdescribes hread (by rw [hdatabase]; rfl)
      (by rw [hdatabase]; rfl)
  · exact countsRows_of_describes hdescribes (by rw [hdatabase]; rfl)
  · rw [hmanifest]
    exact hvalid.agree (·.databaseBackend) (fun _ _ h => h.databaseBackend) latest hmem root
      List.mem_cons_self
  · rw [hmanifest]
    exact hvalid.agree (·.graphqlOrmSchemaHash) (fun _ _ h => h.graphqlOrmSchemaHash) latest hmem
      root List.mem_cons_self

/-- **Compaction preserves the restored database.**  A target that accepts the
    source accepts the synthetic snapshot; every restore of either succeeds, and
    both lead to the same database.  The synthetic snapshot holds each primary
    key of a table at most once, and its manifest counts its rows. -/
theorem compaction_preserves_database (hback : CratesReadBack) {request : CompactChainRequest}
    {options : BackupExecutionOptions} {order : BackupSnapshotManifest → CompletionOrder}
    {result : CompactChainResult}
    (hkeys : ChainKeysApart w.store request.sourceSnapshotId request.snapshotId)
    (hown : ChainCarriesOwnRows w.store request.sourceSnapshotId)
    (hfloats : ChainReadsFloats w.store request.sourceSnapshotId)
    (hret : Returns host.MayFail w (compactChainWithOptions order request options).run
      (.ok result) w') :
    ∃ root calls tables,
      Restores w request.sourceSnapshotId root calls ∧
      Restores w' request.snapshotId result.manifest
        (fun context => [.restoreFull (manifestSchema result.manifest) tables context]) ∧
      (∀ target, Accepts target root → Accepts target result.manifest) ∧
      (∀ context, KeyedStore.ofCalls [.restoreFull (manifestSchema result.manifest) tables context] =
        KeyedStore.ofCalls (calls context)) ∧
      (tables.map (·.tableName)).Nodup ∧
      (∀ table ∈ tables, (table.rows.map (·.primaryKey)).Nodup) ∧
      CountsRows result.manifest tables := by
  obtain ⟨root, rest, tables, changes, tableRows, hsource, hview, hsynthetic, hcounts, hbackend,
    hhash⟩ := compaction_contents hback hkeys hfloats hret
  have hkeyed : ∀ tableName, (tableRows.view tableName).Forall fun key row =>
      row.primaryKey = key := by
    rw [hview]
    exact hsource.forall_primaryKey hown
  refine ⟨root, _, tableRows.tables, hsource.restores, hsynthetic.restores, ?_, fun context => ?_,
    nodup_tables tableRows, fun table htable => ?_, hcounts⟩
  · rintro target ⟨⟨schema, hschema, hbackend', hhash'⟩, hempty, hrestore⟩
    exact ⟨⟨schema, hschema, hbackend.trans hbackend', hhash.trans hhash'⟩, hempty, hrestore⟩
  · rw [restoreCalls, KeyedStore.ofCalls_restoreCalls, ← hview, ← ofHistory_tables hkeyed]
    rfl
  · rcases List.mem_map.mp htable with ⟨entry, hentry, rfl⟩
    exact (filedByKey_of_view hkeyed entry hentry).nodup

end

/-! ## Compactions that return -/

section Returns

variable [Crates] {host : Host} {w : World} {request : CompactChainRequest} {s : Store} {id : Uuid}
  {root : BackupSnapshotManifest} {rest : List BackupSnapshotManifest}
  {tables : List BackupTableExport} {changes : List (List BackupChangeExport)}

/-- The rows of the tables after the changes. -/
def foldRows (tables : List BackupTableExport) (changes : List (List BackupChangeExport)) :
    TableRows :=
  changes.foldl (fun tableRows list => list.foldl applyChange tableRows)
    (tables.foldl insertTable ∅)

theorem Contents.compactRows (h : Contents s id root rest tables changes) :
    compactRows s root rest = .ok (foldRows tables changes) := by
  rw [GraphqlOrmBackup.compactRows, h.tables]
  refine foldlM_of_forall₂ (h.changes.imp fun manifest list hlist tableRows => ?_) _
  rw [hlist]
  rfl

/-- What a compaction does when it has read the chain. -/
def compactionWrites (request : CompactChainRequest) (chain : List BackupSnapshotManifest)
    (tableRows : TableRows) : BackupM CompactChainResult := do
  let tableEntries ← tableRows.toList.mapM' (writeRows request.snapshotId)
  let latest ← Fallible.ofExcept ((chain.getLast?).elim emptyChain pure)
  let manifest ←
    writeManifest (syntheticManifest request latest tableEntries (compactObjectEntries chain))
  pure { manifest }

/-- A compaction of a chain that is in place returns if it can write. -/
theorem exists_returns_compactChain {options : BackupExecutionOptions}
    (hfree : w.store.lookup repositoryLockKey = none)
    (hlock : ∀ m ∈ root :: rest, ∀ ref ∈ m.references, ref.1 ≠ repositoryLockKey)
    (hcontents : Contents w.store request.sourceSnapshotId root rest tables changes)
    (hwrites : ∃ result w', Returns host.Answers w.locked
      (compactionWrites request (root :: rest) (foldRows tables changes)).run (.ok result) w') :
    ∃ result w', Returns host.Answers w
      (compactChainWithOptions (fun _ _ => []) request options).run (.ok result) w' := by
  have hlocked := hcontents.of_sameButLock (World.sameButLock_locked w).symm hlock
  have hverified : loadVerifiedChain (fun _ _ => []) w.locked.store request.sourceSnapshotId =
      .ok (root :: rest) := by
    rw [loadVerifiedChain_eq_ok]
    exact ⟨hlocked.loads, fun manifest hmem =>
      ⟨verifyManifestChecksum_of_loads hlocked.loads manifest hmem, hlocked.blobs manifest hmem⟩⟩
  rcases hwrites with ⟨result, w', hwrites⟩
  apply Host.exists_returns_withLock hfree
  refine ⟨result, w', Fallible.returns_bind (Host.returns_read hverified) ?_⟩
  apply Fallible.returns_bind (Fallible.returns_ofExcept rfl)
  exact Fallible.returns_bind (Host.returns_read hlocked.compactRows) hwrites

/-- The writers of this crate keep the keys of a chain apart. -/
theorem Intact.chainKeysApart {chain : List BackupSnapshotManifest} (h : Intact s id chain)
    (hw : CrateWritten s) (snapshotId : Uuid) : ChainKeysApart s id snapshotId := by
  intro chain' hchain manifest hmem
  obtain rfl := Except.ok.inj (h.loads.symm.trans hchain)
  refine ⟨fun ref href heq => ?_, fun entry hentry => ?_⟩
  · apply h.lock_notMem hw
    exact ⟨manifest, hmem, Or.inr (heq ▸ List.mem_map_of_mem href)⟩
  · have hobject := hw.objects _ _ (h.loadManifest hw hmem) (entry.contentKey, entry.sha256Hex)
      (List.mem_map_of_mem hentry)
    exact hobject.not_inSnapshotDir snapshotId

end Returns

/-! ## The compaction of a small chain -/

section Family

open Reference

def familyWrites : BackupM CompactChainResult :=
  compactionWrites (compactRequest (uuid 4) (uuid 3))
    [sealManifest rootSnapshot, sealManifest newSnapshot] (foldRows [notes] [edits])

theorem isOk_familyWrites : (runDatabase [] [] familyWrites familyWorld.locked).1.isOk = true := by
  decide +kernel

theorem exists_returns_compactChain_familyWorld :
    ∃ result w', Returns (database [] []).Answers familyWorld
      (compactChainWithOptions (fun _ _ => []) (compactRequest (uuid 4) (uuid 3)) options).run
      (.ok result) w' := by
  have hkeys := intact_familyWorld.2.2.chainKeysApart crateWritten_familyWorld (uuid 4)
  obtain ⟨result, hret⟩ := returns_runDatabase isOk_familyWrites
  exact exists_returns_compactChain (by decide +kernel)
    (fun manifest hmem => (hkeys _ contents_familyWorld.loads manifest hmem).1)
    contents_familyWorld ⟨result, _, hret⟩

/-- The contents of the chain, as far as they can be loaded. -/
theorem forall_loads_familyWorld {P : List BackupTableExport → Prop}
    {Q : List BackupChangeExport → Prop} (hnil : P [] ∧ Q []) (hnotes : P [notes]) (hedits : Q edits) :
    ∀ chain, loadManifestChain familyWorld.store (uuid 3) = .ok chain → ∀ manifest ∈ chain,
      (∀ tables, loadTableExports familyWorld.store manifest = .ok tables → P tables) ∧
      ∀ changes, loadChangeExports familyWorld.store manifest = .ok changes → Q changes := by
  have hcontents := contents_familyWorld
  intro chain hchain
  obtain rfl := Except.ok.inj (hcontents.loads.symm.trans hchain)
  have hchanges := (List.forall₂_cons.mp hcontents.changes).1
  rw [List.forall_mem_cons, List.forall_mem_singleton]
  refine ⟨⟨fun tables h => ?_, fun changes h => ?_⟩, fun tables h => ?_, fun changes h => ?_⟩
  · rwa [← Except.ok.inj (hcontents.tables.symm.trans h)]
  · rw [← show ([] : List BackupChangeExport) = changes from Except.ok.inj h]
    exact hnil.2
  · rw [← show ([] : List BackupTableExport) = tables from Except.ok.inj h]
    exact hnil.1
  · rwa [← Except.ok.inj (hchanges.symm.trans h)]

/-- The first note is updated, a second one has come, and a third one has gone:
    the snapshot with the changes is compacted into a fourth one. -/
theorem compaction_preserves_database_family :
    ∃ result w' root calls tables,
      Restores familyWorld (uuid 3) root calls ∧
      Restores w' (uuid 4) (CompactChainResult.manifest result) (fun context =>
        [.restoreFull (manifestSchema (CompactChainResult.manifest result)) tables context]) ∧
      ∀ context, KeyedStore.ofCalls [.restoreFull
        (manifestSchema (CompactChainResult.manifest result)) tables context] =
          KeyedStore.ofCalls (calls context) := by
  have hkeys := intact_familyWorld.2.2.chainKeysApart crateWritten_familyWorld (uuid 4)
  have hown : ChainCarriesOwnRows familyWorld.store (uuid 3) := by
    have hedits : ∀ change ∈ edits, change.CarriesOwnRow := by
      simp [edits, edit, editedNote, note, BackupChangeExport.CarriesOwnRow]
    intro chain hchain manifest hmem
    exact (forall_loads_familyWorld (P := fun _ => True) ⟨trivial, nofun⟩ trivial hedits chain
      hchain manifest hmem).2
  have hfloats : ChainReadsFloats familyWorld.store (uuid 3) := by
    refine forall_loads_familyWorld ⟨nofun, nofun⟩ ?_ fun change hmem row hrow => ?_
    · simp only [notes, List.forall_mem_singleton]
      exact readsFloats_of_nil rfl
    · have hedits : ∀ change ∈ edits, ∀ row ∈ change.row, row.floats = [] := by decide
      exact readsFloats_of_nil (hedits change hmem row hrow)
  obtain ⟨result, w', hret⟩ := exists_returns_compactChain_familyWorld
  obtain ⟨root, calls, tables, hsource, hsynthetic, _, hequal, _⟩ :=
    compaction_preserves_database cratesReadBack hkeys hown hfloats (returns_mayFail hret)
  exact ⟨result, w', root, calls, tables, hsource, hsynthetic, hequal⟩

end Family

/-! ## A chain that stands in the way of its compaction -/

section Keyed

open Reference

/-- A full snapshot with one table and one object. -/
def keyedSnapshot (key : String) : BackupSnapshotManifest :=
  { manifest (uuid 1) none with
    database := {
      exportFormat := "jsonl"
      compression := .zstd
      rowCount := 1
      tableCount := 1
      tables := [⟨"notes", 1, databaseTableKey (uuid 1) "notes", sha256Hex notesPayload⟩]
      changes := [] }
    objects := [⟨uuid 7, "avatar.png", key, sha256Hex [7], 1, none⟩] }

def keyedWorld (key : String) : World :=
  ⟨fileChain ((Store.putBlob ∅ key [7]).putBlob (databaseTableKey (uuid 1) "notes") notesPayload)
    [keyedSnapshot key], [], []⟩

/-- What the compaction writes. -/
def keyedWrites (key : String) : BackupM CompactChainResult :=
  compactionWrites (compactRequest (uuid 2) (uuid 1)) [sealManifest (keyedSnapshot key)]
    (foldRows [notes] [])

/-- The key is not in the way of the chain itself, and the compaction can write
    what it has read. -/
structure Keyed (key : String) : Prop where
  fits : (keyedSnapshot key).Representable
  table : key ≠ databaseTableKey (uuid 1) "notes"
  manifest : ∀ id, key ≠ snapshotManifestKey id
  lock : key ≠ repositoryLockKey
  writes : (runDatabase [] [] (keyedWrites key) (keyedWorld key).locked).1.isOk = true

section

variable {key : String}

theorem Keyed.ne_lock (hkey : Keyed key) : ∀ m ∈ [sealManifest (keyedSnapshot key)],
    ∀ ref ∈ m.references, ref.1 ≠ repositoryLockKey := by
  intro m hm ref href
  rw [List.mem_singleton.mp hm] at href
  rcases List.mem_append.mp href with href | href
  · exact List.mem_singleton.mp href ▸ hkey.lock
  · exact List.mem_singleton.mp href ▸ (inSnapshotDir_databaseTableKey _ _).ne_lock

theorem lookup_keyedWorld_table :
    (keyedWorld key).store.lookup (databaseTableKey (uuid 1) "notes") = some notesPayload := by
  have hdir := inSnapshotDir_databaseTableKey (uuid 1) "notes"
  have hkey := hdir.ne_snapshotManifestKey (databaseTableKey_ne_snapshotManifestKey _ _)
  exact (lookup_filed hkey).trans (Store.lookup_putBlob_self _ _ _)

theorem contents_keyedWorld (hkey : Keyed key) :
    Contents (keyedWorld key).store (uuid 1) (sealManifest (keyedSnapshot key)) [] [notes] [] where
  loads := loadManifestChain_fileChain _ (List.forall_mem_singleton.mpr hkey.fits) rfl rfl
  blobs := by
    rw [List.forall_mem_singleton]
    intro ref href
    rcases List.mem_append.mp href with href | href
    · rw [List.mem_singleton.mp href]
      refine ⟨[7], (lookup_filed hkey.manifest).trans ?_, rfl⟩
      rw [Store.lookup_putBlob_of_ne _ _ hkey.table]
      exact Store.lookup_putBlob_self _ _ _
    · rw [List.mem_singleton.mp href]
      exact ⟨notesPayload, lookup_keyedWorld_table, rfl⟩
  tables := loadTableExports_notes rfl rfl rfl rfl lookup_keyedWorld_table
  changes := .nil

theorem exists_returns_compactChain_keyedWorld (hkey : Keyed key) :
    ∃ result w', Returns (database [] []).Answers (keyedWorld key)
      (compactChainWithOptions (fun _ _ => []) (compactRequest (uuid 2) (uuid 1)) options).run
      (.ok result) w' := by
  have htable := (inSnapshotDir_databaseTableKey (uuid 1) "notes").ne_lock
  refine exists_returns_compactChain ?_ hkey.ne_lock (contents_keyedWorld hkey) ?_
  · apply (lookup_filed fun id => (inSnapshotDir_snapshotManifestKey id).ne_lock.symm).trans
    rw [Store.lookup_putBlob_of_ne _ _ htable.symm, Store.lookup_putBlob_of_ne _ _ hkey.lock.symm]
    rfl
  · obtain ⟨result, hret⟩ := returns_runDatabase hkey.writes
    exact ⟨result, _, hret⟩

end

theorem keyed_databaseTableKey : Keyed (databaseTableKey (uuid 2) "notes") := by
  have hdir := inSnapshotDir_databaseTableKey (uuid 2) "notes"
  constructor
  · unfold BackupSnapshotManifest.Representable
    decide +kernel
  · decide +kernel
  · exact hdir.ne_snapshotManifestKey (databaseTableKey_ne_snapshotManifestKey _ _)
  · exact hdir.ne_lock
  · decide +kernel

theorem tables_foldRows_notes : (foldRows [notes] []).tables = [notes] := rfl

theorem compactObjectEntries_keyedSnapshot {key : String} :
    compactObjectEntries [sealManifest (keyedSnapshot key)] = (keyedSnapshot key).objects := by
  simp [compactObjectEntries, tombstonedObjects, keyedSnapshot, sealManifest, manifest]

/-- The payload that the compaction has put in the place of the object. -/
theorem lookup_of_describes_notes {s : Store} {entries : List TableBackupEntry}
    (h : List.Forall₂ (fun (table : String × Std.TreeMap String BackupRow) entry =>
      Describes s (databaseTableKey (uuid 2) table.1) table.1 table.2.values entry)
      (foldRows [notes] []).toList entries) :
    s.lookup (databaseTableKey (uuid 2) "notes") = some notesPayload := by
  rcases List.map_eq_singleton_iff.mp tables_foldRows_notes with ⟨table, htables, hnotes⟩
  obtain ⟨hname, hvalues⟩ : table.1 = "notes" ∧ table.2.values = notes.rows := by
    rw [BackupTableExport.mk.injEq] at hnotes
    exact hnotes
  obtain ⟨entry, _, hdescribes⟩ := forall₂_mem_left h table (htables ▸ List.mem_singleton_self _)
  obtain ⟨bytes, hbytes, hlookup, _⟩ := hdescribes.stored
  rw [hvalues] at hbytes
  rw [hname] at hlookup
  rwa [← Except.ok.inj (hbytes.symm.trans serializeTableExport_notes)]

/-- The object of this source is stored where the compaction puts the table of
    its snapshot.  The compaction succeeds, and the snapshot that it has written
    cannot be restored. -/
theorem compaction_overwrites_object :
    ∃ result w', Contents (keyedWorld (databaseTableKey (uuid 2) "notes")).store (uuid 1)
        (sealManifest (keyedSnapshot (databaseTableKey (uuid 2) "notes"))) [] [notes] [] ∧
      Returns (database [] []).Answers (keyedWorld (databaseTableKey (uuid 2) "notes"))
        (compactChainWithOptions (fun _ _ => []) (compactRequest (uuid 2) (uuid 1)) options).run
        (.ok result) w' ∧
      ∀ (host : Host) order context result' w'', context.mode = .emptyDatabase →
        ¬ Returns host.Answers w' (restoreSnapshot order (uuid 2) context).run (.ok result') w'' := by
  have hkey := keyed_databaseTableKey
  have hcontents := contents_keyedWorld hkey
  obtain ⟨result, w', hret⟩ := exists_returns_compactChain_keyedWorld hkey
  refine ⟨result, w', hcontents, hret, fun host order context result' w'' hmode hrestore => ?_⟩
  obtain ⟨hwriting, w₁, hsame, hcompact⟩ := returns_compactChain False.elim (returns_mayFail hret)
  obtain ⟨root, rest, latest, tableRows, tableEntries, hload₁, _, hlast, hrows, hentries, hset⟩ :=
    hcompact.contents
  obtain ⟨rfl, rfl⟩ := List.cons.inj
    (Except.ok.inj (hcontents.loads.symm.trans (loadManifestChain_sameButLock hsame hload₁)))
  rcases setManifestChecksum_eq_ok.mp hset with ⟨checksum, _, hmanifest⟩
  have hloads : loadManifestChain w'.store (uuid 2) = .ok [result.manifest] :=
    (hwriting.replaces cratesReadBack.manifests hcompact.written).chain_root
      (by rw [hmanifest]; rfl) (by rw [hmanifest]; exact Or.inr rfl)
  obtain ⟨_, _, _, _, hrestored, _⟩ := hrestore.post (wpE_restoreSnapshot_answers order) hmode
  obtain ⟨rfl, rfl⟩ := List.cons.inj (Except.ok.inj (hloads.symm.trans hrestored.loads))
  have hlocked := hcontents.of_sameButLock hsame.symm hkey.ne_lock
  obtain rfl := Except.ok.inj (hlocked.compactRows.symm.trans hrows)
  have hlookup := lookup_of_describes_notes hentries
  have href : (databaseTableKey (uuid 2) "notes", sha256Hex [7]) ∈ result.manifest.references := by
    rw [hmanifest, BackupSnapshotManifest.references, syntheticManifest,
      compactObjectEntries_keyedSnapshot]
    exact List.mem_append_left _ (List.mem_singleton_self _)
  obtain ⟨body, hbody, hsha⟩ := hrestored.blobs _ List.mem_cons_self _ href
  obtain rfl := Option.some.inj (hlookup.symm.trans hbody)
  exact absurd hsha (by decide +kernel)

end Keyed

end GraphqlOrmBackup
