import GraphqlOrmBackup.Delivery
import GraphqlOrmBackup.Interaction.Simulation
import Mathlib.Data.Finite.Prod
import Mathlib.Data.Set.Card

/-!
# The calls of a restore

`restore_snapshot` reads the repository blob by blob, so that other clients can
write between any two of its reads.  Here it is given with one call for each
blob; `restoreSnapshot` reads each phase at once.  A phase that depends on the
blobs of an intact chain alone yields the same either way, whatever else changes
in the repository in the meantime.
-/

namespace GraphqlOrmBackup

open Interaction

instance : Finite Uuid := by
  refine Finite.of_injective (fun (id : Uuid) (i : Fin 16) => (id.bytes[i]).toFin) ?_
  rintro ⟨left⟩ ⟨right⟩ heq
  refine congrArg Uuid.mk (Vector.ext fun i hi => ?_)
  exact UInt8.toFin_inj.mp (congrFun heq ⟨i, hi⟩)

/-- The executor's decisions in the two batches of checks of a manifest. -/
structure CheckSchedule where
  objects : List Poll
  entries : List Poll

namespace CallByCall

section Codec

variable [Crates]

def loadManifest (snapshotId : Uuid) : BackupM BackupSnapshotManifest :=
  read fun s => GraphqlOrmBackup.loadManifest s snapshotId

/-- The loop ends because each round asks for an id that was not asked for
    before, and there are finitely many. -/
def loadManifestChainLoop (seen : List Uuid) (chain : List BackupSnapshotManifest)
    (currentSnapshotId : Uuid) : BackupM (List BackupSnapshotManifest) :=
  if _ : currentSnapshotId ∈ seen then
    Fallible.ofExcept (invalidChain ("duplicate snapshot id " ++ toString currentSnapshotId))
  else do
    let manifest ← loadManifest currentSnapshotId
    match manifest.parentSnapshotId with
    | none => pure (manifest :: chain)
    | some next => loadManifestChainLoop (currentSnapshotId :: seen) (manifest :: chain) next
termination_by Set.ncard {id : Uuid | id ∉ seen}
decreasing_by
  refine Set.ncard_lt_ncard ⟨fun id hid => ?_, fun hsub => ?_⟩ (Set.toFinite _)
  · exact fun hmem => hid (List.mem_cons_of_mem _ hmem)
  · exact hsub ‹currentSnapshotId ∉ seen› List.mem_cons_self

def loadManifestChain (snapshotId : Uuid) : BackupM (List BackupSnapshotManifest) := do
  let chain ← loadManifestChainLoop [] [] snapshotId
  Fallible.ofExcept (validateManifestChain chain)
  pure chain

def verifyBlobChecksum (contentKey expectedSha256Hex : String) : BackupM Unit :=
  read fun s => GraphqlOrmBackup.verifyBlobChecksum s contentKey expectedSha256Hex

/-- One `buffer_unordered` stream of checks. -/
def verifyChecks (blobConcurrency : Nat) (sched : List Poll) (checks : List (String × String)) :
    BackupM Unit := do
  let tasks := checks.map fun check => verifyBlobChecksum check.1 check.2
  let _ ← tryCollect (max blobConcurrency 1) sched (tasks.map (·.run))
  pure ()

def verifyObjectChecksums (blobConcurrency : Nat) (sched : CheckSchedule)
    (manifest : BackupSnapshotManifest) : BackupM Unit := do
  verifyChecks blobConcurrency sched.objects manifest.objectChecks
  verifyChecks blobConcurrency sched.entries manifest.entryChecks

def verifyManifestAndObjects (sched : CheckSchedule) (manifest : BackupSnapshotManifest) :
    BackupM Unit := do
  Fallible.ofExcept (verifyManifestChecksum manifest)
  verifyObjectChecksums DEFAULT_OBJECT_CONCURRENCY sched manifest

def loadJsonlEntries (T : Type) [DeserializeJson T] (manifest : BackupSnapshotManifest)
    (entry : TableBackupEntry) : BackupM (List T) :=
  read fun s => GraphqlOrmBackup.loadJsonlEntries s manifest entry

def loadTableExports (manifest : BackupSnapshotManifest) : BackupM (List BackupTableExport) :=
  manifest.database.tables.mapM' fun table => do
    let rows ← loadJsonlEntries BackupRow manifest table
    pure ⟨table.tableName, rows⟩

def loadChangeExports (manifest : BackupSnapshotManifest) : BackupM (List BackupChangeExport) := do
  let changes ← manifest.database.changes.mapM' fun table =>
    loadJsonlEntries BackupChangeExport manifest table
  pure changes.flatten

def restoreManifest (context : RestoreContext) (manifest : BackupSnapshotManifest) :
    BackupM Nat := do
  let changes ← loadChangeExports manifest
  applyRestore context (.restoreIncremental changes context)
  pure changes.length

def loadVerifiedChain (sched : BackupSnapshotManifest → CheckSchedule) (snapshotId : Uuid) :
    BackupM (List BackupSnapshotManifest) := do
  let chain ← loadManifestChain snapshotId
  forM chain fun manifest => verifyManifestAndObjects (sched manifest) manifest
  pure chain

def restoreSnapshot (sched : BackupSnapshotManifest → CheckSchedule) (snapshotId : Uuid)
    (context : RestoreContext) : BackupM RestoreResult := do
  let chain ← loadVerifiedChain sched snapshotId
  let fullManifest ← Fallible.ofExcept ((chain.head?).elim emptyChain pure)
  let backupSchema ← verifyRestoreSchema fullManifest
  let empty ← targetIsEmpty context
  Fallible.ofExcept (ensureEmptyRestoreTarget empty context)
  let fullExport ← loadTableExports fullManifest
  applyRestore context (.restoreFull backupSchema fullExport context)
  let changeCounts ← chain.tail.mapM' (restoreManifest context)
  pure {
    manifestChainLen := chain.length
    fullTableCount := fullExport.length
    fullRowCount := (fullExport.map (·.rows.length)).sum
    incrementalChangeCount := changeCounts.sum }

end Codec

end CallByCall

/-! ## What a reader sees -/

/-- A repository that satisfies `I`, unless the call fails with an error in `E`. -/
def Call.Sees (E : BackupError → Prop) (I : Store → Prop) : (c : Call) → c.Response → Prop
  | .view, r => (∃ s, I s ∧ r = .ok s) ∨ ∃ e, E e ∧ r = .error e
  | _, _ => True

def Call.Reads : Call → Prop
  | .view => True
  | _ => False

section Yields

variable {E : BackupError → Prop} {I : Store → Prop}

/-- The program reads `r`, in whatever states that satisfy `I` its calls are answered. -/
abbrev ReadsAs (E : BackupError → Prop) (I : Store → Prop) {α : Type} (x : BackupM α)
    (r : Except BackupError α) : Prop :=
  Yields (Call.Sees E I) Call.Reads E x r

theorem readsAs_read {α : Type} {f : Store → Except BackupError α} {r : Except BackupError α}
    (h : ∀ s, I s → f s = r) : ReadsAs E I (read f) r := by
  refine ⟨trivial, ?_⟩
  rintro _ (⟨s, hs, rfl⟩ | ⟨e, he, rfl⟩)
  · exact Or.inl (h s hs)
  · exact Or.inr ⟨e, he, rfl⟩

variable [Crates] {s₀ : Store} {id : Uuid} {chain : List BackupSnapshotManifest}

theorem readsAs_loadManifest {manifest : BackupSnapshotManifest}
    (h : ∀ s, I s → loadManifest s id = .ok manifest) :
    ReadsAs E I (CallByCall.loadManifest id) (.ok manifest) :=
  readsAs_read h

/-- The loop reads the lineage of the snapshot. -/
theorem readsAs_loadManifestChainLoop {path : List (Uuid × BackupSnapshotManifest)}
    (hpath : ManifestPath s₀ id path)
    (hstored : ∀ node ∈ path, ∀ s, I s → loadManifest s node.1 = .ok node.2) {seen : List Uuid}
    (hseen : ∀ node ∈ path, node.1 ∉ seen) (acc : List BackupSnapshotManifest) :
    ReadsAs E I (CallByCall.loadManifestChainLoop seen acc id)
      (.ok (path.map Prod.snd ++ acc)) := by
  induction hpath generalizing seen acc with
  | @root k n hk hn =>
    have hmem : (k, n) ∈ [(k, n)] := List.mem_singleton_self _
    rw [CallByCall.loadManifestChainLoop, dif_neg (hseen _ hmem)]
    refine (readsAs_loadManifest (hstored _ hmem)).bind_ok ?_
    rw [hn]
    exact yields_pure _
  | @child k p n path hk hn hpath ih =>
    have hmem : (k, n) ∈ path ++ [(k, n)] := List.mem_append_right _ (List.mem_singleton_self _)
    have hall : ManifestPath s₀ k (path ++ [(k, n)]) := .child hk hn hpath
    have hnodup := hall.nodup fun _ _ _ h h' => Except.ok.inj (h.symm.trans h')
    rw [List.map_append, List.nodup_append] at hnodup
    rw [CallByCall.loadManifestChainLoop, dif_neg (hseen _ hmem)]
    refine (readsAs_loadManifest (hstored _ hmem)).bind_ok ?_
    rw [hn, List.map_append, List.append_assoc]
    refine ih (fun node hnode => hstored node (List.mem_append_left _ hnode)) ?_ _
    intro node hnode
    rw [List.mem_cons, not_or]
    exact ⟨hnodup.2.2 _ (List.mem_map_of_mem hnode) _ (by simp),
      hseen node (List.mem_append_left _ hnode)⟩

theorem readsAs_verifyChecks {blobConcurrency : Nat} {sched : List Poll}
    {checks : List (String × String)}
    (h : ∀ check ∈ checks, ∀ s, I s → HoldsBlob s check.1 check.2) :
    ReadsAs E I (CallByCall.verifyChecks blobConcurrency sched checks) (.ok ()) := by
  refine yields_checks (List.forall_mem_map.mpr fun check hcheck => ?_)
  exact readsAs_read fun s hs => verifyBlobChecksum_eq_ok.mpr (h check hcheck s hs)

theorem readsAs_verifyManifestAndObjects {sched : CheckSchedule}
    {manifest : BackupSnapshotManifest} (hchecksum : verifyManifestChecksum manifest = .ok ())
    (h : ∀ s, I s → HoldsBlobs s manifest) :
    ReadsAs E I (CallByCall.verifyManifestAndObjects sched manifest) (.ok ()) := by
  have hofExcept : ReadsAs E I (Fallible.ofExcept (verifyManifestChecksum manifest)) (.ok ()) :=
    hchecksum ▸ yields_ofExcept _
  have hobjects : ReadsAs E I (CallByCall.verifyChecks DEFAULT_OBJECT_CONCURRENCY sched.objects
      manifest.objectChecks) (.ok ()) :=
    readsAs_verifyChecks fun check hcheck s hs => h s hs check (List.mem_append_left _ hcheck)
  have hentries : ReadsAs E I (CallByCall.verifyChecks DEFAULT_OBJECT_CONCURRENCY sched.entries
      manifest.entryChecks) (.ok ()) :=
    readsAs_verifyChecks fun check hcheck s hs => h s hs check (List.mem_append_right _ hcheck)
  exact hofExcept.bind_ok (hobjects.bind_ok hentries)

/-- The chain of an intact snapshot, in every store with the same blobs. -/
theorem readsAs_loadVerifiedChain (sched : BackupSnapshotManifest → CheckSchedule)
    (hintact : Intact s₀ id chain)
    (hids : ∀ id manifest, loadManifest s₀ id = .ok manifest → manifest.snapshotId = id) :
    ReadsAs E (AgreeOn (chainKeys chain) s₀) (CallByCall.loadVerifiedChain sched id)
      (.ok chain) := by
  rcases intact_iff.mp hintact with ⟨hload, hverify⟩
  rcases loadManifestChain_eq_ok.mp hload with ⟨path, hpath, rfl, hvalid⟩
  have hstored : ∀ node ∈ path, ∀ s, AgreeOn (chainKeys (path.map Prod.snd)) s₀ s →
      loadManifest s node.1 = .ok node.2 := by
    intro node hnode s hagree
    have hnodeStored := hpath.stored_of_mem node hnode
    rw [← hnodeStored]
    refine loadManifest_congr (hagree _ ⟨node.2, List.mem_map_of_mem hnode, Or.inl ?_⟩)
    rw [hids _ _ hnodeStored]
  have hloop := readsAs_loadManifestChainLoop (E := E) hpath hstored
    (fun _ _ => List.not_mem_nil) []
  rw [List.append_nil] at hloop
  have hvalidated : ReadsAs E (AgreeOn (chainKeys (path.map Prod.snd)) s₀)
      (Fallible.ofExcept (validateManifestChain (path.map Prod.snd))) (.ok ()) :=
    validateManifestChain_eq_ok.mpr hvalid ▸ yields_ofExcept _
  have hchain : ReadsAs E (AgreeOn (chainKeys (path.map Prod.snd)) s₀)
      (CallByCall.loadManifestChain id) (.ok (path.map Prod.snd)) :=
    hloop.bind_ok (hvalidated.bind_ok (yields_pure _))
  refine Yields.bind_ok hchain (Yields.bind_ok (Yields.forM _ fun manifest hmem => ?_)
    (yields_pure _))
  refine readsAs_verifyManifestAndObjects (hverify manifest hmem).1 fun s hagree => ?_
  exact (hverify manifest hmem).2.of_agree (hagree.mono fun key hkey => ⟨manifest, hmem, Or.inr hkey⟩)

theorem readsAs_loadTableExports {manifest : BackupSnapshotManifest}
    (h : ∀ s, I s → SameBlobs s₀ s manifest) :
    ReadsAs E I (CallByCall.loadTableExports manifest) (loadTableExports s₀ manifest) := by
  refine Yields.mapM' _ fun entry hentry => ?_
  refine Yields.bind (readsAs_read fun s hs => ?_) fun rows _ => yields_pure _
  exact loadJsonlEntries_congr manifest ((h s hs).lookup_entry (List.mem_append_left _ hentry))

theorem readsAs_loadChangeExports {manifest : BackupSnapshotManifest}
    (h : ∀ s, I s → SameBlobs s₀ s manifest) :
    ReadsAs E I (CallByCall.loadChangeExports manifest) (loadChangeExports s₀ manifest) := by
  refine Yields.bind (Yields.mapM' _ fun entry hentry => readsAs_read fun s hs => ?_)
    fun changes _ => yields_pure _
  exact loadJsonlEntries_congr manifest ((h s hs).lookup_entry (List.mem_append_right _ hentry))

end Yields

end GraphqlOrmBackup
