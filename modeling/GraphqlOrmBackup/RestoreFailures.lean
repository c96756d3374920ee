import GraphqlOrmBackup.RestoreSafety

/-!
# Where a restore fails

A restore that fails half-way fails in the adapter, or at the change payload
that is due next.
-/

namespace GraphqlOrmBackup

open Interaction

section Codec

variable [Crates]

variable {host : Host} {w : World} {id : Uuid} {context : RestoreContext}

/-- The ways in which a restore can end in an error, and where it stands then.
    Once a call has been made, the chain and all of its blobs have been verified. -/
inductive RestoreFailure (host : Host) (id : Uuid) (context : RestoreContext) (w : World) :
    BackupError → World → Prop where
  | beforeAnyCall (e : BackupError) : RestoreFailure host id context w e w
  | adapter (e : BackupError) {chain : List BackupSnapshotManifest} {calls : List RestoreCall}
      {request : RestoreCall} (hgate : RestoreGate host w.store id context chain)
      (hdelivers : Delivers w.store context chain (calls ++ [request]))
      (hanswer : host.database.restore (w.restored ++ (calls ++ [request])) = .error e) :
      RestoreFailure host id context w e
        { w with restored := w.restored ++ (calls ++ [request]) }
  | payload (e : BackupError) {root manifest : BackupSnapshotManifest}
      {delivered remaining : List BackupSnapshotManifest} {tables : List BackupTableExport}
      {changes : List (List BackupChangeExport)}
      (hgate : RestoreGate host w.store id context (root :: (delivered ++ manifest :: remaining)))
      (htables : loadTableExports w.store root = .ok tables)
      (hchanges : List.Forall₂ (fun manifest changes => loadChangeExports w.store manifest =
        .ok changes) delivered changes)
      (hpayload : loadChangeExports w.store manifest = .error e) :
      RestoreFailure host id context w e (w.after context root tables changes)

theorem wpE_restoreManifests_answers {root : BackupSnapshotManifest}
    {rest : List BackupSnapshotManifest} {tables : List BackupTableExport}
    (hgate : RestoreGate host w.store id context (root :: rest))
    (htables : loadTableExports w.store root = .ok tables) :
    wpE host.Answers (fun _ => True) (rest.mapM' (restoreManifest context))
      (fun _ w' => ∃ changes, List.Forall₂ (fun manifest changes =>
        loadChangeExports w.store manifest = .ok changes) rest changes ∧
        w' = w.after context root tables changes)
      (RestoreFailure host id context w) (w.after context root tables []) := by
  have hloop := wpE_mapM' (H := host.Answers) (I := fun _ => True)
    (E := RestoreFailure host id context w) (f := restoreManifest context)
    (P := fun _ remaining w' => ∃ delivered changes, rest = delivered ++ remaining ∧
      List.Forall₂ (fun manifest changes => loadChangeExports w.store manifest = .ok changes)
        delivered changes ∧ w' = w.after context root tables changes)
    rest [] ⟨[], [], rfl, List.Forall₂.nil, rfl⟩ trivial ?_
  · refine hloop.mono ?_ fun _ _ _ h => h
    rintro counts w' - ⟨delivered, changes, hrest, hchanges, rfl⟩
    rw [List.append_nil] at hrest
    exact ⟨changes, hrest ▸ hchanges, rfl⟩
  · rintro manifest counts remaining w' - - ⟨delivered, changes, rfl, hchanges, rfl⟩
    refine wpE.seq (P := fun next w' => loadChangeExports w.store manifest = .ok next ∧
      w' = w.after context root tables changes) (wpE_read_answers trivial ?_) ?_
    · change outcome _ _ (loadChangeExports w.store manifest) _
      cases hnext : loadChangeExports w.store manifest with
      | ok next => exact ⟨rfl, rfl⟩
      | error e => exact RestoreFailure.payload e hgate htables hchanges hnext
    rintro next _ - ⟨hnext, rfl⟩
    have hsnoc := List.rel_append hchanges (List.Forall₂.cons hnext .nil)
    have hdelivers : Delivers w.store context (root :: (delivered ++ manifest :: remaining))
        (restoreCalls context root tables changes ++ [.restoreIncremental next context]) := by
      refine ⟨root, delivered ++ [manifest], remaining, tables, changes ++ [next], ?_, htables,
        hsnoc, ?_⟩
      · rw [List.append_assoc, List.singleton_append]
      · rw [restoreCalls, restoreCalls, List.map_append, List.cons_append]
        rfl
    refine wpE.seq (wpE_applyRestore_answers hgate.mode (fun _ => trivial) fun e he => ?_) ?_
    · rw [World.after, List.append_assoc] at he
      have hfails := RestoreFailure.adapter e hgate hdelivers he
      rwa [← List.append_assoc] at hfails
    rintro _ _ - rfl
    exact ⟨trivial, delivered ++ [manifest], changes ++ [next], by simp, hsnoc,
      (World.after_append w context root tables changes next).symm⟩

theorem wpE_restoreSnapshot_answers (order : BackupSnapshotManifest → CompletionOrder) :
    wpE host.Answers (fun _ => True) (restoreSnapshot order id context)
      (fun _ w' => context.mode = .emptyDatabase → ∃ root rest tables changes,
        Contents w.store id root rest tables changes ∧ w' = w.after context root tables changes)
      (RestoreFailure host id context w) w := by
  apply wpE_restoreSnapshot_checked order (fun _ _ _ _ h => h.mayFail) trivial
    RestoreFailure.beforeAnyCall
  intro root rest tables hchecked
  cases hmode : context.mode with
  | dryRun =>
    have hbefore : ∀ (e : BackupError) w', w' = w → True →
        RestoreFailure host id context w e w' := by
      rintro e w' rfl -
      exact RestoreFailure.beforeAnyCall e
    apply ((wpE_answers (wpE_applyChain_dryRun hmode)).relax (fun _ _ => trivial) hbefore).mono
    · exact fun _ _ _ _ h => absurd h (by simp)
    · exact fun _ _ _ h => h
  | emptyDatabase =>
    unfold applyChain
    have hgate := hchecked.gate hmode
    refine wpE.seq (wpE_applyRestore_answers hmode (fun _ => trivial) fun e he => ?_) ?_
    · have hdelivers : Delivers w.store context (root :: rest)
          ([] ++ [.restoreFull (manifestSchema root) tables context]) :=
        ⟨root, [], rest, tables, [], rfl, hchecked.tables, .nil, rfl⟩
      exact RestoreFailure.adapter e hgate hdelivers he
    rintro _ _ - rfl
    apply wpE.seq (wpE_restoreManifests_answers hgate hchecked.tables)
    rintro counts _ - ⟨changes, hchanges, rfl⟩
    have hblobs : ∀ manifest ∈ root :: rest, HoldsBlobs w.store manifest := fun manifest hmem =>
      (hchecked.verified manifest hmem).2
    exact ⟨trivial, fun _ => ⟨root, rest, tables, changes,
      ⟨hchecked.loads, hblobs, hchecked.tables, hchanges⟩, rfl⟩⟩

end Codec

section HalfWay

open Reference

def csvEntry : TableBackupEntry where
  tableName := "notes"
  rowCount := 1
  contentKey := databaseChangesKey (uuid 2) "notes"
  sha256Hex := sha256Hex []

/-- An incremental snapshot whose changes are in a format that is not read. -/
def csvSnapshot : BackupSnapshotManifest :=
  { manifest (uuid 2) (some (uuid 1)) with database :=
    { (manifest (uuid 2) (some (uuid 1))).database with
      exportFormat := "csv", changes := [csvEntry] } }

def csvWorld : World := childWorld csvSnapshot csvEntry.contentKey []

theorem loadManifestChain_csvWorld : loadManifestChain csvWorld.store (uuid 2) =
    .ok [sealManifest (manifest (uuid 1) none), sealManifest csvSnapshot] := by
  apply loadManifestChain_childWorld
  · unfold BackupSnapshotManifest.Representable
    decide +kernel
  · rfl

theorem holdsBlobs_csvWorld :
    ∀ m ∈ [sealManifest (manifest (uuid 1) none), sealManifest csvSnapshot],
      HoldsBlobs csvWorld.store m := by
  have hdir := inSnapshotDir_databaseChangesKey (uuid 2) "notes"
  apply holdsBlobs_childWorld rfl
  exact hdir.ne_snapshotManifestKey (databaseChangesKey_ne_snapshotManifestKey _ _)

theorem wpE_restoreSnapshot_csvWorld (order : BackupSnapshotManifest → CompletionOrder) :
    wpE (database [] []).Answers (fun _ => True)
      (restoreSnapshot order (uuid 2) .emptyDatabase) (fun _ _ => False)
      (fun _ w' => w'.restored = [.restoreFull schema [] .emptyDatabase]) csvWorld := by
  have hpayload : ∃ e, loadChangeExports csvWorld.store (sealManifest csvSnapshot) = .error e :=
    ⟨_, rfl⟩
  apply wpE_restoreSnapshot_root (P := fun _ => False) order (accepts_application rfl rfl) rfl
    loadManifestChain_csvWorld holdsBlobs_csvWorld rfl
  rw [List.mapM'_cons]
  apply wpE.seq (P := fun _ _ => False) _ fun _ _ _ h => h.elim
  apply wpE.seq (P := fun _ _ => False) _ fun _ _ _ h => h.elim
  apply wpE_read_answers trivial
  rcases hpayload with ⟨e, he⟩
  change outcome _ _ (loadChangeExports csvWorld.store (sealManifest csvSnapshot)) _
  rw [he]
  rfl

theorem returns_restoreSnapshot_csvWorld :
    ∃ e w', Returns (database [] []).Answers csvWorld
        (restoreSnapshot (fun _ _ => []) (uuid 2) .emptyDatabase).run (.error e) w' ∧
      w'.restored = [.restoreFull schema [] .emptyDatabase] := by
  obtain ⟨r, w', hret⟩ := exists_returns_restoreSnapshot (database [] []) csvWorld (fun _ _ => [])
    (uuid 2) .emptyDatabase
  have hpost := hret.post (wpE_restoreSnapshot_csvWorld _)
  cases r with
  | ok result => exact hpost.elim
  | error e => exact ⟨e, w', hret, hpost⟩

end HalfWay

end GraphqlOrmBackup
