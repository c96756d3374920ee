import GraphqlOrmBackup.RestoreFailures

/-!
# What a restore leaves out

A restore reads table payloads from the root of a chain only, and change
payloads from the later manifests only.  `validate_manifest_chain` does not
look at payload entries, so a chain that has others is accepted, and what they
hold is left out.
-/

namespace GraphqlOrmBackup

open Interaction

/-- The rows of an export, each with the name of its table. -/
def rowsOf (tables : List BackupTableExport) : List (String × BackupRow) :=
  tables.flatMap fun table => table.rows.map fun row => (table.tableName, row)

/-- The rows that calls hand over. -/
def handedRows (calls : List RestoreCall) : List (String × BackupRow) :=
  calls.flatMap fun
    | .restoreFull _ tables _ => rowsOf tables
    | .restoreIncremental _ _ => []

/-- The changes that calls hand over. -/
def handedChanges (calls : List RestoreCall) : List BackupChangeExport :=
  calls.flatMap fun
    | .restoreFull _ _ _ => []
    | .restoreIncremental changes _ => changes

theorem handedRows_restoreCalls (context : RestoreContext) (root : BackupSnapshotManifest)
    (tables : List BackupTableExport) (changes : List (List BackupChangeExport)) :
    handedRows (restoreCalls context root tables changes) = rowsOf tables := by
  simp [handedRows, restoreCalls, List.flatMap_map]

theorem handedChanges_restoreCalls (context : RestoreContext) (root : BackupSnapshotManifest)
    (tables : List BackupTableExport) (changes : List (List BackupChangeExport)) :
    handedChanges (restoreCalls context root tables changes) = changes.flatten := by
  simp [handedChanges, restoreCalls, List.flatMap_map]

section Codec

variable [Crates]

/-- Every row and every change of every payload of the chain is handed over
    exactly once. -/
structure HandsOverAll (s : Store) (chain : List BackupSnapshotManifest)
    (calls : List RestoreCall) : Prop where
  rows : ∃ tables, List.Forall₂ (fun manifest tables => loadTableExports s manifest = .ok tables)
    chain tables ∧ (handedRows calls).Perm (tables.flatMap rowsOf)
  changes : ∃ changes, List.Forall₂ (fun manifest changes => loadChangeExports s manifest =
    .ok changes) chain changes ∧ (handedChanges calls).Perm changes.flatten

/-- The later manifests list no rows, and the root no changes. -/
structure NothingMisplaced (s : Store) (root : BackupSnapshotManifest)
    (rest : List BackupSnapshotManifest) : Prop where
  rows : ∀ manifest ∈ rest, ∃ tables, loadTableExports s manifest = .ok tables ∧ rowsOf tables = []
  changes : loadChangeExports s root = .ok []

omit [Crates] in
theorem perm_append_self_iff {α : Type} {l l' : List α} : l.Perm (l ++ l') ↔ l' = [] := by
  constructor
  · intro h
    have hlen := h.length_eq
    rw [List.length_append] at hlen
    exact List.eq_nil_of_length_eq_zero (by omega)
  · rintro rfl
    rw [List.append_nil]

omit [Crates] in
theorem perm_append_right_self_iff {α : Type} {l l' : List α} : l'.Perm (l ++ l') ↔ l = [] := by
  constructor
  · intro h
    have hlen := h.length_eq
    rw [List.length_append] at hlen
    exact List.eq_nil_of_length_eq_zero (by omega)
  · rintro rfl
    rfl

section

variable {host : Host} {w w' : World} {s : Store} {id : Uuid} {context : RestoreContext}
  {root : BackupSnapshotManifest} {rest : List BackupSnapshotManifest}
  {tables : List BackupTableExport} {changes : List (List BackupChangeExport)}

theorem Contents.handsOverAll_iff (h : Contents s id root rest tables changes) :
    HandsOverAll s (root :: rest) (restoreCalls context root tables changes) ↔
      NothingMisplaced s root rest := by
  constructor
  · intro h
    rcases h with ⟨⟨allTables, hall, hrows⟩, allChanges, hall', hchanges⟩
    cases hall with
    | @cons _ first _ later hfirst hlater =>
    cases hall' with
    | @cons _ first' _ later' hfirst' hlater' =>
    obtain rfl := Except.ok.inj (h.tables.symm.trans hfirst)
    obtain rfl : later' = changes := Except.ok.inj
      ((mapM'_eq_ok.mpr hlater').symm.trans (mapM'_eq_ok.mpr h.changes))
    rw [handedRows_restoreCalls, List.flatMap_cons, perm_append_self_iff] at hrows
    rw [handedChanges_restoreCalls, List.flatten_cons, perm_append_right_self_iff] at hchanges
    refine ⟨fun manifest hmem => ?_, hchanges ▸ hfirst'⟩
    obtain ⟨found, hfound, hload⟩ := forall₂_mem_left hlater manifest hmem
    exact ⟨found, hload, List.flatMap_eq_nil_iff.mp hrows found hfound⟩
  · intro h
    rcases h with ⟨hrows, hchanges⟩
    obtain ⟨later, hlater, hnil⟩ : ∃ later, List.Forall₂
        (fun manifest tables => loadTableExports s manifest = .ok tables) rest later ∧
        later.flatMap rowsOf = [] := by
      clear h
      induction rest with
      | nil => exact ⟨[], .nil, rfl⟩
      | cons manifest rest ih =>
        rw [List.forall_mem_cons] at hrows
        rcases hrows.1 with ⟨found, hload, hfound⟩
        obtain ⟨later, hlater, hnil⟩ := ih hrows.2
        exact ⟨found :: later, .cons hload hlater, by rw [List.flatMap_cons, hfound, hnil]; rfl⟩
    refine ⟨⟨tables :: later, .cons h.tables hlater, ?_⟩, [] :: changes, .cons hchanges h.changes, ?_⟩
    · rw [handedRows_restoreCalls, List.flatMap_cons, hnil, List.append_nil]
    · rw [handedChanges_restoreCalls, List.flatten_cons, List.nil_append]

/-- **What a restore hands over.**  A restore that succeeds has handed over the
    rows of the root's table payloads and the changes of the later manifests'
    change payloads, each exactly once and in order.  That is all that the
    chain lists exactly if no later manifest lists rows and the root lists no
    changes. -/
theorem restore_hands_over_root_tables_and_later_changes
    (order : BackupSnapshotManifest → CompletionOrder) {result : RestoreResult}
    (hmode : context.mode = .emptyDatabase)
    (hret : Returns host.Answers w (restoreSnapshot order id context).run (.ok result) w') :
    ∃ root rest calls tables changes, loadManifestChain w.store id = .ok (root :: rest) ∧
      w'.restored = w.restored ++ calls ∧
      loadTableExports w.store root = .ok tables ∧ handedRows calls = rowsOf tables ∧
      List.Forall₂ (fun manifest changes => loadChangeExports w.store manifest = .ok changes)
        rest changes ∧ handedChanges calls = changes.flatten ∧
      (HandsOverAll w.store (root :: rest) calls ↔ NothingMisplaced w.store root rest) := by
  obtain ⟨root, rest, tables, changes, hcontents, rfl⟩ :=
    hret.post (wpE_restoreSnapshot_answers order) hmode
  exact ⟨root, rest, _, tables, changes, hcontents.loads, rfl, hcontents.tables,
    handedRows_restoreCalls context root tables changes, hcontents.changes,
    handedChanges_restoreCalls context root tables changes, hcontents.handsOverAll_iff⟩

end

end Codec

section Stray

open Reference

def strayEntry : TableBackupEntry where
  tableName := "notes"
  rowCount := 1
  contentKey := databaseTableKey (uuid 2) "notes"
  sha256Hex := sha256Hex notesPayload

/-- An incremental snapshot with the rows of a table. -/
def straySnapshot : BackupSnapshotManifest :=
  { manifest (uuid 2) (some (uuid 1)) with database :=
    { (manifest (uuid 2) (some (uuid 1))).database with tables := [strayEntry] } }

def strayWorld : World := childWorld straySnapshot strayEntry.contentKey notesPayload

theorem contents_strayWorld : Contents strayWorld.store (uuid 2)
    (sealManifest (manifest (uuid 1) none)) [sealManifest straySnapshot] [] [[]] where
  loads := by
    apply loadManifestChain_childWorld
    · unfold BackupSnapshotManifest.Representable
      decide +kernel
    · rfl
  blobs := by
    have hdir := inSnapshotDir_databaseTableKey (uuid 2) "notes"
    apply holdsBlobs_childWorld rfl
    exact hdir.ne_snapshotManifestKey (databaseTableKey_ne_snapshotManifestKey _ _)
  tables := rfl
  changes := .cons rfl .nil

/-- The row is listed. -/
theorem loadTableExports_straySnapshot :
    loadTableExports strayWorld.store (sealManifest straySnapshot) = .ok [notes] := by
  have hdir := inSnapshotDir_databaseTableKey (uuid 2) "notes"
  have hkey := hdir.ne_snapshotManifestKey (databaseTableKey_ne_snapshotManifestKey _ _)
  have hblob : strayWorld.store.lookup strayEntry.contentKey = some notesPayload :=
    (lookup_filed hkey).trans (Store.lookup_putBlob_self _ _ _)
  exact loadTableExports_notes rfl rfl rfl rfl hblob

theorem returns_restoreSnapshot_strayWorld : ∃ result w',
    Returns (database [] []).Answers strayWorld
      (restoreSnapshot (fun _ _ => []) (uuid 2) .emptyDatabase).run (.ok result) w' ∧
    handedRows w'.restored = [] := by
  obtain ⟨⟨r, w', hret⟩, hall⟩ := Contents.restores (w := strayWorld) contents_strayWorld
    (database [] []) (fun _ _ => []) .emptyDatabase (accepts_application rfl rfl) rfl
  obtain ⟨⟨result, rfl⟩, hrestored⟩ := hall r w' hret
  refine ⟨result, w', hret, ?_⟩
  rw [hrestored]
  rfl

theorem restore_hands_over_root_tables_and_later_changes_stray :
    ∃ root rest calls, loadManifestChain strayWorld.store (uuid 2) = .ok (root :: rest) ∧
      (HandsOverAll strayWorld.store (root :: rest) calls ↔
        NothingMisplaced strayWorld.store root rest) := by
  rcases returns_restoreSnapshot_strayWorld with ⟨result, w', hret, -⟩
  obtain ⟨root, rest, calls, _, _, hload, _, _, _, _, _, hiff⟩ :=
    restore_hands_over_root_tables_and_later_changes (fun _ _ => []) rfl hret
  exact ⟨root, rest, calls, hload, hiff⟩

/-- The chain is accepted and its restore succeeds, but a row that it lists is
    not handed over. -/
theorem listed_row_is_left_out :
    loadManifestChain strayWorld.store (uuid 2) =
      .ok [sealManifest (manifest (uuid 1) none), sealManifest straySnapshot] ∧
    loadTableExports strayWorld.store (sealManifest straySnapshot) = .ok [notes] ∧
    ∃ result w', Returns (database [] []).Answers strayWorld
      (restoreSnapshot (fun _ _ => []) (uuid 2) .emptyDatabase).run (.ok result) w' ∧
      handedRows w'.restored = [] :=
  ⟨contents_strayWorld.loads, loadTableExports_straySnapshot, returns_restoreSnapshot_strayWorld⟩

end Stray

end GraphqlOrmBackup
