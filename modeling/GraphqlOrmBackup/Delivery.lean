import GraphqlOrmBackup.Intact
import GraphqlOrmBackup.Restore
import GraphqlOrmBackup.SealedManifests

/-!
# What a restore delivers

A restore into an accepting target succeeds if the snapshot has contents, and
delivers exactly these: one full call for the root, and one incremental call
for each later manifest.
-/

namespace GraphqlOrmBackup

open Interaction

section Codec

variable [Crates]

/-- The calls that restore a root and then the changes of some of its
    successors. -/
def restoreCalls (context : RestoreContext) (root : BackupSnapshotManifest)
    (tables : List BackupTableExport) (changes : List (List BackupChangeExport)) :
    List RestoreCall :=
  .restoreFull (manifestSchema root) tables context ::
    changes.map fun changes => .restoreIncremental changes context

/-- The world after the root and the given changes. -/
def World.after (w : World) (context : RestoreContext) (root : BackupSnapshotManifest)
    (tables : List BackupTableExport) (changes : List (List BackupChangeExport)) : World :=
  { w with restored := w.restored ++ restoreCalls context root tables changes }

omit [Crates] in
theorem World.after_append (w : World) (context : RestoreContext) (root : BackupSnapshotManifest)
    (tables : List BackupTableExport) (changes : List (List BackupChangeExport))
    (next : List BackupChangeExport) :
    w.after context root tables (changes ++ [next]) =
      { w.after context root tables changes with
        restored := (w.after context root tables changes).restored ++
          [.restoreIncremental next context] } := by
  simp [World.after, restoreCalls]

/-- The contents of a snapshot: the chain loads, its blobs are in place, and its
    payloads are these tables and these changes. -/
structure Contents (s : Store) (id : Uuid) (root : BackupSnapshotManifest)
    (rest : List BackupSnapshotManifest) (tables : List BackupTableExport)
    (changes : List (List BackupChangeExport)) : Prop where
  loads : loadManifestChain s id = .ok (root :: rest)
  blobs : ∀ manifest ∈ root :: rest, HoldsBlobs s manifest
  tables : loadTableExports s root = .ok tables
  changes : List.Forall₂ (fun manifest changes => loadChangeExports s manifest = .ok changes)
    rest changes

/-- The target is empty, has the schema of the root, and takes every call. -/
structure Accepts (host : Host) (root : BackupSnapshotManifest) : Prop where
  schema : ∃ target, host.database.schemaSnapshot = .ok target ∧
    root.databaseBackend = target.backend ∧ root.graphqlOrmSchemaHash = target.schemaHash
  empty : host.database.restoreTargetIsEmpty = .ok true
  restore : ∀ calls, host.database.restore calls = .ok ()

section

variable {host : Host} {w : World} {s : Store} {id : Uuid} {context : RestoreContext}
  {root root' : BackupSnapshotManifest} {rest rest' : List BackupSnapshotManifest}
  {tables tables' : List BackupTableExport} {changes changes' : List (List BackupChangeExport)}

theorem verifyManifestChecksum_of_loads {chain : List BackupSnapshotManifest}
    (h : loadManifestChain s id = .ok chain) :
    ∀ manifest ∈ chain, verifyManifestChecksum manifest = .ok () := by
  rcases loadManifestChain_eq_ok.mp h with ⟨path, hpath, rfl, _⟩
  intro manifest hmem
  rcases List.mem_map.mp hmem with ⟨node, hnode, rfl⟩
  have hload := hpath.stored_of_mem node hnode
  simp only [loadManifest, bind_eq_ok, pure_eq_ok] at hload
  rcases hload with ⟨_, _, _, _, ⟨⟩, hverify, rfl⟩
  exact hverify

/-- A snapshot has at most one contents. -/
theorem Contents.unique (h : Contents s id root rest tables changes)
    (h' : Contents s id root' rest' tables' changes') :
    root = root' ∧ rest = rest' ∧ tables = tables' ∧ changes = changes' := by
  obtain ⟨rfl, rfl⟩ := List.cons.inj (Except.ok.inj (h.loads.symm.trans h'.loads))
  refine ⟨rfl, rfl, Except.ok.inj (h.tables.symm.trans h'.tables), ?_⟩
  exact Except.ok.inj ((mapM'_eq_ok.mpr h.changes).symm.trans (mapM'_eq_ok.mpr h'.changes))

omit [Crates] in
theorem ensureEmptyRestoreTarget_eq_ok {empty : Bool} :
    ensureEmptyRestoreTarget empty context = .ok () ↔
      (context.mode = .emptyDatabase → empty = true) := by
  rw [ensureEmptyRestoreTarget]
  cases context.mode <;> cases empty <;> simp [pure_eq_ok, throw_ne_ok]

omit [Crates] in
theorem wpE_applyRestore_answers {I : World → Prop} {E : BackupError → World → Prop}
    {request : RestoreCall} (hmode : context.mode = .emptyDatabase) (hI : ∀ w, I w)
    (hE : ∀ e, host.database.restore (w.restored ++ [request]) = .error e →
      E e { w with restored := w.restored ++ [request] }) :
    wpE host.Answers I (applyRestore context request)
      (fun _ w' => w' = { w with restored := w.restored ++ [request] }) E w := by
  rw [applyRestore, hmode]
  apply wpE_call (hI w)
  rintro r w' ⟨hr, rfl⟩
  refine ⟨hI _, ?_⟩
  cases r with
  | ok a => exact rfl
  | error e => exact hE e hr.symm

omit [Crates] in
theorem wpE_applyRestore_accepted {request : RestoreCall} (haccepts : Accepts host root)
    (hmode : context.mode = .emptyDatabase) :
    wpE host.Answers (fun _ => True) (applyRestore context request)
      (fun _ w' => w' = { w with restored := w.restored ++ [request] }) (fun _ _ => False) w := by
  refine wpE_applyRestore_answers hmode (fun _ => trivial) fun e he => ?_
  rw [haccepts.restore] at he
  cases he

theorem wpE_restoreManifests_accepted (haccepts : Accepts host root)
    (hmode : context.mode = .emptyDatabase) (delivered : List (List BackupChangeExport))
    (hchanges : List.Forall₂ (fun manifest changes => loadChangeExports w.store manifest =
      .ok changes) rest changes) :
    wpE host.Answers (fun _ => True) (rest.mapM' (restoreManifest context))
      (fun _ w' => w' = w.after context root tables (delivered ++ changes)) (fun _ _ => False)
      (w.after context root tables delivered) := by
  induction hchanges generalizing delivered with
  | nil => exact ⟨trivial, congrArg (w.after context root tables) (List.append_nil _).symm⟩
  | @cons manifest next rest changes hnext _ ih =>
    rw [List.mapM'_cons]
    have hone : wpE host.Answers (fun _ => True) (restoreManifest context manifest)
        (fun _ w' => w' = w.after context root tables (delivered ++ [next]))
        (fun _ _ => False) (w.after context root tables delivered) := by
      refine wpE.seq (P := fun found w' => next = found ∧
        w' = w.after context root tables delivered) (wpE_read_answers trivial ?_) ?_
      · change outcome _ _ (loadChangeExports w.store manifest) _
        rw [hnext]
        exact ⟨rfl, rfl⟩
      rintro _ _ - ⟨rfl, rfl⟩
      apply wpE.seq (wpE_applyRestore_accepted haccepts hmode)
      rintro _ _ - rfl
      exact ⟨trivial, (World.after_append w context root tables delivered _).symm⟩
    apply wpE.seq hone
    rintro count _ - rfl
    apply wpE.seq (ih (delivered ++ [next]))
    rintro counts _ - rfl
    exact ⟨trivial,
      congrArg (w.after context root tables) (List.append_assoc delivered [next] changes)⟩

/-- A restore into an empty target of the schema comes to the call for the root,
    and goes on with the later manifests. -/
theorem wpE_restoreSnapshot_admitted {P : World → Prop} {E : BackupError → World → Prop}
    (order : BackupSnapshotManifest → CompletionOrder)
    (hschema : ∃ target, host.database.schemaSnapshot = .ok target ∧
      root.databaseBackend = target.backend ∧ root.graphqlOrmSchemaHash = target.schemaHash)
    (hempty : host.database.restoreTargetIsEmpty = .ok true)
    (hmode : context.mode = .emptyDatabase)
    (hloads : loadManifestChain w.store id = .ok (root :: rest))
    (hblobs : ∀ manifest ∈ root :: rest, HoldsBlobs w.store manifest)
    (htables : loadTableExports w.store root = .ok tables)
    (happly : wpE host.Answers (fun _ => True)
      (applyRestore context (.restoreFull (manifestSchema root) tables context))
      (fun _ w' => wpE host.Answers (fun _ => True) (rest.mapM' (restoreManifest context))
        (fun _ w'' => P w'') E w') E w) :
    wpE host.Answers (fun _ => True) (restoreSnapshot order id context) (fun _ w' => P w') E w := by
  obtain ⟨target, htarget, hbackend, hhash⟩ := hschema
  have hverified : loadVerifiedChain order w.store id = .ok (root :: rest) :=
    loadVerifiedChain_eq_ok.mpr ⟨hloads, fun manifest hmem =>
      ⟨verifyManifestChecksum_of_loads hloads manifest hmem, hblobs manifest hmem⟩⟩
  refine wpE.seq (P := fun chain w' => root :: rest = chain ∧ w' = w)
    (wpE_read_answers trivial ?_) ?_
  · rw [hverified]
    exact ⟨rfl, rfl⟩
  rintro _ w - ⟨rfl, rfl⟩
  refine wpE.seq (P := fun first w' => root = first ∧ w' = w) ⟨trivial, rfl, rfl⟩ ?_
  rintro _ w - ⟨rfl, rfl⟩
  refine wpE.seq (P := fun schema w' => manifestSchema root = schema ∧ w' = w) ?_ ?_
  · refine wpE.seq (P := fun found w' => target = found ∧ w' = w) (wpE_call trivial ?_) ?_
    · rintro r w' ⟨rfl, rfl⟩
      rw [htarget]
      exact ⟨trivial, rfl, rfl⟩
    rintro _ w - ⟨rfl, rfl⟩
    rw [if_neg (by simp [manifestSchema, hbackend, hhash])]
    exact ⟨trivial, rfl, rfl⟩
  rintro _ w - ⟨rfl, rfl⟩
  refine wpE.seq (P := fun empty w' => true = empty ∧ w' = w) ?_ ?_
  · rw [targetIsEmpty, hmode]
    apply wpE_call trivial
    rintro r w' ⟨rfl, rfl⟩
    rw [hempty]
    exact ⟨trivial, rfl, rfl⟩
  rintro _ w - ⟨rfl, rfl⟩
  refine wpE.seq (P := fun _ w' => w' = w) ?_ ?_
  · rw [ensureEmptyRestoreTarget_eq_ok.mpr fun _ => rfl]
    exact ⟨trivial, rfl⟩
  rintro _ w - rfl
  refine wpE.seq (P := fun found w' => tables = found ∧ w' = w) (wpE_read_answers trivial ?_) ?_
  · rw [htables]
    exact ⟨rfl, rfl⟩
  rintro _ w - ⟨rfl, rfl⟩
  refine wpE.seq happly fun _ w' _ hrest => ?_
  refine wpE.seq hrest fun counts w'' _ h => ?_
  exact ⟨trivial, h⟩

/-- A restore into an accepting target delivers the root and goes on with the
    later manifests. -/
theorem wpE_restoreSnapshot_root {P : World → Prop} {E : BackupError → World → Prop}
    (order : BackupSnapshotManifest → CompletionOrder) (haccepts : Accepts host root)
    (hmode : context.mode = .emptyDatabase)
    (hloads : loadManifestChain w.store id = .ok (root :: rest))
    (hblobs : ∀ manifest ∈ root :: rest, HoldsBlobs w.store manifest)
    (htables : loadTableExports w.store root = .ok tables)
    (hrest : wpE host.Answers (fun _ => True) (rest.mapM' (restoreManifest context))
      (fun _ w' => P w') E (w.after context root tables [])) :
    wpE host.Answers (fun _ => True) (restoreSnapshot order id context) (fun _ w' => P w') E w := by
  refine wpE_restoreSnapshot_admitted order haccepts.schema haccepts.empty hmode hloads hblobs
    htables ?_
  refine (wpE_applyRestore_accepted haccepts hmode).mono ?_ fun _ _ _ h => h.elim
  rintro _ _ - rfl
  exact hrest

/-- **A restore of a snapshot with contents succeeds.** -/
theorem wpE_restoreSnapshot_accepted (order : BackupSnapshotManifest → CompletionOrder)
    (haccepts : Accepts host root) (hmode : context.mode = .emptyDatabase)
    (h : Contents w.store id root rest tables changes) :
    wpE host.Answers (fun _ => True) (restoreSnapshot order id context)
      (fun _ w' => w' = w.after context root tables changes) (fun _ _ => False) w :=
  wpE_restoreSnapshot_root (P := fun w' => w' = w.after context root tables changes) order haccepts
    hmode h.loads h.blobs h.tables (wpE_restoreManifests_accepted haccepts hmode [] h.changes)

/-! ## Runs -/

/-- The calls that a restore makes. -/
def Call.OfRestore : Call → Prop
  | .view | .schemaSnapshot | .restoreTargetIsEmpty | .restore _ => True
  | _ => False

omit [Crates] in
theorem Call.OfRestore.answered (host : Host) (c : Call) (w : World) (h : c.OfRestore) :
    ∃ r w', host.Answers c w r w' := by
  cases c with
  | view => exact ⟨_, _, rfl, rfl⟩
  | schemaSnapshot => exact ⟨_, _, rfl, rfl⟩
  | restoreTargetIsEmpty => exact ⟨_, _, rfl, rfl⟩
  | restore request => exact ⟨_, _, rfl, rfl⟩
  | _ => exact h.elim

section Uses

variable {K : Call → Prop} (hview : K .view)
include hview

omit [Crates] in
theorem uses_read {α : Type} (f : Store → Except BackupError α) : (read f).run.Uses K :=
  Fallible.uses_bind ⟨hview, fun _ => trivial⟩ fun _ => trivial

/-- A restore looks at the repository and asks for the schema; the other calls
    it makes only if it is to apply something. -/
theorem uses_restoreSnapshot (hschema : K .schemaSnapshot)
    (hempty : context.mode = .emptyDatabase → K .restoreTargetIsEmpty)
    (hrestore : context.mode = .emptyDatabase → ∀ request, K (.restore request))
    (order : BackupSnapshotManifest → CompletionOrder) (id : Uuid) :
    (restoreSnapshot order id context).run.Uses K := by
  have hasks : (targetIsEmpty context).run.Uses K := by
    unfold targetIsEmpty
    cases hmode : context.mode with
    | emptyDatabase => exact ⟨hempty hmode, fun _ => trivial⟩
    | dryRun => trivial
  have happly : ∀ request, (applyRestore context request).run.Uses K := by
    intro request
    unfold applyRestore
    cases hmode : context.mode with
    | emptyDatabase => exact ⟨hrestore hmode request, fun _ => trivial⟩
    | dryRun => trivial
  apply Fallible.uses_bind (uses_read hview _)
  intro chain
  refine Fallible.uses_bind trivial fun root => ?_
  refine Fallible.uses_bind (Fallible.uses_bind ⟨hschema, fun _ => trivial⟩ fun target => ?_)
    fun schema => ?_
  · split
    · trivial
    · trivial
  apply Fallible.uses_bind hasks
  intro empty
  refine Fallible.uses_bind trivial fun _ => ?_
  apply Fallible.uses_bind (uses_read hview _)
  intro tables
  apply Fallible.uses_bind (happly _)
  intro applied
  refine Fallible.uses_bind (Fallible.uses_mapM' (fun manifest => ?_) _) fun counts => trivial
  refine Fallible.uses_bind (uses_read hview _) fun changes => ?_
  exact Fallible.uses_bind (happly _) fun _ => trivial

end Uses

/-- A restore comes to its end. -/
theorem exists_returns_restoreSnapshot (host : Host) (w : World)
    (order : BackupSnapshotManifest → CompletionOrder) (id : Uuid) (context : RestoreContext) :
    ∃ r w', Returns host.Answers w (restoreSnapshot order id context).run r w' := by
  have huses : (restoreSnapshot order id context).run.Uses Call.OfRestore :=
    uses_restoreSnapshot trivial trivial (fun _ => trivial) (fun _ _ => trivial) order id
  exact huses.exists_returns (Call.OfRestore.answered host) w

/-- Every restore of the snapshot into an accepting target comes to its end,
    succeeds, and makes exactly the calls. -/
def Restores (w : World) (id : Uuid) (root : BackupSnapshotManifest)
    (calls : RestoreContext → List RestoreCall) : Prop :=
  ∀ (host : Host) order context, Accepts host root → context.mode = .emptyDatabase →
    (∃ r w', Returns host.Answers w (restoreSnapshot order id context).run r w') ∧
    ∀ r w', Returns host.Answers w (restoreSnapshot order id context).run r w' →
      (∃ result, r = .ok result) ∧ w'.restored = w.restored ++ calls context

theorem Contents.restores (h : Contents w.store id root rest tables changes) :
    Restores w id root fun context => restoreCalls context root tables changes := by
  intro host order context haccepts hmode
  refine ⟨exists_returns_restoreSnapshot host w order id context, fun r w' hret => ?_⟩
  have hpost := hret.post (wpE_restoreSnapshot_accepted order haccepts hmode h)
  cases r with
  | ok result =>
    obtain rfl : w' = _ := hpost
    exact ⟨⟨result, rfl⟩, rfl⟩
  | error e => exact hpost.elim

/-! ## The payloads of a chain in another store -/

variable {s' : Store}

theorem loadJsonlEntries_congr {T : Type} [DeserializeJson T] (manifest : BackupSnapshotManifest)
    {entry : TableBackupEntry} (h : s'.lookup entry.contentKey = s.lookup entry.contentKey) :
    loadJsonlEntries (T := T) s' manifest entry = loadJsonlEntries s manifest entry := by
  rw [loadJsonlEntries, loadJsonlEntries, Store.getBlob, Store.getBlob, h]

/-- The stores agree on the blobs of the manifest. -/
def SameBlobs (s s' : Store) (manifest : BackupSnapshotManifest) : Prop :=
  AgreeOn {key | key ∈ manifest.references.map Prod.fst} s s'

omit [Crates] in
theorem SameBlobs.lookup_entry {manifest : BackupSnapshotManifest} (h : SameBlobs s s' manifest)
    {entry : TableBackupEntry}
    (hentry : entry ∈ manifest.database.tables ++ manifest.database.changes) :
    s'.lookup entry.contentKey = s.lookup entry.contentKey :=
  h _ (List.mem_map.mpr ⟨(entry.contentKey, entry.sha256Hex),
    List.mem_append_right _ (List.mem_map.mpr ⟨entry, hentry, rfl⟩), rfl⟩)

theorem SameBlobs.loadTableExports {manifest : BackupSnapshotManifest}
    (h : SameBlobs s s' manifest) : loadTableExports s' manifest = loadTableExports s manifest :=
  mapM'_congr fun _ hentry => by
    rw [loadJsonlEntries_congr manifest (h.lookup_entry (List.mem_append_left _ hentry))]

theorem SameBlobs.loadChangeExports {manifest : BackupSnapshotManifest}
    (h : SameBlobs s s' manifest) :
    loadChangeExports s' manifest = loadChangeExports s manifest := by
  rw [GraphqlOrmBackup.loadChangeExports, GraphqlOrmBackup.loadChangeExports,
    mapM'_congr fun entry hentry => loadJsonlEntries_congr manifest
      (h.lookup_entry (List.mem_append_right _ hentry))]

/-- Changes are loaded from a store with the same blobs. -/
theorem forall₂_loadChangeExports (hsame : ∀ manifest ∈ rest, SameBlobs s s' manifest)
    (h : List.Forall₂ (fun manifest changes => loadChangeExports s manifest = .ok changes) rest
      changes) :
    List.Forall₂ (fun manifest changes => loadChangeExports s' manifest = .ok changes) rest
      changes :=
  ((List.forall₂_and_left _ _).mpr ⟨hsame, h⟩).imp fun _ _ h => h.1.loadChangeExports.trans h.2

theorem Contents.of_sameBlobs (h : Contents s id root rest tables changes)
    (hloads : loadManifestChain s' id = .ok (root :: rest))
    (hsame : ∀ manifest ∈ root :: rest, SameBlobs s s' manifest) :
    Contents s' id root rest tables changes := by
  refine ⟨hloads, fun manifest hmem => (h.blobs manifest hmem).of_agree (hsame manifest hmem),
    (hsame root List.mem_cons_self).loadTableExports.trans h.tables, ?_⟩
  exact forall₂_loadChangeExports
    (fun manifest hmem => hsame manifest (List.mem_cons_of_mem _ hmem)) h.changes

end

end Codec

/-! ## A small repository -/

namespace Reference

/-- The small application accepts its own snapshots. -/
theorem accepts_application {tables : List BackupTableExport} {changes : List BackupChangeExport}
    {objects : List BackupObjectRef}
    {load : BackupObjectRef → Except BackupError StorageByteStream} {root : BackupSnapshotManifest}
    (hbackend : root.databaseBackend = schema.backend)
    (hhash : root.graphqlOrmSchemaHash = schema.schemaHash) :
    Accepts (application tables changes objects load) root where
  schema := ⟨schema, rfl, hbackend, hhash⟩
  empty := rfl
  restore _ := rfl

/-- The notes as the only table of a manifest. -/
theorem loadTableExports_notes {s : Store} {manifest : BackupSnapshotManifest}
    {entry : TableBackupEntry} (htables : manifest.database.tables = [entry])
    (hname : entry.tableName = "notes")
    (hformat : manifest.database.exportFormat = DATABASE_EXPORT_FORMAT)
    (hcompression : manifest.database.compression = .zstd)
    (hblob : s.lookup entry.contentKey = some notesPayload) :
    loadTableExports s manifest = .ok [notes] := by
  have hread : ∀ row ∈ notes.rows, ReadsBack row := by
    intro row hrow
    rw [List.mem_singleton.mp hrow]
    exact cratesReadBack.rows.readsBack note (readable_of_depth (by decide) rfl)
  have hrows := loadJsonlEntries_eq_ok cratesReadBack.zstd hread hformat hcompression hblob
    serializeTableExport_notes
  rw [loadTableExports, htables, mapM'_eq_ok]
  apply List.Forall₂.cons _ .nil
  rw [hrows, hname]
  rfl

/-- The changes of the notes as the only ones of a manifest. -/
theorem loadChangeExports_edits {s : Store} {manifest : BackupSnapshotManifest}
    {entry : TableBackupEntry} (hchanges : manifest.database.changes = [entry])
    (hformat : manifest.database.exportFormat = DATABASE_EXPORT_FORMAT)
    (hcompression : manifest.database.compression = .zstd)
    (hblob : s.lookup entry.contentKey = some editsPayload) :
    loadChangeExports s manifest = .ok edits := by
  have hdepth : ∀ change ∈ edits, change.depth ≤ Crates.recursionLimit := by decide
  have hfloats : ∀ change ∈ edits, ∀ row ∈ change.row, row.floats = [] := by decide
  have hread : ∀ change ∈ edits, ReadsBack change := fun change hmem =>
    cratesReadBack.changes.readsBack change
      (readable_change_of_depth (hdepth change hmem) (hfloats change hmem))
  have hload := loadJsonlEntries_eq_ok cratesReadBack.zstd hread hformat hcompression hblob
    serializeJsonlEntries_edits
  rw [loadChangeExports, hchanges, bind_eq_ok]
  exact ⟨[edits], mapM'_eq_ok.mpr (.cons hload .nil), rfl⟩

/-- A snapshot with a parent: the notes and what has happened to them since. -/
theorem contents_familyWorld :
    Contents familyWorld.store (uuid 3) (sealManifest rootSnapshot) [sealManifest newSnapshot]
      [notes] [edits] := by
  obtain ⟨-, -, hintact⟩ := intact_familyWorld
  rcases intact_iff.mp hintact with ⟨hloads, hverify⟩
  obtain ⟨-, -, htable, hchanges⟩ := lookup_familyBlobs
  refine ⟨hloads, fun manifest hmem => (hverify manifest hmem).2, ?_, .cons ?_ .nil⟩
  · have hkey := (inSnapshotDir_databaseTableKey (uuid 1) "notes").ne_snapshotManifestKey
      (databaseTableKey_ne_snapshotManifestKey _ _)
    exact loadTableExports_notes rfl rfl rfl rfl ((lookup_filed hkey).trans htable)
  · have hkey := (inSnapshotDir_databaseChangesKey (uuid 3) "notes").ne_snapshotManifestKey
      (databaseChangesKey_ne_snapshotManifestKey _ _)
    exact loadChangeExports_edits rfl rfl rfl ((lookup_filed hkey).trans hchanges)

end Reference

end GraphqlOrmBackup
