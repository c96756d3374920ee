import GraphqlOrmBackup.Delivery

/-!
# What precedes a restore

The guards of `restore_snapshot` come before its first call to the adapter, and
the calls follow the chain.
-/

namespace GraphqlOrmBackup

open Interaction

section Codec

variable [Crates]

/-- What holds of a repository and a target before anything is restored. -/
structure RestoreGate (host : Host) (s : Store) (id : Uuid) (context : RestoreContext)
    (chain : List BackupSnapshotManifest) : Prop where
  loads : loadManifestChain s id = .ok chain
  valid : validateManifestChain chain = .ok ()
  checksums : ∀ manifest ∈ chain, verifyManifestChecksum manifest = .ok ()
  blobs : ∀ manifest ∈ chain, HoldsBlobs s manifest
  schema : ∃ target, host.database.schemaSnapshot = .ok target ∧ ∀ manifest ∈ chain,
    manifest.databaseBackend = target.backend ∧
      manifest.graphqlOrmSchemaHash = target.schemaHash
  mode : context.mode = .emptyDatabase
  empty : host.database.restoreTargetIsEmpty = .ok true

/-- `calls` deliver the root of the chain and a first part of the later
    manifests, in chain order. -/
def Delivers (s : Store) (context : RestoreContext) (chain : List BackupSnapshotManifest)
    (calls : List RestoreCall) : Prop :=
  ∃ root delivered rest tables changes, chain = root :: (delivered ++ rest) ∧
    loadTableExports s root = .ok tables ∧
    List.Forall₂ (fun manifest changes => loadChangeExports s manifest = .ok changes)
      delivered changes ∧
    calls = restoreCalls context root tables changes

/-- The root agrees with the target, and the whole chain agrees with the root. -/
theorem schema_of_root {s : Store} {id : Uuid} {root : BackupSnapshotManifest}
    {rest : List BackupSnapshotManifest} (hload : loadManifestChain s id = .ok (root :: rest))
    {target : GraphqlOrmBackupSchema} (hbackend : root.databaseBackend = target.backend)
    (hhash : root.graphqlOrmSchemaHash = target.schemaHash) :
    ∀ manifest ∈ root :: rest, manifest.databaseBackend = target.backend ∧
      manifest.graphqlOrmSchemaHash = target.schemaHash := by
  rcases loadManifestChain_eq_ok.mp hload with ⟨_, _, _, hvalid⟩
  intro manifest hmem
  have hback := hvalid.agree (·.databaseBackend) (fun _ _ h => h.databaseBackend)
    manifest hmem root List.mem_cons_self
  have hhash' := hvalid.agree (·.graphqlOrmSchemaHash) (fun _ _ h => h.graphqlOrmSchemaHash)
    manifest hmem root List.mem_cons_self
  exact ⟨hback.trans hbackend, hhash'.trans hhash⟩

section Rules

variable {host : Host} {w : World} {context : RestoreContext}

omit [Crates] in
theorem wpE_verifyRestoreSchema (root : BackupSnapshotManifest) :
    wpE host.MayFail (· = w) (verifyRestoreSchema root)
      (fun backup _ => backup = manifestSchema root ∧ ∃ target,
        host.database.schemaSnapshot = .ok target ∧ root.databaseBackend = target.backend ∧
          root.graphqlOrmSchemaHash = target.schemaHash)
      (fun _ _ => True) w := by
  refine wpE.seq (P := fun target _ => host.database.schemaSnapshot = .ok target)
    (wpE_call_mayFail rfl (fun _ _ _ => trivial) ?_) ?_
  · rintro r w' ⟨rfl, rfl⟩
    refine ⟨rfl, ?_⟩
    cases h : host.database.schemaSnapshot with
    | ok target => exact rfl
    | error e => exact trivial
  · rintro target w' rfl htarget
    by_cases hne : (manifestSchema root).backend ≠ target.backend ∨
        (manifestSchema root).schemaHash ≠ target.schemaHash
    · rw [if_pos hne]
      exact ⟨rfl, trivial⟩
    · rw [if_neg hne]
      rw [not_or, not_not, not_not] at hne
      exact ⟨rfl, rfl, target, htarget, hne⟩

omit [Crates] in
theorem wpE_targetIsEmpty :
    wpE host.MayFail (· = w) (targetIsEmpty context)
      (fun empty _ => context.mode = .emptyDatabase →
        host.database.restoreTargetIsEmpty = .ok empty) (fun _ _ => True) w := by
  rw [targetIsEmpty]
  cases hmode : context.mode with
  | dryRun => exact ⟨rfl, by simp⟩
  | emptyDatabase =>
    refine wpE_call_mayFail rfl (fun _ _ _ => trivial) ?_
    rintro r w' ⟨rfl, rfl⟩
    refine ⟨rfl, ?_⟩
    cases h : host.database.restoreTargetIsEmpty with
    | ok empty => exact fun _ => rfl
    | error e => exact trivial

omit [Crates] in
theorem wpE_ofExcept_eq {α : Type} {r : Except BackupError α} :
    wpE host.MayFail (· = w) (Fallible.ofExcept r) (fun a _ => r = .ok a) (fun _ _ => True) w := by
  rw [wpE_ofExcept]
  cases r with
  | ok a => exact ⟨rfl, rfl⟩
  | error e => exact ⟨rfl, trivial⟩

omit [Crates] in
theorem wpE_read_eq {α : Type} {f : Store → Except BackupError α} :
    wpE host.MayFail (· = w) (read f) (fun a _ => f w.store = .ok a) (fun _ _ => True) w :=
  wpE_read rfl (fun _ _ _ => trivial) fun _ h => h

omit [Crates] in
/-- A restore call is made, or it is not. -/
theorem wpE_applyRestore {I : World → Prop} {request : RestoreCall}
    (hmode : context.mode = .emptyDatabase) (hI : I w)
    (hI' : I { w with restored := w.restored ++ [request] }) :
    wpE host.MayFail I (applyRestore context request)
      (fun _ w' => w' = { w with restored := w.restored ++ [request] }) (fun _ _ => True) w := by
  rw [applyRestore, hmode]
  apply wpE_call_mayFail hI (fun _ _ _ => trivial)
  rintro r w' ⟨_, rfl⟩
  refine ⟨hI', ?_⟩
  cases r with
  | ok a => exact rfl
  | error e => exact trivial

/-! ## The checks before the first call -/

/-- What a restore has found out when it comes to its first call. -/
structure Checked (host : Host) (s : Store) (id : Uuid) (context : RestoreContext)
    (root : BackupSnapshotManifest) (rest : List BackupSnapshotManifest)
    (tables : List BackupTableExport) : Prop where
  loads : loadManifestChain s id = .ok (root :: rest)
  verified : ∀ manifest ∈ root :: rest,
    verifyManifestChecksum manifest = .ok () ∧ HoldsBlobs s manifest
  schema : ∃ target, host.database.schemaSnapshot = .ok target ∧
    root.databaseBackend = target.backend ∧ root.graphqlOrmSchemaHash = target.schemaHash
  empty : context.mode = .emptyDatabase → host.database.restoreTargetIsEmpty = .ok true
  tables : loadTableExports s root = .ok tables

/-- The calls of a restore, after its checks. -/
def applyChain (context : RestoreContext) (root : BackupSnapshotManifest)
    (rest : List BackupSnapshotManifest) (tables : List BackupTableExport) :
    BackupM RestoreResult := do
  applyRestore context (.restoreFull (manifestSchema root) tables context)
  let changeCounts ← rest.mapM' (restoreManifest context)
  pure {
    manifestChainLen := (root :: rest).length
    fullTableCount := tables.length
    fullRowCount := (tables.map (·.rows.length)).sum
    incrementalChangeCount := changeCounts.sum }

/-- Up to its first call a restore changes nothing, also where it fails. -/
theorem wpE_restoreSnapshot_checked {H : (c : Call) → World → c.Response → World → Prop}
    {I : World → Prop} {P : RestoreResult → World → Prop} {E : BackupError → World → Prop}
    {id : Uuid} (order : BackupSnapshotManifest → CompletionOrder)
    (hH : ∀ c w r w', H c w r w' → host.MayFail c w r w') (hI : I w) (hE : ∀ e, E e w)
    (happly : ∀ root rest tables, Checked host w.store id context root rest tables →
      wpE H I (applyChain context root rest tables) P E w) :
    wpE H I (restoreSnapshot order id context) P E w := by
  have hsame : ∀ w', w' = w → I w' := by
    intro w' heq
    exact heq ▸ hI
  have hfail : ∀ (e : BackupError) w', w' = w → True → E e w' := by
    intro e w' heq _
    exact heq ▸ hE e
  -- a part that only asks is a step of the restore
  have hask : ∀ {α β : Type} {x : BackupM α} {f : α → BackupM β} {Q : α → World → Prop}
      {P' : β → World → Prop}, wpE host.MayFail (· = w) x Q (fun _ _ => True) w →
      (∀ a, Q a w → wpE H I (f a) P' E w) → wpE H I (x >>= f) P' E w := by
    intro α β x f Q P' hx hf
    have hx' : wpE H (· = w) x Q (fun _ _ => True) w := wp.weaken hH hx
    apply wpE.seq (hx'.relax hsame hfail)
    rintro a w' _ ⟨rfl, ha⟩
    exact hf a ha
  apply hask wpE_read_eq
  intro chain hchain
  rcases loadVerifiedChain_eq_ok.mp hchain with ⟨hload, hverify⟩
  apply hask wpE_ofExcept_eq
  intro root hroot
  obtain ⟨rest, rfl⟩ : ∃ rest, chain = root :: rest := by
    cases chain with
    | nil => exact absurd hroot invalidChain_ne_ok
    | cons first rest => exact ⟨rest, by rw [Except.ok.inj hroot]⟩
  apply hask (wpE_verifyRestoreSchema root)
  rintro backup ⟨rfl, hschema⟩
  apply hask wpE_targetIsEmpty
  intro empty hempty
  apply hask wpE_ofExcept_eq
  intro _ hensure
  rw [ensureEmptyRestoreTarget_eq_ok] at hensure
  apply hask wpE_read_eq
  intro tables htables
  exact happly root rest tables
    ⟨hload, hverify, hschema, fun hmode => hensure hmode ▸ hempty hmode, htables⟩

end Rules

/-! ## The gate -/

section Gate

variable {host : Host} {w : World} {id : Uuid} {context : RestoreContext}

/-- The calls made since `w` follow the chain, and the gate was passed if there
    are any. -/
def Gated (host : Host) (id : Uuid) (context : RestoreContext) (w w' : World) : Prop :=
  w'.store = w.store ∧ ∃ calls, w'.restored = w.restored ++ calls ∧
    (calls = [] ∨ ∃ chain, RestoreGate host w.store id context chain ∧
      Delivers w.store context chain calls)

theorem Gated.refl : Gated host id context w w :=
  ⟨rfl, [], (List.append_nil _).symm, Or.inl rfl⟩

theorem gated_after {root : BackupSnapshotManifest} {rest delivered : List BackupSnapshotManifest}
    {tables : List BackupTableExport} {changes : List (List BackupChangeExport)}
    (hgate : RestoreGate host w.store id context (root :: (delivered ++ rest)))
    (htables : loadTableExports w.store root = .ok tables)
    (hchanges : List.Forall₂ (fun manifest changes => loadChangeExports w.store manifest =
      .ok changes) delivered changes) :
    Gated host id context w (w.after context root tables changes) :=
  ⟨rfl, _, rfl, Or.inr ⟨_, hgate, root, delivered, rest, tables, changes, rfl, htables, hchanges,
    rfl⟩⟩

/-- The loop over the incrementals. -/
theorem wpE_restoreManifests {root : BackupSnapshotManifest} {rest : List BackupSnapshotManifest}
    {tables : List BackupTableExport}
    (hgate : RestoreGate host w.store id context (root :: rest))
    (htables : loadTableExports w.store root = .ok tables) :
    wpE host.MayFail (Gated host id context w) (rest.mapM' (restoreManifest context))
      (fun _ _ => True) (fun _ _ => True) (w.after context root tables []) := by
  have hstart : Gated host id context w (w.after context root tables []) :=
    gated_after (show RestoreGate host w.store id context (root :: ([] ++ rest)) from hgate)
      htables .nil
  have hloop := wpE_mapM' (H := host.MayFail) (I := Gated host id context w)
    (E := fun _ _ => True) (f := restoreManifest context)
    (P := fun _ remaining w' => ∃ delivered changes, rest = delivered ++ remaining ∧
      List.Forall₂ (fun manifest changes => loadChangeExports w.store manifest = .ok changes)
        delivered changes ∧ w' = w.after context root tables changes)
    rest [] ⟨[], [], rfl, List.Forall₂.nil, rfl⟩ hstart ?_
  · exact hloop.mono (fun _ _ _ _ => trivial) fun _ _ _ _ => trivial
  · rintro manifest counts remaining w' - hI ⟨delivered, changes, rfl, hchanges, rfl⟩
    apply wpE.seq (P := fun next w' => loadChangeExports w.store manifest = .ok next ∧
      w' = w.after context root tables changes)
      (wpE_read hI (fun _ _ _ => trivial) fun next hnext => ⟨hnext, rfl⟩)
    rintro next _ hI ⟨hnext, rfl⟩
    have hsnoc := List.rel_append hchanges (List.Forall₂.cons hnext .nil)
    have hdone : delivered ++ manifest :: remaining = delivered ++ [manifest] ++ remaining := by
      simp
    rw [hdone] at hgate
    have hI' := gated_after hgate htables hsnoc
    rw [World.after_append] at hI'
    apply wpE.seq (wpE_applyRestore hgate.mode hI hI')
    rintro _ _ hI rfl
    exact ⟨hI, delivered ++ [manifest], changes ++ [next], hdone, hsnoc,
      (World.after_append w context root tables changes next).symm⟩

/-- Without restore calls a restore only reads. -/
theorem wpE_applyChain_dryRun {root : BackupSnapshotManifest} {rest : List BackupSnapshotManifest}
    {tables : List BackupTableExport} (hmode : context.mode = .dryRun) :
    wpE host.MayFail (· = w) (applyChain context root rest tables) (fun _ _ => True)
      (fun _ _ => True) w := by
  have happly : ∀ request, applyRestore context request = pure () := by
    intro request
    rw [applyRestore, hmode]
  unfold applyChain
  rw [happly]
  refine wpE.seq (P := fun _ _ => True) ⟨rfl, trivial⟩ ?_
  rintro _ _ rfl -
  refine wpE.seq (P := fun _ _ => True) ?_ fun counts _ hsame _ => ⟨hsame, trivial⟩
  refine wpE_mapM' (P := fun _ _ _ => True) rest [] trivial rfl ?_
  rintro manifest counts remaining _ - rfl -
  refine wpE.seq (P := fun _ _ => True)
    (wpE_read rfl (fun _ _ _ => trivial) fun _ _ => trivial) ?_
  rintro changes _ rfl -
  rw [happly]
  exact ⟨rfl, trivial⟩

theorem Checked.gate {root : BackupSnapshotManifest} {rest : List BackupSnapshotManifest}
    {tables : List BackupTableExport} (h : Checked host w.store id context root rest tables)
    (hmode : context.mode = .emptyDatabase) :
    RestoreGate host w.store id context (root :: rest) where
  loads := h.loads
  valid := validateManifestChain_eq_ok.mpr (loadManifestChain_eq_ok.mp h.loads).choose_spec.2.2
  checksums manifest hmem := (h.verified manifest hmem).1
  blobs manifest hmem := (h.verified manifest hmem).2
  schema := by
    obtain ⟨target, htarget, hbackend, hhash⟩ := h.schema
    exact ⟨target, htarget, schema_of_root h.loads hbackend hhash⟩
  mode := hmode
  empty := h.empty hmode

theorem wpE_restoreSnapshot (order : BackupSnapshotManifest → CompletionOrder) :
    wpE host.MayFail (Gated host id context w) (restoreSnapshot order id context)
      (fun _ _ => True) (fun _ _ => True) w := by
  apply wpE_restoreSnapshot_checked order (fun _ _ _ _ h => h) Gated.refl fun _ => trivial
  intro root rest tables hchecked
  cases hmode : context.mode with
  | dryRun =>
    have hsame : ∀ w', w' = w → Gated host id context w w' := by
      rintro w' rfl
      exact Gated.refl
    apply ((wpE_applyChain_dryRun hmode).relax hsame fun _ _ _ h => h).mono
    · exact fun _ _ _ _ => trivial
    · exact fun _ _ _ h => h
  | emptyDatabase =>
    unfold applyChain
    have hgate := hchecked.gate hmode
    have hafter : w.after context root tables [] =
        { w with restored := w.restored ++ [.restoreFull (manifestSchema root) tables context] } :=
      rfl
    have hI' : Gated host id context w (w.after context root tables []) :=
      gated_after (show RestoreGate host w.store id context (root :: ([] ++ rest)) from hgate)
        hchecked.tables .nil
    apply wpE.seq (wpE_applyRestore hmode Gated.refl (hafter ▸ hI'))
    rintro _ _ - rfl
    apply wpE.seq (wpE_restoreManifests hgate hchecked.tables)
    exact fun _ _ hI _ => ⟨hI, trivial⟩

/-- **Restore gate.**  Whenever a restore is stopped, the calls it has made
    follow the chain, and if it has made one then every guard has been passed:
    the chain loads and is valid, every checksum of it holds, the whole chain
    has the schema of the target, and the target is empty. -/
theorem restore_calls_are_gated (order : BackupSnapshotManifest → CompletionOrder) {w' : World}
    {rest : Prog Call.Response (Except BackupError RestoreResult)}
    (hreach : Reaches host.MayFail w (restoreSnapshot order id context).run w' rest) :
    w'.store = w.store ∧ ∃ calls, w'.restored = w.restored ++ calls ∧
      (calls = [] ∨ ∃ chain, RestoreGate host w.store id context chain ∧
        Delivers w.store context chain calls) :=
  hreach.crash (wpE_restoreSnapshot order)

end Gate

end Codec

section Root

open Reference

theorem restore_calls_are_gated_family :
    ∃ w' rest, Reaches (database [] []).MayFail familyWorld
        (restoreSnapshot (fun _ _ => []) (uuid 3) .emptyDatabase).run w' rest ∧
      w'.restored = [.restoreFull schema [notes] .emptyDatabase,
        .restoreIncremental edits .emptyDatabase] ∧
      ∃ chain, RestoreGate (database [] []) familyWorld.store (uuid 3) .emptyDatabase chain ∧
        Delivers familyWorld.store .emptyDatabase chain w'.restored := by
  obtain ⟨⟨r, w', hret⟩, hall⟩ := Contents.restores (w := familyWorld) contents_familyWorld
    (database [] []) (fun _ _ => []) .emptyDatabase (accepts_application rfl rfl) rfl
  obtain ⟨-, hrestored⟩ := hall r w' hret
  have hreach := returns_mayFail hret
  obtain ⟨-, calls, hcalls, hgated⟩ := restore_calls_are_gated (fun _ _ => []) hreach
  obtain rfl : w'.restored = calls := hcalls
  rcases hgated with hnil | ⟨chain, hgate, hdelivers⟩
  · cases hrestored.symm.trans hnil
  · exact ⟨w', _, hreach, hrestored, chain, hgate, hdelivers⟩

end Root

end GraphqlOrmBackup
