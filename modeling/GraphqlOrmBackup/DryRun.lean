import GraphqlOrmBackup.Delivery

/-!
# Dry runs

In both modes `restore_snapshot` computes one function of the repository and of
the schema of the target; what it applies to an accepting target does not bear
on the outcome.
-/

namespace GraphqlOrmBackup

open Interaction

/-! ## Programs that compute a value -/

section Computes

variable {host : Host} {α β : Type}

/-- In every run from `w`, the program has the outcome `r` and leaves the
    repository as it is. -/
def Computes (host : Host) (w : World) (x : BackupM α) (r : Except BackupError α) : Prop :=
  wpE host.Answers (fun _ => True) x (fun a w' => r = .ok a ∧ w'.store = w.store)
    (fun e _ => r = .error e) w

theorem Computes.bind {w : World} {x : BackupM α} {f : α → BackupM β} {r : Except BackupError α}
    {g : α → Except BackupError β} (hx : Computes host w x r)
    (hf : ∀ a w', w'.store = w.store → Computes host w' (f a) (g a)) :
    Computes host w (x >>= f) (r >>= g) := by
  refine wpE.bind (hx.mono ?_ ?_)
  · rintro a w' - ⟨rfl, hstore⟩
    refine (hf a w' hstore).mono ?_ fun _ _ _ h => h
    rintro b w'' - ⟨hb, hstore'⟩
    exact ⟨hb, hstore'.trans hstore⟩
  · rintro e w' - rfl
    rfl

/-- A part that is known to succeed. -/
theorem Computes.bind_ok {w : World} {x : BackupM α} {f : α → BackupM β} {a : α}
    {r : Except BackupError β} (hx : Computes host w x (.ok a))
    (hf : ∀ w', w'.store = w.store → Computes host w' (f a) r) : Computes host w (x >>= f) r := by
  refine wpE.bind (hx.mono ?_ ?_)
  · rintro b w' - ⟨heq, hstore⟩
    obtain rfl := Except.ok.inj heq
    refine (hf w' hstore).mono ?_ fun _ _ _ h => h
    rintro b w'' - ⟨hb, hstore'⟩
    exact ⟨hb, hstore'.trans hstore⟩
  · rintro e w' - heq
    cases heq

theorem Computes.ofExcept {w : World} (r : Except BackupError α) :
    Computes host w (Fallible.ofExcept r) r := by
  refine wpE_ofExcept.mpr ⟨trivial, ?_⟩
  cases r with
  | ok a => exact ⟨rfl, rfl⟩
  | error e => exact rfl

theorem Computes.read {w : World} (f : Store → Except BackupError α) :
    Computes host w (read f) (f w.store) := by
  apply wpE_read_answers trivial
  cases f w.store with
  | ok a => exact ⟨rfl, rfl⟩
  | error e => exact rfl

theorem Computes.mapM' {γ : Type} {f : γ → BackupM α} {g : γ → Except BackupError α} (s : Store)
    (hf : ∀ x w, w.store = s → Computes host w (f x) (g x)) (l : List γ) :
    ∀ w : World, w.store = s → Computes host w (l.mapM' f) (l.mapM' g) := by
  induction l with
  | nil => exact fun w _ => ⟨trivial, rfl, rfl⟩
  | cons x l ih =>
    intro w hw
    rw [List.mapM'_cons, List.mapM'_cons]
    refine (hf x w hw).bind fun a w₁ h₁ => ?_
    refine (ih w₁ (h₁.trans hw)).bind fun as w₂ h₂ => ?_
    exact ⟨trivial, rfl, rfl⟩

/-- A computed outcome is the only one. -/
theorem Computes.eq_of_returns {w w' : World} {x : BackupM α} {r r' : Except BackupError α}
    (h : Computes host w x r) (hret : Returns host.Answers w x.run r' w') : r' = r := by
  have hpost := hret.post h
  cases r' with
  | ok a => exact hpost.1.symm
  | error e => exact Eq.symm hpost

end Computes

/-! ## The outcome of a restore -/

section Codec

variable [Crates]

/-- The schema of a manifest, if it is that of the target. -/
def checkedSchema (host : Host) (manifest : BackupSnapshotManifest) :
    Except BackupError GraphqlOrmBackupSchema := do
  let backup := manifestSchema manifest
  let target ← host.database.schemaSnapshot
  if backup.backend ≠ target.backend ∨ backup.schemaHash ≠ target.schemaHash then
    throw (.restoreSchemaMismatch backup.backend backup.schemaHash target.backend
      target.schemaHash)
  else
    pure backup

def countChanges (s : Store) (manifest : BackupSnapshotManifest) : Except BackupError Nat := do
  let changes ← loadChangeExports s manifest
  pure changes.length

/-- What `restore_snapshot` finds out, whether or not it applies it. -/
def restoreOutcome (host : Host) (order : BackupSnapshotManifest → CompletionOrder) (s : Store)
    (snapshotId : Uuid) : Except BackupError RestoreResult := do
  let chain ← loadVerifiedChain order s snapshotId
  let fullManifest ← (chain.head?).elim emptyChain pure
  let _ ← checkedSchema host fullManifest
  let fullExport ← loadTableExports s fullManifest
  let changeCounts ← chain.tail.mapM' (countChanges s)
  pure {
    manifestChainLen := chain.length
    fullTableCount := fullExport.length
    fullRowCount := (fullExport.map (·.rows.length)).sum
    incrementalChangeCount := changeCounts.sum }

/-- The target is empty and takes every call. -/
structure TakesAll (host : Host) : Prop where
  empty : host.database.restoreTargetIsEmpty = .ok true
  restore : ∀ calls, host.database.restore calls = .ok ()

section

variable {host : Host} {w : World} {context : RestoreContext}

omit [Crates] in
/-- The target is found empty, or not asked. -/
theorem computes_targetIsEmpty (htarget : context.mode = .emptyDatabase → TakesAll host) :
    Computes host w (targetIsEmpty context) (.ok true) := by
  rw [targetIsEmpty]
  cases hmode : context.mode with
  | dryRun => exact ⟨trivial, rfl, rfl⟩
  | emptyDatabase =>
    apply wpE_call trivial
    rintro r w' ⟨rfl, rfl⟩
    rw [(htarget hmode).empty]
    exact ⟨trivial, rfl, rfl⟩

omit [Crates] in
/-- A restore call is taken, or left out. -/
theorem computes_applyRestore (htarget : context.mode = .emptyDatabase → TakesAll host)
    (request : RestoreCall) : Computes host w (applyRestore context request) (.ok ()) := by
  rw [applyRestore]
  cases hmode : context.mode with
  | dryRun => exact ⟨trivial, rfl, rfl⟩
  | emptyDatabase =>
    apply wpE_call trivial
    rintro r w' ⟨rfl, rfl⟩
    rw [(htarget hmode).restore]
    exact ⟨trivial, rfl, rfl⟩

theorem computes_restoreManifest (htarget : context.mode = .emptyDatabase → TakesAll host)
    (manifest : BackupSnapshotManifest) :
    Computes host w (restoreManifest context manifest) (countChanges w.store manifest) := by
  refine (Computes.read _).bind fun changes w' _ => ?_
  exact (computes_applyRestore htarget _).bind_ok fun w'' _ => ⟨trivial, rfl, rfl⟩

omit [Crates] in
theorem computes_verifyRestoreSchema (manifest : BackupSnapshotManifest) :
    Computes host w (verifyRestoreSchema manifest) (checkedSchema host manifest) := by
  have hask : Computes host w (call .schemaSnapshot) host.database.schemaSnapshot := by
    apply wpE_call trivial
    rintro r w' ⟨rfl, rfl⟩
    cases host.database.schemaSnapshot with
    | ok target => exact ⟨trivial, rfl, rfl⟩
    | error e => exact ⟨trivial, rfl⟩
  refine hask.bind fun target w' _ => ?_
  split
  · exact ⟨trivial, rfl⟩
  · exact ⟨trivial, rfl, rfl⟩

omit [Crates] in
theorem computes_ensureEmptyRestoreTarget :
    Computes host w (Fallible.ofExcept (ensureEmptyRestoreTarget true context)) (.ok ()) := by
  rw [ensureEmptyRestoreTarget_eq_ok.mpr fun _ => rfl]
  exact ⟨trivial, rfl, rfl⟩

/-- Both modes compute the same outcome. -/
theorem computes_restoreSnapshot (htarget : context.mode = .emptyDatabase → TakesAll host)
    (order : BackupSnapshotManifest → CompletionOrder) (id : Uuid) :
    Computes host w (restoreSnapshot order id context) (restoreOutcome host order w.store id) := by
  refine (Computes.read _).bind fun chain w₁ h₁ => ?_
  refine (Computes.ofExcept _).bind fun root w₂ h₂ => ?_
  refine (computes_verifyRestoreSchema root).bind fun schema w₃ h₃ => ?_
  refine (computes_targetIsEmpty htarget).bind_ok fun w₄ h₄ => ?_
  refine computes_ensureEmptyRestoreTarget.bind_ok fun w₅ h₅ => ?_
  have hstore : w₅.store = w.store := h₅.trans (h₄.trans (h₃.trans (h₂.trans h₁)))
  rw [← hstore]
  refine (Computes.read _).bind fun tables w₆ h₆ => ?_
  refine (computes_applyRestore htarget _).bind_ok fun w₇ h₇ => ?_
  refine (Computes.mapM' w₅.store (fun manifest w' hw' => ?_) _ w₇ (h₇.trans h₆)).bind
    fun counts w₈ _ => ⟨trivial, rfl, rfl⟩
  rw [← hw']
  exact computes_restoreManifest htarget manifest

theorem exists_returns_restoreOutcome (htarget : TakesAll host) (context : RestoreContext)
    {order : BackupSnapshotManifest → CompletionOrder} {id : Uuid}
    {outcome : Except BackupError RestoreResult}
    (h : restoreOutcome host order w.store id = outcome) :
    ∃ w', Returns host.Answers w (restoreSnapshot order id context).run outcome w' := by
  obtain ⟨r, w', hret⟩ := exists_returns_restoreSnapshot host w order id context
  obtain rfl := (computes_restoreSnapshot (fun _ => htarget) order id).eq_of_returns hret
  exact ⟨w', h ▸ hret⟩

/-- The order in which checks complete bears on which of several errors is
    reported, and on nothing else. -/
theorem restoreOutcome_eq_ok_congr (order order' : BackupSnapshotManifest → CompletionOrder)
    {s : Store} {id : Uuid} {result : RestoreResult} :
    restoreOutcome host order s id = .ok result ↔ restoreOutcome host order' s id = .ok result := by
  rw [restoreOutcome, restoreOutcome, bind_eq_ok, bind_eq_ok]
  simp only [loadVerifiedChain_eq_ok]

/-- A restore of these contents into a target with their schema. -/
theorem Contents.restoreOutcome {s : Store} {id : Uuid} {root : BackupSnapshotManifest}
    {rest : List BackupSnapshotManifest} {tables : List BackupTableExport}
    {changes : List (List BackupChangeExport)} (h : Contents s id root rest tables changes)
    {target : GraphqlOrmBackupSchema} (hschema : checkedSchema host root = .ok target)
    (order : BackupSnapshotManifest → CompletionOrder) :
    restoreOutcome host order s id = .ok {
      manifestChainLen := (root :: rest).length
      fullTableCount := tables.length
      fullRowCount := (tables.map (·.rows.length)).sum
      incrementalChangeCount := (changes.map List.length).sum } := by
  have hchain : loadVerifiedChain order s id = .ok (root :: rest) :=
    loadVerifiedChain_eq_ok.mpr ⟨h.loads, fun manifest hmem =>
      ⟨verifyManifestChecksum_of_loads h.loads manifest hmem, h.blobs manifest hmem⟩⟩
  have hcounts : rest.mapM' (countChanges s) = .ok (changes.map List.length) := by
    rw [mapM'_eq_ok, List.forall₂_map_right_iff]
    refine h.changes.imp fun manifest changes hload => ?_
    rw [countChanges, hload]
    rfl
  rw [GraphqlOrmBackup.restoreOutcome, bind_eq_ok]
  refine ⟨_, hchain, bind_eq_ok.mpr ⟨root, rfl, bind_eq_ok.mpr ⟨target, hschema, ?_⟩⟩⟩
  exact bind_eq_ok.mpr ⟨tables, h.tables, bind_eq_ok.mpr ⟨_, hcounts, rfl⟩⟩

omit [Crates] in
/-- A restore fails as the first check of the root fails that completes. -/
theorem restoreOutcome_of_verifyChecks [Crates] {s : Store} {id : Uuid}
    {root : BackupSnapshotManifest} {rest : List BackupSnapshotManifest}
    {order : BackupSnapshotManifest → CompletionOrder} {e : BackupError}
    (hloads : loadManifestChain s id = .ok (root :: rest))
    (h : verifyChecks (order root) s root.objectChecks = .error e) :
    restoreOutcome host order s id = .error e := by
  have hchecksum := verifyManifestChecksum_of_loads hloads root List.mem_cons_self
  rw [restoreOutcome, loadVerifiedChain, hloads]
  simp only [bind, Except.bind, List.forM_cons, verifyManifestAndObjects, hchecksum,
    verifyObjectChecksums, h]

/-! ## Rehearsal -/

/-- The calls that a dry run makes. -/
def Call.OfDryRun : Call → Prop
  | .view | .schemaSnapshot => True
  | _ => False

theorem uses_restoreSnapshot_dryRun (hmode : context.mode = .dryRun)
    (order : BackupSnapshotManifest → CompletionOrder) (id : Uuid) :
    (restoreSnapshot order id context).run.Uses Call.OfDryRun := by
  apply uses_restoreSnapshot
  · trivial
  · trivial
  · simp [hmode]
  · simp [hmode]

/-- **A dry run predicts the restore.**  If the target is empty and takes every
    call, then a dry run and a restore in any mode always return, and with the
    same outcome: the same counts or, with the checks completing in the same
    order, the same error.  The dry run asks for nothing but the repository and
    the schema. -/
theorem dry_run_predicts_restore (htarget : TakesAll host) (context' : RestoreContext)
    (hdry : context.mode = .dryRun) (id : Uuid) :
    (∀ order, (restoreSnapshot order id context).run.Uses Call.OfDryRun) ∧
    (∀ order, ∃ outcome,
      (∃ w', Returns host.Answers w (restoreSnapshot order id context).run outcome w') ∧
      (∃ w', Returns host.Answers w (restoreSnapshot order id context').run outcome w') ∧
      (∀ r w', Returns host.Answers w (restoreSnapshot order id context).run r w' →
        r = outcome) ∧
      ∀ r w', Returns host.Answers w (restoreSnapshot order id context').run r w' →
        r = outcome) ∧
    ∀ order order' r r' w₁ w₂,
      Returns host.Answers w (restoreSnapshot order id context).run r w₁ →
      Returns host.Answers w (restoreSnapshot order' id context').run r' w₂ →
      ∀ result, r = .ok result ↔ r' = .ok result := by
  have hdryRun : ∀ order, Computes host w (restoreSnapshot order id context)
      (restoreOutcome host order w.store id) := fun order =>
    computes_restoreSnapshot (fun _ => htarget) order id
  have hrestore : ∀ order, Computes host w (restoreSnapshot order id context')
      (restoreOutcome host order w.store id) := fun order =>
    computes_restoreSnapshot (fun _ => htarget) order id
  refine ⟨fun order => uses_restoreSnapshot_dryRun hdry order id, fun order => ?_, ?_⟩
  · obtain ⟨r, w₁, hret⟩ := exists_returns_restoreSnapshot host w order id context
    obtain ⟨r', w₂, hret'⟩ := exists_returns_restoreSnapshot host w order id context'
    obtain rfl := (hdryRun order).eq_of_returns hret
    obtain rfl := (hrestore order).eq_of_returns hret'
    exact ⟨_, ⟨w₁, hret⟩, ⟨w₂, hret'⟩, fun r w' h => (hdryRun order).eq_of_returns h,
      fun r w' h => (hrestore order).eq_of_returns h⟩
  · intro order order' r r' w₁ w₂ hret hret' result
    rw [(hdryRun order).eq_of_returns hret, (hrestore order').eq_of_returns hret']
    exact restoreOutcome_eq_ok_congr order order'

end

end Codec

/-! ## A restore and a failure -/

section Family

open Reference

theorem checkedSchema_database {root : BackupSnapshotManifest}
    (hbackend : root.databaseBackend = schema.backend)
    (hhash : root.graphqlOrmSchemaHash = schema.schemaHash) :
    checkedSchema (database [] []) root = .ok (manifestSchema root) := by
  refine bind_eq_ok.mpr ⟨schema, rfl, ?_⟩
  rw [if_neg (by simp [manifestSchema, hbackend, hhash])]
  rfl

theorem takesAll_database : TakesAll (database [] []) := ⟨rfl, fun _ => rfl⟩

theorem restoreOutcome_familyWorld (order : BackupSnapshotManifest → CompletionOrder) :
    restoreOutcome (database [] []) order familyWorld.store (uuid 3) = .ok ⟨2, 1, 1, 4⟩ :=
  contents_familyWorld.restoreOutcome (checkedSchema_database rfl rfl) order

/-- A snapshot whose two objects are missing. -/
def lostSnapshot : BackupSnapshotManifest :=
  { manifest (uuid 1) none with objects := [photo, scan] }

def lostWorld : World := ⟨fileChain ∅ [lostSnapshot], [], []⟩

theorem loadManifestChain_lostWorld :
    loadManifestChain lostWorld.store (uuid 1) = .ok [sealManifest lostSnapshot] := by
  apply loadManifestChain_fileChain ∅ _ rfl rfl
  intro m hm
  rw [List.mem_singleton.mp hm]
  unfold BackupSnapshotManifest.Representable
  decide +kernel

theorem verifyBlobChecksum_lostWorld (sha : String) :
    verifyBlobChecksum lostWorld.store (objectContentKey sha) sha =
      .error (.missingBlob (objectContentKey sha)) := by
  have hobject := inObjectStore_objectContentKey sha
  have hlookup : lostWorld.store.lookup (objectContentKey sha) = none :=
    (lookup_filed fun id (heq : objectContentKey sha = _) => hobject.not_inSnapshotDir id
      (heq ▸ inSnapshotDir_snapshotManifestKey id)).trans rfl
  rw [verifyBlobChecksum, Store.getBlob, hlookup]
  rfl

/-- The check that completes first names its blob. -/
theorem verifyChecks_lostWorld (order : List Nat) :
    verifyChecks (fun _ => order) lostWorld.store (sealManifest lostSnapshot).objectChecks =
      tryCollectChecks order
        [.error (.missingBlob photo.contentKey), .error (.missingBlob scan.contentKey)] := by
  have hchecks : (sealManifest lostSnapshot).objectChecks =
      [(photo.contentKey, photoSha), (scan.contentKey, scanSha)] := rfl
  have hphoto : verifyBlobChecksum lostWorld.store photo.contentKey photoSha = _ :=
    verifyBlobChecksum_lostWorld photoSha
  have hscan : verifyBlobChecksum lostWorld.store scan.contentKey scanSha = _ :=
    verifyBlobChecksum_lostWorld scanSha
  rw [hchecks, verifyChecks, List.map_cons, List.map_singleton, hphoto, hscan]
  rfl

theorem restoreOutcome_lostWorld :
    restoreOutcome (database [] []) (fun _ _ => []) lostWorld.store (uuid 1) =
      .error (.missingBlob photo.contentKey) ∧
    restoreOutcome (database [] []) (fun _ _ => [1]) lostWorld.store (uuid 1) =
      .error (.missingBlob scan.contentKey) :=
  ⟨restoreOutcome_of_verifyChecks loadManifestChain_lostWorld
      ((verifyChecks_lostWorld []).trans rfl),
    restoreOutcome_of_verifyChecks loadManifestChain_lostWorld
      ((verifyChecks_lostWorld [1]).trans rfl)⟩

/-- Of two missing blobs, a dry run and a restore may report different ones. -/
theorem dry_run_reports_another_error :
    (∃ w', Returns (database [] []).Answers lostWorld
      (restoreSnapshot (fun _ _ => []) (uuid 1) .forDryRun).run
      (.error (.missingBlob photo.contentKey)) w') ∧
    (∃ w', Returns (database [] []).Answers lostWorld
      (restoreSnapshot (fun _ _ => [1]) (uuid 1) .emptyDatabase).run
      (.error (.missingBlob scan.contentKey)) w') ∧
    BackupError.missingBlob photo.contentKey ≠ .missingBlob scan.contentKey :=
  ⟨exists_returns_restoreOutcome takesAll_database _ restoreOutcome_lostWorld.1,
    exists_returns_restoreOutcome takesAll_database _ restoreOutcome_lostWorld.2, by decide⟩

/-- A restore that succeeds and one that fails, as their dry runs do. -/
theorem dry_run_predicts_restore_family :
    ((∃ w', Returns (database [] []).Answers familyWorld
        (restoreSnapshot (fun _ _ => []) (uuid 3) .forDryRun).run (.ok ⟨2, 1, 1, 4⟩) w') ∧
      ∃ w', Returns (database [] []).Answers familyWorld
        (restoreSnapshot (fun _ _ => []) (uuid 3) .emptyDatabase).run (.ok ⟨2, 1, 1, 4⟩) w') ∧
    (∃ w', Returns (database [] []).Answers lostWorld
        (restoreSnapshot (fun _ _ => [1]) (uuid 1) .forDryRun).run
        (.error (.missingBlob scan.contentKey)) w') ∧
      ∃ w', Returns (database [] []).Answers lostWorld
        (restoreSnapshot (fun _ _ => [1]) (uuid 1) .emptyDatabase).run
        (.error (.missingBlob scan.contentKey)) w' := by
  obtain ⟨-, hsame, -⟩ := dry_run_predicts_restore (w := familyWorld) takesAll_database
    .emptyDatabase (rfl : RestoreContext.forDryRun.mode = .dryRun) (uuid 3)
  obtain ⟨outcome, -, hrestore, hpredicts, -⟩ := hsame fun _ _ => []
  obtain ⟨w', hdry⟩ := exists_returns_restoreOutcome (w := familyWorld) takesAll_database
    .forDryRun (restoreOutcome_familyWorld fun _ _ => [])
  obtain rfl := hpredicts _ _ hdry
  obtain ⟨-, hsame', -⟩ := dry_run_predicts_restore (w := lostWorld) takesAll_database
    .emptyDatabase (rfl : RestoreContext.forDryRun.mode = .dryRun) (uuid 1)
  obtain ⟨outcome', -, hrestore', hpredicts', -⟩ := hsame' fun _ _ => [1]
  obtain ⟨w'', hdry'⟩ := exists_returns_restoreOutcome (w := lostWorld) takesAll_database
    .forDryRun restoreOutcome_lostWorld.2
  obtain rfl := hpredicts' _ _ hdry'
  exact ⟨⟨⟨w', hdry⟩, hrestore⟩, ⟨w'', hdry'⟩, hrestore'⟩

end Family

end GraphqlOrmBackup
