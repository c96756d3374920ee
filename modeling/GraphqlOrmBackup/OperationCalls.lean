import GraphqlOrmBackup.Reachability

/-!
# The calls of the operations

Every operation is a work under the repository lock.  The kinds of calls the
works make are listed once, with what is known of their arguments, so that a
property of the calls is a property of all operations.
-/

namespace GraphqlOrmBackup

open Interaction

variable [Crates]

omit [Crates] in
def Operation.lockOptions : Operation → RepositoryLockOptions
  | .createFullBackup _ _ options => options.lock
  | .createIncrementalBackup _ _ options => options.lock
  | .compactChain _ _ options => options.lock
  | .prune _ keepPolicy => keepPolicy.lock
  | .deleteSnapshot _ lockOptions => lockOptions

/-- What the operation does while it has the lock. -/
def Operation.work : (operation : Operation) → BackupM operation.Result
  | .createFullBackup sched request options => createFullBackupInner sched request options
  | .createIncrementalBackup sched request options =>
      createIncrementalBackupInner sched request options
  | .compactChain order request _ => compactChainInner order request
  | .prune order keepPolicy => pruneInner order keepPolicy
  | .deleteSnapshot snapshotId _ => deleteSnapshotInner snapshotId

theorem Operation.run_eq (operation : Operation) :
    operation.run = withLock operation.lockOptions operation.work := by
  cases operation <;> rfl

/-- The call changes neither the repository nor the restore target, does not list
    all keys, and does not ask for the time. -/
def Call.Asks : Call → Prop
  | .putBlob _ _ | .putBlobStreamIfAbsent _ _ | .deleteBlob _ | .restore _ | .unixSeconds => False
  | .listBlobs pfx => pfx ≠ ""
  | _ => True

omit [Crates] in
theorem snapshotPrefix_ne_empty (id : Uuid) : snapshotPrefix id ≠ "" := by
  intro h
  have hlength := congrArg (·.toList.length) h
  simp [snapshotPrefix] at hlength

/-- The calls of the works are of the kind `K` as long as the responses satisfy `A`. -/
structure AdmitsWorks (A : (c : Call) → c.Response → Prop) (K : Call → Prop) : Prop where
  asks : ∀ c : Call, c.Asks → K c
  put : ∀ id key body, InSnapshotDir id key → K (.putBlob key body)
  object : ∀ object source, A (.loadObjectStream object) (.ok source) →
    K (.putBlobStreamIfAbsent (objectContentKey object.sha256Hex) source)
  discard : ∀ object : BackupObjectRef, K (.deleteBlob (objectContentKey object.sha256Hex))
  deleteSnapshot : ∀ id (keys : List String), A (.listBlobs (snapshotPrefix id)) (.ok keys) →
    ∀ key ∈ keys, K (.deleteBlob key)
  deleteObjects : ∀ keys : List String, A (.listBlobs "objects/sha256") (.ok keys) →
    ∀ key ∈ keys, K (.deleteBlob key)

section

variable {A : (c : Call) → c.Response → Prop} {K : Call → Prop}

/-- The program makes calls of the kind `K`. -/
abbrev Keeps (A : (c : Call) → c.Response → Prop) (K : Call → Prop) {α : Type}
    (x : BackupM α) : Prop :=
  x.Within A K fun _ => True

omit [Crates] in
theorem keeps_call {c : Call} (hc : K c) :
    (call c).Within A K fun a => A c (.ok a) := by
  refine ⟨hc, ?_⟩
  rintro r hr a rfl
  exact hr

omit [Crates] in
theorem keeps_ofExcept {α : Type} (r : Except BackupError α) :
    Keeps A K (Fallible.ofExcept r : BackupM α) :=
  Fallible.within_ofExcept fun _ _ => trivial

omit [Crates] in
theorem keeps_done {α : Type} (a : α) : Keeps A K (pure a : BackupM α) :=
  Fallible.within_pure trivial

variable (h : AdmitsWorks A K)
include h

omit [Crates] in
theorem AdmitsWorks.ask {c : Call} (hc : c.Asks) : Keeps A K (call c) :=
  (keeps_call (h.asks c hc)).mono fun _ _ => trivial

omit [Crates] in
theorem AdmitsWorks.read {α : Type} (f : Store → Except BackupError α) : Keeps A K (read f) :=
  Fallible.within_bind (h.ask (c := .view) trivial) fun _ _ => keeps_ofExcept _

omit [Crates] in
theorem AdmitsWorks.reads {α β : Type} (f : Store → α → Except BackupError β) (l : List α) :
    Keeps A K (l.mapM' fun a => GraphqlOrmBackup.read fun s => f s a) :=
  (Fallible.within_mapM' l fun a _ => h.read fun s => f s a).mono fun _ _ => trivial

theorem AdmitsWorks.payloads {T γ : Type} [SerializeJson T] {id : Uuid} {key name : γ → String}
    {entries : γ → List T} (hdir : ∀ x, InSnapshotDir id (key x)) (l : List γ) :
    Keeps A K (l.mapM' fun x => writePayload (key x) (name x) (entries x)) := by
  refine (Fallible.within_mapM' (P := fun _ => True) l fun x _ => ?_).mono fun _ _ => trivial
  refine Fallible.within_bind (keeps_ofExcept _) fun bytes _ => ?_
  exact Fallible.within_bind (keeps_call (h.put id _ bytes (hdir x))) fun _ _ => keeps_done _

theorem AdmitsWorks.objectTask (index : Nat) (object : BackupObjectRef) :
    Keeps A K (objectTask index object) := by
  have hload := keeps_call (A := A) (h.asks (.loadObjectStream object) trivial)
  refine Fallible.within_bind hload fun source hsource => ?_
  refine Fallible.within_bind (keeps_call (h.object object source hsource)) fun written _ => ?_
  split
  · refine Fallible.within_bind (keeps_ofExcept _) fun actual _ => ?_
    split
    · refine Fallible.within_bind (keeps_call (h.discard object)) fun _ _ => ?_
      exact Fallible.within_throw
    · exact keeps_done _
  · refine Fallible.within_bind hload fun source' _ => ?_
    refine Fallible.within_bind (keeps_ofExcept _) fun actual _ => ?_
    split
    · exact Fallible.within_throw
    · exact keeps_done _

theorem AdmitsWorks.writeObjectEntries (sched : List Poll) (objectRefs : List BackupObjectRef)
    (objectConcurrency : Nat) :
    Keeps A K (writeObjectEntries sched objectRefs objectConcurrency) := by
  have htasks : ∀ task ∈ objectTasks objectRefs, Prog.Within A K
      (fun r => ∀ entry : Nat × ObjectBackupEntry, r = .ok entry → True) task := by
    intro task htask
    rcases List.mem_map.mp htask with ⟨⟨object, index⟩, -, rfl⟩
    exact h.objectTask index object
  exact Fallible.within_bind (within_tryCollect htasks) fun _ _ => keeps_done _

theorem AdmitsWorks.writeManifest (base : BackupSnapshotManifest) :
    Keeps A K (writeManifest base) := by
  refine Fallible.within_bind (keeps_ofExcept _) fun manifest _ => ?_
  refine Fallible.within_bind (keeps_ofExcept _) fun body _ => ?_
  refine Fallible.within_bind (keeps_call (h.put manifest.snapshotId _ body
    (inSnapshotDir_snapshotManifestKey _))) fun _ _ => keeps_done _

theorem AdmitsWorks.loadAllManifests : Keeps A K loadAllManifests := by
  have hlisting : ("snapshots" : String) ≠ "" := by decide
  exact Fallible.within_bind (h.ask (c := .listBlobs _) hlisting) fun _ _ => h.reads _ _

omit [Crates] h in
theorem keeps_deleteBlobs {keys : List String} (hkeys : ∀ key ∈ keys, K (.deleteBlob key)) :
    Keeps A K (deleteBlobs keys) := by
  refine Fallible.within_bind (Fallible.within_forM keys fun key hkey => ?_) fun _ _ => keeps_done _
  exact (keeps_call (hkeys key hkey)).mono fun _ _ => trivial

omit [Crates] in
theorem AdmitsWorks.deleteSnapshotBlobs (id : Uuid) : Keeps A K (deleteSnapshotBlobs id) := by
  have hlisting := snapshotPrefix_ne_empty id
  exact Fallible.within_bind (keeps_call (h.asks (.listBlobs _) hlisting)) fun _ hkeys => keeps_deleteBlobs (h.deleteSnapshot id _ hkeys)

omit [Crates] in
theorem AdmitsWorks.deleteUnreachable (reachable : List String) :
    Keeps A K (deleteUnreachable reachable) := by
  have hlisting : ("objects/sha256" : String) ≠ "" := by decide
  exact Fallible.within_bind (keeps_call (h.asks (.listBlobs _) hlisting)) fun _ hkeys =>
    keeps_deleteBlobs fun key hkey => h.deleteObjects _ hkeys key (List.mem_of_mem_filter hkey)

/-- **The works make no other calls.** -/
theorem AdmitsWorks.work (operation : Operation) : Keeps A K operation.work := by
  cases operation with
  | createFullBackup sched request options =>
    have hplan : Keeps A K planFullBackup := by
      refine Fallible.within_bind (h.ask (c := .schemaSnapshot) trivial) fun _ _ => ?_
      refine Fallible.within_bind (h.ask (c := .exportFull) trivial) fun _ _ => ?_
      refine Fallible.within_bind (h.ask (c := .listObjectsForFullBackup) trivial) fun _ _ => ?_
      exact keeps_done _
    refine Fallible.within_bind hplan fun plan _ => ?_
    refine Fallible.within_bind (h.payloads (fun table : BackupTableExport =>
      inSnapshotDir_databaseTableKey request.snapshotId table.tableName) _) fun _ _ => ?_
    refine Fallible.within_bind (h.writeObjectEntries sched _ _) fun _ _ => ?_
    exact Fallible.within_bind (h.writeManifest _) fun _ _ => keeps_done _
  | createIncrementalBackup sched request options =>
    refine Fallible.within_bind (h.ask (c := .schemaSnapshot) trivial) fun _ _ => ?_
    refine Fallible.within_bind (h.ask (c := .exportIncremental _) trivial) fun _ _ => ?_
    refine Fallible.within_bind (h.ask (c := .listObjectsForIncrementalBackup _) trivial)
      fun _ _ => ?_
    refine Fallible.within_bind (h.payloads (fun group : ChangeGroup =>
      inSnapshotDir_databaseChangesKey request.snapshotId group.tableName) _) fun _ _ => ?_
    refine Fallible.within_bind (h.writeObjectEntries sched _ _) fun _ _ => ?_
    exact Fallible.within_bind (h.writeManifest _) fun _ _ => keeps_done _
  | compactChain order request options =>
    refine Fallible.within_bind (h.read _) fun chain _ => ?_
    refine Fallible.within_bind (keeps_ofExcept _) fun root _ => ?_
    refine Fallible.within_bind (h.read _) fun tableRows _ => ?_
    refine Fallible.within_bind (h.payloads (fun table : String × Std.TreeMap String BackupRow =>
      inSnapshotDir_databaseTableKey request.snapshotId table.1) _) fun _ _ => ?_
    refine Fallible.within_bind (keeps_ofExcept _) fun latest _ => ?_
    exact Fallible.within_bind (h.writeManifest _) fun _ _ => keeps_done _
  | prune order keepPolicy =>
    refine Fallible.within_bind h.loadAllManifests fun manifests _ => ?_
    refine Fallible.within_bind (h.reads _ _) fun chains _ => ?_
    refine Fallible.within_bind (Fallible.within_mapM' _ fun id _ => h.deleteSnapshotBlobs id)
      fun _ _ => ?_
    exact Fallible.within_bind (h.deleteUnreachable _) fun _ _ => keeps_done _
  | deleteSnapshot snapshotId lockOptions =>
    refine Fallible.within_bind h.loadAllManifests fun manifests _ => ?_
    split
    · exact Fallible.within_throw
    split
    · exact Fallible.within_throw
    refine Fallible.within_bind (h.deleteSnapshotBlobs _) fun _ _ => ?_
    exact Fallible.within_bind (h.deleteUnreachable _) fun _ _ => keeps_done _

/-- **The frame rule for operations.**  What the calls of the works keep, and the
    lock does not touch, every operation keeps. -/
theorem AdmitsWorks.wpE_operation {host : Host} {I : World → Prop} (hI : LockFree I)
    (hA : ∀ c w r w', host.MayFail c w r w' → A c r)
    (hK : ∀ c w r w', K c → I w → host.Answers c w r w' → I w') (operation : Operation)
    {w : World} (hw : I w) :
    wpE host.MayFail I operation.run (fun _ _ => True) (fun _ _ => True) w := by
  rw [operation.run_eq]
  refine wpE_withLock hI (fun _ _ _ _ _ => trivial) hw fun w₁ hsame => ?_
  refine wp.mono ((h.work operation).wp (fun c w r w' _ hcall => hA c w r w' hcall) ?_
    (hI _ _ hsame hw)) (fun _ h => h) ?_
  · rintro c w r w' hc hw (hans | ⟨e, -, rfl | ⟨r', hans⟩⟩)
    · exact hK c w r w' hc hw hans
    · exact hw
    · exact hK c w r' w' hc hw hans
  · intro r w' _ _
    cases r with
    | ok a => trivial
    | error e => trivial

end

end GraphqlOrmBackup
