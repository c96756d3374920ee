import GraphqlOrmBackup.Backup
import GraphqlOrmBackup.Reference

/-!
# An environment that answers

A functional environment among those that `Host.Answers` describes, in which
every program returns: listings are in the order of the store, the clock stands
still, and objects are loaded by a function.  It comes with a small application
in which concrete runs can be evaluated.
-/

namespace GraphqlOrmBackup

open Interaction

/-- The stored keys that start with the prefix. -/
def Store.listing (s : Store) (pfx : String) : List String :=
  s.keys.filter fun key => startsWith key pfx

theorem Store.lists_listing (s : Store) (pfx : String) : Lists s pfx (s.listing pfx) := by
  constructor
  · exact s.keys_nodup.filter _
  · intro key
    simp [listing, AList.mem_keys]

/-- The conditional write; a stream is read only when it is written. -/
def Store.putIfAbsent (s : Store) (key : String) (body : StorageByteStream) :
    Except BackupError Bool × Store :=
  match s.lookup key, body with
  | none, .ok bytes => (.ok true, s.putBlob key bytes)
  | none, .error e => (.error e, s)
  | some _, _ => (.ok false, s)

theorem Store.putsIfAbsent (s : Store) (key : String) (body : StorageByteStream) :
    PutsIfAbsent key body s (s.putIfAbsent key body).1 (s.putIfAbsent key body).2 := by
  unfold putIfAbsent PutsIfAbsent
  cases s.lookup key with
  | none => cases body <;> simp
  | some old => cases body <;> simp

def Host.respond (host : Host) (load : BackupObjectRef → Except BackupError StorageByteStream) :
    (c : Call) → World → c.Response × World
  | .view, w => (.ok w.store, w)
  | .listBlobs pfx, w => (.ok (w.store.listing pfx), w)
  | .putBlob key body, w => (.ok (), w.put key body)
  | .putBlobStreamIfAbsent key body, w =>
      ((w.store.putIfAbsent key body).1, w.withStore (w.store.putIfAbsent key body).2)
  | .deleteBlob key, w => (.ok (), w.withStore (w.store.deleteBlob key))
  | .unixSeconds, w => (.ok (0 : Int), w)
  | .schemaSnapshot, w => (host.database.schemaSnapshot, w)
  | .restoreTargetIsEmpty, w => (host.database.restoreTargetIsEmpty, w)
  | .exportFull, w => (host.database.exportFull, w)
  | .exportIncremental parent, w => (host.database.exportIncremental parent, w)
  | .restore request, w =>
      (host.database.restore (w.restored ++ [request]),
        { w with restored := w.restored ++ [request] })
  | .listObjectsForFullBackup, w => (host.objects.listObjectsForFullBackup, w)
  | .listObjectsForIncrementalBackup since, w =>
      (host.objects.listObjectsForIncrementalBackup since, w)
  | .loadObjectStream object, w => (load object, w)

section Respond

variable {host : Host} {load : BackupObjectRef → Except BackupError StorageByteStream}

theorem Host.respond_answers (hload : ∀ object, host.objects.loadObjectStream object (load object))
    (c : Call) (w : World) : host.Answers c w (host.respond load c w).1 (host.respond load c w).2 := by
  cases c with
  | listBlobs pfx => exact ⟨⟨_, rfl, w.store.lists_listing pfx⟩, rfl⟩
  | putBlobStreamIfAbsent key body => exact ⟨_, w.store.putsIfAbsent key body, rfl⟩
  | unixSeconds => exact ⟨⟨0, by decide, rfl⟩, rfl⟩
  | loadObjectStream object => exact ⟨hload object, rfl⟩
  | _ => exact ⟨rfl, rfl⟩

/-- The run of a program in this environment. -/
theorem Host.returns_run {α : Type}
    (hload : ∀ object, host.objects.loadObjectStream object (load object))
    (p : Prog Call.Response α) (w : World) :
    Returns host.Answers w p (p.run (host.respond load) w).1 (p.run (host.respond load) w).2 :=
  Prog.returns_run (Host.respond_answers hload) p w

/-- A run of a fallible program that is seen to succeed. -/
theorem Host.returns_of_isOk {α : Type}
    (hload : ∀ object, host.objects.loadObjectStream object (load object)) {x : BackupM α}
    {w : World} (hok : (x.run.run (host.respond load) w).1.isOk = true) :
    ∃ a, Returns host.Answers w x.run (.ok a) (x.run.run (host.respond load) w).2 := by
  have hret := Host.returns_run hload x.run w
  cases hr : (x.run.run (host.respond load) w).1 with
  | error e =>
    rw [hr] at hok
    contradiction
  | ok a =>
    rw [hr] at hret
    exact ⟨a, hret⟩

end Respond

/-! ## Runs from their parts -/

section Parts

variable {α : Type} {host : Host} {w : World}

/-- A call that is answered. -/
theorem Host.returns_call {c : Call} {a : c.Result} {w' : World}
    (h : host.Answers c w (.ok a) w') : Returns host.Answers w (call c).run (.ok a) w' :=
  Reaches.head h (Reaches.refl _ _)

theorem Host.returns_read {f : Store → Except BackupError α} {a : α} (h : f w.store = .ok a) :
    Returns host.Answers w (read f).run (.ok a) w := by
  have hview : Returns host.Answers w (call .view).run (.ok w.store) w :=
    Host.returns_call ⟨rfl, rfl⟩
  exact Fallible.returns_bind hview (Fallible.returns_ofExcept h)

/-- The world of a writer that has found the repository unlocked at time 0. -/
def World.locked (w : World) : World :=
  w.withStore (w.store.putBlob repositoryLockKey (lockBody 0))

theorem World.sameButLock_locked (w : World) : SameButLock w w.locked :=
  ⟨fun _ hkey => Store.lookup_putBlob_of_ne _ _ hkey, rfl, rfl⟩

/-- A lock that nobody holds is acquired. -/
theorem Host.returns_acquire {options : RepositoryLockOptions}
    (hfree : w.store.lookup repositoryLockKey = none) :
    Returns host.Answers w (RepositoryLock.acquire options).run (.ok ⟨repositoryLockKey⟩)
      w.locked := by
  have hclock : Returns host.Answers w (call .unixSeconds).run (.ok (0 : Int)) w :=
    Host.returns_call ⟨⟨0, by decide, rfl⟩, rfl⟩
  have hput : PutsIfAbsent repositoryLockKey (.ok (lockBody 0)) w.store (.ok true)
      (w.store.putBlob repositoryLockKey (lockBody 0)) := by
    unfold PutsIfAbsent
    rw [hfree]
    exact ⟨rfl, rfl⟩
  have hwritten : Returns host.Answers w (putBlobIfAbsent repositoryLockKey (lockBody 0)).run
      (.ok true) w.locked := Host.returns_call ⟨_, hput, rfl⟩
  exact Fallible.returns_bind hclock (Fallible.returns_bind hwritten (Reaches.refl _ _))

/-- Work that succeeds under a lock that nobody holds. -/
theorem Host.returns_withLock {options : RepositoryLockOptions} {inner : BackupM α} {a : α}
    {w₁ : World} (hfree : w.store.lookup repositoryLockKey = none)
    (hinner : Returns host.Answers w.locked inner.run (.ok a) w₁) :
    Returns host.Answers w (withLock options inner).run (.ok a)
      (w₁.withStore (w₁.store.deleteBlob repositoryLockKey)) := by
  have hdelete : Returns host.Answers w₁ (deleteBlob repositoryLockKey).run (.ok ())
      (w₁.withStore (w₁.store.deleteBlob repositoryLockKey)) := Host.returns_call ⟨rfl, rfl⟩
  have hrelease : Returns host.Answers w₁ (releaseLock ⟨repositoryLockKey⟩ (.ok a)).run (.ok a)
      (w₁.withStore (w₁.store.deleteBlob repositoryLockKey)) :=
    Fallible.returns_bind (Fallible.returns_attempt hdelete) (Reaches.refl _ _)
  have hwork := Fallible.returns_bind (Fallible.returns_attempt hinner) hrelease
  exact Fallible.returns_bind (Host.returns_acquire hfree) hwork

theorem Host.exists_returns_withLock {options : RepositoryLockOptions} {inner : BackupM α}
    (hfree : w.store.lookup repositoryLockKey = none)
    (hinner : ∃ a w', Returns host.Answers w.locked inner.run (.ok a) w') :
    ∃ a w', Returns host.Answers w (withLock options inner).run (.ok a) w' := by
  rcases hinner with ⟨a, w₁, hinner⟩
  exact ⟨a, _, Host.returns_withLock hfree hinner⟩

/-- A phase of reads that succeed. -/
theorem Host.returns_mapM'_read {β : Type} {f : Store → α → Except BackupError β} {l : List α}
    {bs : List β} (h : List.Forall₂ (fun a b => f w.store a = .ok b) l bs) :
    Returns host.Answers w (l.mapM' fun a => read fun s => f s a).run (.ok bs) w := by
  induction h with
  | nil => exact Reaches.refl _ _
  | cons hread hrest ih =>
    rw [List.mapM'_cons]
    exact Fallible.returns_bind (Host.returns_read hread)
      (Fallible.returns_bind ih (Reaches.refl _ _))

end Parts

/-! ## A small application -/

namespace Reference

/-- An identifier of sixteen equal bytes. -/
def uuid (byte : UInt8) : Uuid := ⟨Vector.replicate 16 byte⟩

def schema : GraphqlOrmBackupSchema where
  backend := "sqlite"
  migrationVersion := "1"
  schemaHash := "h"

def emptyWorld : World := ⟨∅, [], []⟩

/-- An application with the given exports and objects, which takes every
    restore call. -/
def application (tables : List BackupTableExport) (changes : List BackupChangeExport)
    (objects : List BackupObjectRef)
    (load : BackupObjectRef → Except BackupError StorageByteStream) : Host where
  database := {
    schemaSnapshot := .ok schema
    restoreTargetIsEmpty := .ok true
    exportFull := .ok tables
    exportIncremental := fun _ => .ok changes
    restore := fun _ => .ok () }
  objects := {
    listObjectsForFullBackup := .ok objects
    listObjectsForIncrementalBackup := fun _ => .ok objects
    loadObjectStream := fun object r => r = load object }

/-- An application without objects. -/
def database (tables : List BackupTableExport) (changes : List BackupChangeExport) : Host :=
  application tables changes [] fun object => .error (.missingBlob object.storageKey)

theorem loads_database (tables : List BackupTableExport) (changes : List BackupChangeExport)
    (object : BackupObjectRef) : (database tables changes).objects.loadObjectStream object
      (.error (.missingBlob object.storageKey)) := rfl

/-- A run in an application without objects. -/
def runDatabase {α : Type} (tables : List BackupTableExport) (changes : List BackupChangeExport)
    (x : BackupM α) (w : World) : Except BackupError α × World :=
  x.run.run ((database tables changes).respond fun object => .error (.missingBlob object.storageKey))
    w

theorem returns_runDatabase {α : Type} {tables : List BackupTableExport}
    {changes : List BackupChangeExport} {x : BackupM α} {w : World}
    (hok : (runDatabase tables changes x w).1.isOk = true) :
    ∃ a, Returns (database tables changes).Answers w x.run (.ok a)
      (runDatabase tables changes x w).2 :=
  Host.returns_of_isOk (loads_database tables changes) hok

theorem returns_of_toOption {α : Type} {tables : List BackupTableExport}
    {changes : List BackupChangeExport} {x : BackupM α} {w : World} {a : α}
    (h : (runDatabase tables changes x w).1.toOption = some a) :
    Returns (database tables changes).Answers w x.run (.ok a)
      (runDatabase tables changes x w).2 := by
  have hret := Host.returns_run (loads_database tables changes) x.run w
  change Returns _ _ _ (runDatabase tables changes x w).1 _ at hret
  cases hrun : (runDatabase tables changes x w).1 with
  | error e =>
    rw [hrun] at h
    contradiction
  | ok a' =>
    rw [hrun] at h hret
    rw [← Option.some.inj h]
    exact hret

def note : BackupRow where
  tableName := "notes"
  primaryKey := "1"
  rowHash := "x"
  values := Json.Map.empty.insert "id" (.read (.string "1"))

def notes : BackupTableExport where
  tableName := "notes"
  rows := [note]

/-- A payload that is written. -/
theorem serializeJsonlEntries_of_isOk {T : Type} [SerializeJson T] {entries : List T}
    (hok : (serializeJsonlEntries entries).isOk = true) :
    serializeJsonlEntries entries = .ok ((serializeJsonlEntries entries).toOption.getD []) := by
  cases h : serializeJsonlEntries entries with
  | ok bytes => rfl
  | error e =>
    rw [h] at hok
    contradiction

/-- The payload of the table. -/
def notesPayload : Bytes := (serializeTableExport notes).toOption.getD []

theorem serializeTableExport_notes : serializeTableExport notes = .ok notesPayload :=
  serializeJsonlEntries_of_isOk (by decide +kernel)

def editedNote (primaryKey rowHash : String) : BackupRow :=
  { note with primaryKey := primaryKey, rowHash := rowHash }

def edit (action : BackupChangeAction) (row : BackupRow) : BackupChangeExport where
  tableName := "notes"
  primaryKey := row.primaryKey
  action := action
  row := if action = .delete then none else some row
  changedAt := 0

/-- A second note is created, the first one is updated, and a third one comes and
    goes. -/
def edits : List BackupChangeExport :=
  [edit .create (editedNote "2" "y"), edit .update (editedNote "1" "z"),
    edit .create (editedNote "3" "y"), edit .delete (editedNote "3" "y")]

/-- The payload of the changes. -/
def editsPayload : Bytes := (serializeJsonlEntries edits).toOption.getD []

theorem serializeJsonlEntries_edits : serializeJsonlEntries edits = .ok editsPayload :=
  serializeJsonlEntries_of_isOk (by decide +kernel)

def options : BackupExecutionOptions := .default

def fullRequest (snapshotId : Uuid) : FullBackupRequest where
  snapshotId := snapshotId
  createdAt := 0
  appId := "app"
  appVersion := "1"

def incrementalRequest (snapshotId parentSnapshotId : Uuid) : IncrementalBackupRequest where
  snapshotId := snapshotId
  parentSnapshotId := parentSnapshotId
  createdAt := 0
  appId := "app"
  appVersion := "1"

def compactRequest (snapshotId sourceSnapshotId : Uuid) : CompactChainRequest where
  snapshotId := snapshotId
  sourceSnapshotId := sourceSnapshotId
  createdAt := 0
  appId := "app"
  appVersion := "1"

/-- A manifest without payloads and objects, full when it has no parent. -/
def manifest (snapshotId : Uuid) (parent : Option Uuid) : BackupSnapshotManifest where
  formatVersion := BACKUP_FORMAT_VERSION
  snapshotId := snapshotId
  parentSnapshotId := parent
  createdAt := 0
  appId := "app"
  appVersion := "1"
  graphqlOrmSchemaVersion := "1"
  graphqlOrmSchemaHash := "h"
  databaseBackend := "sqlite"
  backupKind := if parent = none then .full else .incremental
  database := {
    exportFormat := "jsonl"
    compression := .zstd
    rowCount := 0
    tableCount := 0
    tables := []
    changes := [] }
  objects := []
  tombstones := []
  checksum := ""

end Reference

end GraphqlOrmBackup
