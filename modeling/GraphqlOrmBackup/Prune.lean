import GraphqlOrmBackup.Lock
import GraphqlOrmBackup.Verify

/-!
# Retention

`prune.rs`: removing expired snapshots and unreferenced object blobs, and
deleting a single snapshot.
-/

namespace GraphqlOrmBackup

open Interaction

structure KeepPolicy where
  keepLast : Nat
  lock : RepositoryLockOptions

structure PruneResult where
  retainedSnapshots : Nat
  deletedSnapshots : Nat
  deletedBlobs : Nat
deriving DecidableEq, Repr

structure DeleteSnapshotResult where
  deletedBlobs : Nat
  retainedSnapshots : Nat
deriving DecidableEq, Repr

/-- `str::strip_prefix` on characters. -/
def stripPrefix (pfx cs : List Char) : Option (List Char) :=
  if pfx <+: cs then some (cs.drop pfx.length) else none

/-- `str::strip_suffix` on characters. -/
def stripSuffix (sfx cs : List Char) : Option (List Char) :=
  if sfx <:+ cs then some (cs.take (cs.length - sfx.length)) else none

theorem stripPrefix_append (pfx cs : List Char) : stripPrefix pfx (pfx ++ cs) = some cs := by
  rw [stripPrefix, if_pos (List.prefix_append _ _), List.drop_left]

theorem stripPrefix_eq_some {pfx cs rest : List Char} :
    stripPrefix pfx cs = some rest ↔ cs = pfx ++ rest := by
  constructor
  · intro h
    unfold stripPrefix at h
    split at h
    · rw [← Option.some.inj h]
      exact (List.prefix_iff_eq_append.mp ‹_›).symm
    · contradiction
  · intro h
    rw [h, stripPrefix_append]

theorem stripSuffix_append (sfx cs : List Char) : stripSuffix sfx (cs ++ sfx) = some cs := by
  rw [stripSuffix, if_pos (List.suffix_append _ _), List.length_append, Nat.add_sub_cancel,
    List.take_left]

theorem stripSuffix_eq_some {sfx cs rest : List Char} :
    stripSuffix sfx cs = some rest ↔ cs = rest ++ sfx := by
  constructor
  · intro h
    unfold stripSuffix at h
    split at h
    · rw [← Option.some.inj h]
      exact (List.suffix_iff_eq_append.mp ‹_›).symm
    · contradiction
  · intro h
    rw [h, stripSuffix_append]

def snapshotIdFromManifestKey (key : String) : Option Uuid := do
  let rest ← stripPrefix "snapshots/".toList key.toList
  let snapshotId ← stripSuffix "/manifest.json".toList rest
  if '/' ∈ snapshotId then none else Uuid.parseStr snapshotId

/-- A manifest key has the name of a directory between its two ends, and this
    name is read as a UUID. -/
theorem snapshotIdFromManifestKey_eq_some {key : String} {id : Uuid} :
    snapshotIdFromManifestKey key = some id ↔ ∃ name, '/' ∉ name ∧ Uuid.parseStr name = some id ∧
      key.toList = "snapshots/".toList ++ (name ++ "/manifest.json".toList) := by
  rw [snapshotIdFromManifestKey]
  constructor
  · intro h
    rcases Option.bind_eq_some_iff.mp h with ⟨rest, hrest, h⟩
    rcases Option.bind_eq_some_iff.mp h with ⟨name, hname, h⟩
    rw [stripPrefix_eq_some] at hrest
    rw [stripSuffix_eq_some] at hname
    split at h
    · contradiction
    · exact ⟨name, ‹_›, h, by rw [hrest, hname]⟩
  · intro h
    rcases h with ⟨name, hslash, hparse, hkey⟩
    rw [hkey, stripPrefix_append]
    change (stripSuffix _ _).bind _ = _
    rw [stripSuffix_append]
    change (if '/' ∈ name then none else Uuid.parseStr name) = some id
    rw [if_neg hslash, hparse]

theorem snapshotIdFromManifestKey_snapshotManifestKey (id : Uuid) :
    snapshotIdFromManifestKey (snapshotManifestKey id) = some id :=
  snapshotIdFromManifestKey_eq_some.mpr ⟨id.toChars, Uuid.slash_notMem_toChars id,
    Uuid.parseStr_toChars id, toList_snapshotManifestKey id⟩

/-- The content keys a manifest references. -/
def collectReachableKeys (manifest : BackupSnapshotManifest) : List String :=
  manifest.database.tables.map (·.contentKey) ++ manifest.database.changes.map (·.contentKey) ++
    manifest.objects.map (·.contentKey)

/-- The order in which a `HashSet` of ids is iterated. -/
structure HashOrder where
  iterate : List Uuid → List Uuid
  perm : ∀ ids, (iterate ids).Perm ids

/-- Newest first; ties by snapshot id, larger first. -/
def newerFirst (left right : BackupSnapshotManifest) : Bool :=
  right.createdAt < left.createdAt ∨
    (right.createdAt = left.createdAt ∧ right.snapshotId.ordKey ≤ left.snapshotId.ordKey)

section Codec

variable [Crates]

def loadAllManifests : BackupM (List BackupSnapshotManifest) := do
  let keys ← listBlobs "snapshots"
  (keys.filterMap snapshotIdFromManifestKey).mapM' fun snapshotId =>
    read fun s => loadManifest s snapshotId

/-- Delete blobs one after the other; the number of blobs deleted. -/
def deleteBlobs (keys : List String) : BackupM Nat := do
  forM keys deleteBlob
  pure keys.length

/-- Delete everything under `snapshots/{id}`. -/
def deleteSnapshotBlobs (snapshotId : Uuid) : BackupM Nat := do
  let keys ← listBlobs (snapshotPrefix snapshotId)
  deleteBlobs keys

/-- Delete the object blobs that are not reachable. -/
def deleteUnreachable (reachableContentKeys : List String) : BackupM Nat := do
  let keys ← listBlobs "objects/sha256"
  deleteBlobs (keys.filter fun key => key ∉ reachableContentKeys)

def pruneInner (order : HashOrder) (keepPolicy : KeepPolicy) : BackupM PruneResult := do
  let manifests := (← loadAllManifests).mergeSort newerFirst
  let selected := (manifests.take keepPolicy.keepLast).map (·.snapshotId)
  let chains ← selected.mapM' fun snapshotId => read fun s => loadManifestChain s snapshotId
  let retainedIds := (chains.flatten.map (·.snapshotId)).dedup
  let reachableContentKeys := chains.flatten.flatMap collectReachableKeys
  let allIds := (manifests.map (·.snapshotId)).dedup
  let expiredIds := order.iterate (allIds.filter fun id => id ∉ retainedIds)
  let snapshotBlobs ← expiredIds.mapM' deleteSnapshotBlobs
  let objectBlobs ← deleteUnreachable reachableContentKeys
  pure {
    retainedSnapshots := retainedIds.length
    deletedSnapshots := expiredIds.length
    deletedBlobs := snapshotBlobs.sum + objectBlobs }

def prune (order : HashOrder) (keepPolicy : KeepPolicy) : BackupM PruneResult :=
  withLock keepPolicy.lock (pruneInner order keepPolicy)

def deleteSnapshotInner (snapshotId : Uuid) : BackupM DeleteSnapshotResult := do
  let manifests ← loadAllManifests
  if manifests.all fun manifest => manifest.snapshotId ≠ snapshotId then
    throw (.missingBlob (snapshotManifestKey snapshotId))
  else
    match manifests.find? fun manifest => manifest.parentSnapshotId = some snapshotId with
    | some child => throw (.invalidManifestChain ("snapshot " ++ toString snapshotId ++
        " is the parent of snapshot " ++ toString child.snapshotId ++
        "; delete or compact dependent snapshots first"))
    | none => do
      let snapshotBlobs ← deleteSnapshotBlobs snapshotId
      let others := manifests.filter fun manifest => manifest.snapshotId ≠ snapshotId
      let objectBlobs ← deleteUnreachable (others.flatMap collectReachableKeys)
      pure {
        deletedBlobs := snapshotBlobs + objectBlobs
        retainedSnapshots := manifests.length - 1 }

def deleteSnapshot (snapshotId : Uuid) (lockOptions : RepositoryLockOptions) :
    BackupM DeleteSnapshotResult :=
  withLock lockOptions (deleteSnapshotInner snapshotId)

end Codec

end GraphqlOrmBackup
