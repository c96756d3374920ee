import GraphqlOrmBackup.Repository
import GraphqlOrmBackup.Crates

/-!
# Manifest chains

The functions of `manifest.rs`: the manifest checksum, loading a manifest and
its chain, and the validation of a chain.
-/

namespace GraphqlOrmBackup

/-- `manifest_key`, the reader's own copy of `snapshot_manifest_key`. -/
def manifestKey (snapshotId : Uuid) : String :=
  "snapshots/" ++ toString snapshotId ++ "/manifest.json"

theorem manifestKey_injective : Function.Injective manifestKey :=
  snapshotManifestKey_injective

section Codec

variable [Crates]

def manifestChecksum (manifest : BackupSnapshotManifest) : Except BackupError String := do
  let canonical := ChecksumManifestView.from manifest
  let bytes ← (SerializeJson.toVec canonical).mapError .serialization
  pure (sha256Hex bytes)

def setManifestChecksum (manifest : BackupSnapshotManifest) :
    Except BackupError BackupSnapshotManifest := do
  let checksum ← manifestChecksum manifest
  pure { manifest with checksum }

def verifyManifestChecksum (manifest : BackupSnapshotManifest) : Except BackupError Unit := do
  let actual ← manifestChecksum manifest
  if actual = manifest.checksum then
    pure ()
  else
    throw (.checksumMismatch ("snapshots/" ++ toString manifest.snapshotId ++ "/manifest.json")
      manifest.checksum actual)

def loadManifest (s : Store) (snapshotId : Uuid) : Except BackupError BackupSnapshotManifest := do
  let bytes ← s.getBlob (manifestKey snapshotId)
  let manifest ← (DeserializeJson.fromSlice bytes).mapError .serialization
  verifyManifestChecksum manifest
  pure manifest

end Codec

/-! ## Chain validation -/

def invalidChain (reason : String) : Except BackupError α := throw (.invalidManifestChain reason)

/-- The loop over `chain.windows(2)`: `parent` is the manifest before `chain`
    and `seen` the set of ids met so far. -/
def validatePairs (seen : List Uuid) (parent : BackupSnapshotManifest) :
    List BackupSnapshotManifest → Except BackupError Unit
  | [] => pure ()
  | child :: rest =>
      if child.snapshotId ∈ seen then
        invalidChain ("duplicate snapshot id " ++ toString child.snapshotId)
      else if child.parentSnapshotId ≠ some parent.snapshotId then
        invalidChain ("snapshot " ++ toString child.snapshotId ++
          " does not reference expected parent " ++ toString parent.snapshotId)
      else if child.appId ≠ parent.appId then
        invalidChain ("snapshot " ++ toString child.snapshotId ++
          " app_id does not match parent " ++ toString parent.snapshotId)
      else if child.databaseBackend ≠ parent.databaseBackend then
        invalidChain ("snapshot " ++ toString child.snapshotId ++
          " database backend does not match parent " ++ toString parent.snapshotId)
      else if child.graphqlOrmSchemaHash ≠ parent.graphqlOrmSchemaHash then
        invalidChain ("snapshot " ++ toString child.snapshotId ++
          " schema hash does not match parent " ++ toString parent.snapshotId)
      else
        validatePairs (child.snapshotId :: seen) child rest

def validateManifestChain : List BackupSnapshotManifest → Except BackupError Unit
  | [] => invalidChain "manifest chain is empty"
  | first :: rest =>
      if first.backupKind ≠ .full ∧ first.backupKind ≠ .syntheticFull then
        invalidChain "manifest chain does not start with a full or synthetic-full snapshot"
      else if first.parentSnapshotId ≠ none then
        invalidChain "root full snapshot must not have a parent"
      else
        validatePairs [first.snapshotId] first rest

/-! ## Loading a chain -/

section Codec

variable [Crates]

/-- The stored keys that are not the manifest of a snapshot seen so far. -/
def unseenKeys (s : Store) (seen : List Uuid) : List String :=
  s.keys.filter fun key => decide (key ∉ seen.map manifestKey)

theorem lookup_of_loadManifest {s : Store} {id : Uuid} {manifest : BackupSnapshotManifest}
    (h : loadManifest s id = .ok manifest) : manifestKey id ∈ s := by
  cases hlookup : s.lookup (manifestKey id) with
  | none => simp [loadManifest, Store.getBlob, hlookup, bind, Except.bind] at h
  | some body => exact Store.mem_of_lookup hlookup

theorem unseenKeys_lt {s : Store} {seen : List Uuid} {id : Uuid}
    {manifest : BackupSnapshotManifest} (hseen : id ∉ seen)
    (h : loadManifest s id = .ok manifest) :
    (unseenKeys s (id :: seen)).length < (unseenKeys s seen).length := by
  have hkey : manifestKey id ∈ unseenKeys s seen := by
    simp only [unseenKeys, List.mem_filter, decide_eq_true_eq]
    refine ⟨lookup_of_loadManifest h, fun hmem => ?_⟩
    rcases List.mem_map.mp hmem with ⟨id', hid', heq⟩
    exact hseen (manifestKey_injective heq ▸ hid')
  have hfilter : unseenKeys s (id :: seen) =
      (unseenKeys s seen).filter fun key => decide (key ≠ manifestKey id) := by
    simp only [unseenKeys, List.filter_filter]
    refine List.filter_congr fun key _ => ?_
    simp [not_or]
  rw [hfilter]
  exact List.length_filter_lt_length_iff_exists.mpr ⟨_, hkey, by simp⟩

/-- The loop of `load_manifest_chain`.  `seen` holds the ids asked for so far
    and `chain` the manifests read so far, oldest first: the source pushes them
    newest first and reverses the list after the loop.  The loop ends because
    each round reads a stored manifest that was not read before. -/
def loadManifestChainLoop (s : Store) (seen : List Uuid) (chain : List BackupSnapshotManifest)
    (currentSnapshotId : Uuid) : Except BackupError (List BackupSnapshotManifest) :=
  if _ : currentSnapshotId ∈ seen then
    invalidChain ("duplicate snapshot id " ++ toString currentSnapshotId)
  else
    match _ : loadManifest s currentSnapshotId with
    | .error e => .error e
    | .ok manifest =>
        match manifest.parentSnapshotId with
        | none => .ok (manifest :: chain)
        | some next =>
            loadManifestChainLoop s (currentSnapshotId :: seen) (manifest :: chain) next
termination_by (unseenKeys s seen).length
decreasing_by exact unseenKeys_lt ‹_› ‹_›

def loadManifestChain (s : Store) (snapshotId : Uuid) :
    Except BackupError (List BackupSnapshotManifest) := do
  let chain ← loadManifestChainLoop s [] [] snapshotId
  validateManifestChain chain
  pure chain

end Codec

end GraphqlOrmBackup
