import GraphqlOrmBackup.Chain
import GraphqlOrmBackup.Interaction.Outcome

/-!
# Verification

`verify.rs`: the checksums of a manifest and of every blob it references.
-/

namespace GraphqlOrmBackup

open Interaction

variable [Crates]

/-- For each batch of concurrent checks, the positions in the order in which
    they complete.  The bound on the concurrency only limits which orders can
    occur, and the results below hold for all. -/
abbrev CompletionOrder := List (String × String) → List Nat

/-- `try_collect` over checks that only read: the first failure in the order of
    completion.  Checks that `order` leaves out complete last. -/
def tryCollectChecks (order : List Nat) (checks : List (Except BackupError Unit)) :
    Except BackupError Unit :=
  forM (order.filterMap (checks[·]?) ++ checks) id

def verifyBlobChecksum (s : Store) (contentKey expectedSha256Hex : String) :
    Except BackupError Unit := do
  let body ← s.getBlob contentKey
  let actual := sha256Hex body
  if actual ≠ expectedSha256Hex then
    throw (.checksumMismatch contentKey expectedSha256Hex actual)

def BackupSnapshotManifest.objectChecks (manifest : BackupSnapshotManifest) :
    List (String × String) :=
  manifest.objects.map fun object => (object.contentKey, object.sha256Hex)

def BackupSnapshotManifest.entryChecks (manifest : BackupSnapshotManifest) :
    List (String × String) :=
  (manifest.database.tables ++ manifest.database.changes).map fun entry =>
    (entry.contentKey, entry.sha256Hex)

/-- One `buffer_unordered` stream of checks. -/
def verifyChecks (order : CompletionOrder) (s : Store) (checks : List (String × String)) :
    Except BackupError Unit :=
  tryCollectChecks (order checks) (checks.map fun check => verifyBlobChecksum s check.1 check.2)

def verifyObjectChecksums (order : CompletionOrder) (s : Store)
    (manifest : BackupSnapshotManifest) : Except BackupError Unit := do
  verifyChecks order s manifest.objectChecks
  verifyChecks order s manifest.entryChecks

def verifyManifestAndObjects (order : CompletionOrder) (s : Store)
    (manifest : BackupSnapshotManifest) : Except BackupError Unit := do
  verifyManifestChecksum manifest
  verifyObjectChecksums order s manifest

/-! ## What verification means -/

/-- The keys and checksums of all blobs a manifest references. -/
def BackupSnapshotManifest.references (manifest : BackupSnapshotManifest) :
    List (String × String) :=
  manifest.objectChecks ++ manifest.entryChecks

/-- The blob at `key` is stored and has the checksum `sha`. -/
def HoldsBlob (s : Store) (key sha : String) : Prop :=
  ∃ body, s.lookup key = some body ∧ sha256Hex body = sha

/-- All blobs the manifest references are in place. -/
def HoldsBlobs (s : Store) (manifest : BackupSnapshotManifest) : Prop :=
  ∀ ref ∈ manifest.references, HoldsBlob s ref.1 ref.2

omit [Crates] in
/-- The outcome is a success under every order of completion, or under none. -/
theorem tryCollectChecks_eq_ok (order : List Nat) (checks : List (Except BackupError Unit)) :
    tryCollectChecks order checks = .ok () ↔ ∀ check ∈ checks, check = .ok () := by
  rw [tryCollectChecks, forM_eq_ok]
  simp only [id]
  constructor
  · intro h check hmem
    exact h check (List.mem_append.mpr (Or.inr hmem))
  · intro h check hmem
    rcases List.mem_append.mp hmem with hmem | hmem
    · rcases List.mem_filterMap.mp hmem with ⟨i, _, hi⟩
      exact h check (List.mem_of_getElem? hi)
    · exact h check hmem

theorem verifyBlobChecksum_eq_ok {s : Store} {key sha : String} :
    verifyBlobChecksum s key sha = .ok () ↔ HoldsBlob s key sha := by
  simp only [verifyBlobChecksum, HoldsBlob, bind_eq_ok, Store.getBlob_eq_ok]
  refine exists_congr fun body => and_congr_right fun _ => ?_
  by_cases h : sha256Hex body = sha <;> simp [h, pure_eq_ok, throw_ne_ok]

theorem verifyChecks_eq_ok {order : CompletionOrder} {s : Store}
    {checks : List (String × String)} :
    verifyChecks order s checks = .ok () ↔ ∀ check ∈ checks, HoldsBlob s check.1 check.2 := by
  rw [verifyChecks, tryCollectChecks_eq_ok, List.forall_mem_map]
  simp only [verifyBlobChecksum_eq_ok]

theorem verifyObjectChecksums_eq_ok {order : CompletionOrder} {s : Store}
    {manifest : BackupSnapshotManifest} :
    verifyObjectChecksums order s manifest = .ok () ↔ HoldsBlobs s manifest := by
  rw [verifyObjectChecksums, bind_unit_eq_ok, verifyChecks_eq_ok, verifyChecks_eq_ok]
  simp only [HoldsBlobs, BackupSnapshotManifest.references, List.mem_append]
  exact ⟨fun h c hc => hc.elim (h.1 c) (h.2 c),
    fun h => ⟨fun c hc => h c (Or.inl hc), fun c hc => h c (Or.inr hc)⟩⟩

theorem verifyManifestAndObjects_eq_ok {order : CompletionOrder} {s : Store}
    {manifest : BackupSnapshotManifest} :
    verifyManifestAndObjects order s manifest = .ok () ↔
      verifyManifestChecksum manifest = .ok () ∧ HoldsBlobs s manifest := by
  rw [verifyManifestAndObjects, bind_unit_eq_ok, verifyObjectChecksums_eq_ok]

end GraphqlOrmBackup
