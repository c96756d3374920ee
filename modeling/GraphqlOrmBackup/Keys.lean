import GraphqlOrmBackup.Foreign
import GraphqlOrmBackup.Uuid
import Mathlib.Algebra.GroupWithZero.Nat

/-!
# Repository keys

The key layout of a repository (`backup.rs` and `lock.rs`) and what the parts
of a key tell about it: the snapshot directory a key lies in, and the last
segment of an object key.
-/

namespace GraphqlOrmBackup

def snapshotManifestKey (snapshotId : Uuid) : String :=
  "snapshots/" ++ toString snapshotId ++ "/manifest.json"

def databaseTableKey (snapshotId : Uuid) (tableName : String) : String :=
  "snapshots/" ++ toString snapshotId ++ "/database/tables/" ++ tableName ++ ".jsonl.zst"

def databaseChangesKey (snapshotId : Uuid) (tableName : String) : String :=
  "snapshots/" ++ toString snapshotId ++ "/database/changes/" ++ tableName ++ ".jsonl.zst"

/-- The first `n` UTF-8 bytes of a string and the rest, when byte `n` is a
    character boundary. -/
def splitAtByte : Nat → List Char → Option (List Char × List Char)
  | 0, cs => some ([], cs)
  | _ + 1, [] => none
  | n + 1, c :: cs =>
      if c.utf8Size ≤ n + 1 then do
        let (left, right) ← splitAtByte (n + 1 - c.utf8Size) cs
        some (c :: left, right)
      else none

/-- `str::get(start..stop)`. -/
def strGet (s : String) (start stop : Nat) : Option String := do
  let (_, rest) ← splitAtByte start s.toList
  let (slice, _) ← splitAtByte (stop - start) rest
  some (String.ofList slice)

def objectContentKey (sha256Hex : String) : String :=
  let shardA := (strGet sha256Hex 0 2).getD "00"
  let shardB := (strGet sha256Hex 2 4).getD "00"
  "objects/sha256/" ++ shardA ++ "/" ++ shardB ++ "/" ++ sha256Hex

def repositoryLockKey : String := "locks/repository.lock"

/-- The prefix under which `prune` and `delete_snapshot` list a snapshot. -/
def snapshotPrefix (snapshotId : Uuid) : String := "snapshots/" ++ toString snapshotId

example : objectContentKey "abcdef" = "objects/sha256/ab/cd/abcdef" := by decide
example : objectContentKey "aéd" = "objects/sha256/00/00/aéd" := by decide

/-! ## Prefixes -/

/-- `key.starts_with(pfx)`. -/
def startsWith (key pfx : String) : Bool := pfx.toList.isPrefixOf key.toList

theorem startsWith_iff {key pfx : String} :
    startsWith key pfx = true ↔ pfx.toList <+: key.toList :=
  List.isPrefixOf_iff_prefix

theorem startsWith_of_append {key pfx rest : String} (h : startsWith key (pfx ++ rest) = true) :
    startsWith key pfx = true := by
  rw [startsWith_iff, String.toList_append] at h
  rw [startsWith_iff]
  exact (List.prefix_append _ _).trans h

/-- A key begins with the first character of each of its prefixes. -/
theorem head?_of_startsWith {key pfx : String} {c : Char} (hpfx : pfx.toList.head? = some c)
    (h : startsWith key pfx = true) : key.toList.head? = some c := by
  rw [startsWith_iff] at h
  rcases h with ⟨rest, hrest⟩
  rw [← hrest, List.head?_append, hpfx]
  rfl

/-! ## Snapshot directories -/

/-- The key lies in the directory `snapshots/{id}/`. -/
def InSnapshotDir (snapshotId : Uuid) (key : String) : Prop :=
  startsWith key (snapshotPrefix snapshotId ++ "/") = true

/-- The key lies in the content-addressed store. -/
def InObjectStore (key : String) : Prop := startsWith key "objects/sha256/" = true

/-- Ids have one length, so a listing by `snapshots/{id}` meets no other
    snapshot's directory although the prefix has no trailing slash. -/
theorem InSnapshotDir.id_eq {id id' : Uuid} {key : String} (hdir : InSnapshotDir id key)
    (h : startsWith key (snapshotPrefix id') = true) : id' = id := by
  rw [InSnapshotDir, startsWith_iff] at hdir
  rw [startsWith_iff] at h
  have hpre : (snapshotPrefix id).toList <+: key.toList := by
    rw [String.toList_append] at hdir
    exact (List.prefix_append _ _).trans hdir
  have hlen : (snapshotPrefix id').toList.length = (snapshotPrefix id).toList.length := by
    simp [snapshotPrefix]
  have heq := List.prefix_of_prefix_length_le h hpre (Nat.le_of_eq hlen)
  have hlists := heq.eq_of_length hlen
  simp only [snapshotPrefix, String.toList_append, Uuid.toList_toString] at hlists
  exact Uuid.toChars_injective (List.append_cancel_left hlists)

theorem InSnapshotDir.startsWith_prefix {id : Uuid} {key : String} (h : InSnapshotDir id key) :
    startsWith key (snapshotPrefix id) = true :=
  startsWith_of_append h

theorem InSnapshotDir.unique {id id' : Uuid} {key : String} (h : InSnapshotDir id key)
    (h' : InSnapshotDir id' key) : id' = id :=
  h.id_eq h'.startsWith_prefix

theorem inSnapshotDir_snapshotManifestKey (id : Uuid) :
    InSnapshotDir id (snapshotManifestKey id) := by
  rw [InSnapshotDir, startsWith_iff]
  exact ⟨"manifest.json".toList, by simp [snapshotManifestKey, snapshotPrefix]⟩

/-- Manifests are among the keys that `load_all_manifests` lists. -/
theorem startsWith_snapshotManifestKey (id : Uuid) :
    startsWith (snapshotManifestKey id) "snapshots" = true := by
  rw [startsWith_iff]
  exact ⟨'/' :: id.toChars ++ "/manifest.json".toList, by simp [snapshotManifestKey]⟩

theorem InSnapshotDir.startsWith_snapshots {id : Uuid} {key : String} (h : InSnapshotDir id key) :
    startsWith key "snapshots" = true := by
  have hpfx : "snapshots".toList <+: (snapshotPrefix id).toList :=
    ⟨'/' :: id.toChars, by simp [snapshotPrefix]⟩
  exact startsWith_iff.mpr (hpfx.trans (startsWith_iff.mp h.startsWith_prefix))

theorem inSnapshotDir_databaseTableKey (id : Uuid) (tableName : String) :
    InSnapshotDir id (databaseTableKey id tableName) := by
  rw [InSnapshotDir, startsWith_iff]
  exact ⟨"database/tables/".toList ++ tableName.toList ++ ".jsonl.zst".toList,
    by simp [databaseTableKey, snapshotPrefix]⟩

theorem inSnapshotDir_databaseChangesKey (id : Uuid) (tableName : String) :
    InSnapshotDir id (databaseChangesKey id tableName) := by
  rw [InSnapshotDir, startsWith_iff]
  exact ⟨"database/changes/".toList ++ tableName.toList ++ ".jsonl.zst".toList,
    by simp [databaseChangesKey, snapshotPrefix]⟩

/-! ## Object keys -/

/-- The part of a key after its last slash. -/
def lastSegment (key : String) : String :=
  String.ofList (key.toList.reverse.takeWhile fun c => c ≠ '/').reverse

theorem lastSegment_eq {key seg : String} {pre : List Char}
    (hkey : key.toList = pre ++ '/' :: seg.toList) (hseg : '/' ∉ seg.toList) :
    lastSegment key = seg := by
  have hall : ∀ c ∈ seg.toList.reverse, decide (c ≠ '/') = true := by
    intro c hc
    rw [decide_eq_true_eq]
    rintro rfl
    exact hseg (List.mem_reverse.mp hc)
  rw [lastSegment, hkey, List.reverse_append, List.reverse_cons, List.append_assoc,
    List.takeWhile_append_of_pos hall]
  simp

/-- The characters of a shard directory. -/
def shard (sha : String) (start stop : Nat) : List Char := ((strGet sha start stop).getD "00").toList

theorem toList_objectContentKey (sha : String) :
    (objectContentKey sha).toList = "objects/sha256/".toList ++
      (shard sha 0 2 ++ '/' :: (shard sha 2 4 ++ '/' :: sha.toList)) := by
  have hslash : "/".toList = ['/'] := rfl
  unfold objectContentKey shard
  simp only [String.toList_append, List.append_assoc]
  rw [hslash]
  rfl

theorem inObjectStore_objectContentKey (sha : String) : InObjectStore (objectContentKey sha) := by
  rw [InObjectStore, startsWith_iff, toList_objectContentKey]
  exact List.prefix_append _ _

theorem lastSegment_objectContentKey {sha : String} (h : '/' ∉ sha.toList) :
    lastSegment (objectContentKey sha) = sha := by
  have hkey := toList_objectContentKey sha
  rw [← List.cons_append, ← List.append_assoc, ← List.append_assoc] at hkey
  exact lastSegment_eq hkey h

/-- The length of a string in UTF-8 bytes. -/
def byteLength (cs : List Char) : Nat := (cs.map Char.utf8Size).sum

theorem byteLength_of_splitAtByte {n : Nat} {cs left right : List Char}
    (h : splitAtByte n cs = some (left, right)) : byteLength left = n := by
  fun_induction splitAtByte n cs generalizing left right with
  | case1 cs =>
    obtain ⟨rfl, _⟩ := Prod.mk.inj (Option.some.inj h)
    rfl
  | case2 n => exact absurd h (by simp)
  | case3 n c cs hle ih =>
    rcases Option.bind_eq_some_iff.mp h with ⟨⟨left', right'⟩, hrec, heq⟩
    obtain ⟨rfl, _⟩ := Prod.mk.inj (Option.some.inj heq)
    have hlen := ih hrec
    rw [byteLength] at hlen
    rw [byteLength, List.map_cons, List.sum_cons, hlen]
    omega
  | case4 n c cs hle => exact absurd h (by simp)

theorem byteLength_shard (sha : String) (start : Nat) :
    byteLength (shard sha start (start + 2)) = 2 := by
  rw [shard]
  cases h : strGet sha start (start + 2) with
  | none => decide
  | some slice =>
    rcases Option.bind_eq_some_iff.mp h with ⟨⟨_, rest⟩, _, h⟩
    rcases Option.bind_eq_some_iff.mp h with ⟨⟨left, right⟩, hsplit, heq⟩
    obtain rfl := Option.some.inj heq
    rw [Nat.add_sub_cancel_left] at hsplit
    rw [Option.getD_some, String.toList_ofList]
    exact byteLength_of_splitAtByte hsplit

/-- Parts of equal length in bytes are equal parts. -/
theorem append_inj_of_byteLength {left left' right right' : List Char}
    (hlen : byteLength left = byteLength left') (h : left ++ right = left' ++ right') :
    left = left' ∧ right = right' := by
  induction left generalizing left' with
  | nil =>
    cases left' with
    | nil => exact ⟨rfl, h⟩
    | cons c left' =>
      have hpos := c.utf8Size_pos
      simp [byteLength] at hlen
      omega
  | cons c left ih =>
    cases left' with
    | nil =>
      have hpos := c.utf8Size_pos
      simp [byteLength] at hlen
      omega
    | cons c' left' =>
      obtain ⟨rfl, htail⟩ := List.cons.inj h
      simp only [byteLength, List.map_cons, List.sum_cons, Nat.add_left_cancel_iff] at hlen
      obtain ⟨rfl, rfl⟩ := ih hlen htail
      exact ⟨rfl, rfl⟩

theorem objectContentKey_injective : Function.Injective objectContentKey := by
  intro left right heq
  have h := congrArg String.toList heq
  rw [toList_objectContentKey, toList_objectContentKey, List.append_cancel_left_eq] at h
  obtain ⟨_, h⟩ := append_inj_of_byteLength
    ((byteLength_shard left 0).trans (byteLength_shard right 0).symm) h
  obtain ⟨_, h⟩ := append_inj_of_byteLength
    ((byteLength_shard left 2).trans (byteLength_shard right 2).symm) (List.cons.inj h).2
  exact String.toList_inj.mp (List.cons.inj h).2

/-! ### The areas of a repository are apart -/

theorem head?_snapshotPrefix (id : Uuid) : (snapshotPrefix id).toList.head? = some 's' := by
  rw [snapshotPrefix, String.toList_append]
  rfl

theorem InSnapshotDir.head? {id : Uuid} {key : String} (h : InSnapshotDir id key) :
    key.toList.head? = some 's' :=
  head?_of_startsWith (head?_snapshotPrefix id) h.startsWith_prefix

theorem InObjectStore.head? {key : String} (h : InObjectStore key) :
    key.toList.head? = some 'o' := by
  have hpfx : "objects/sha256/".toList.head? = some 'o' := rfl
  exact head?_of_startsWith hpfx h

theorem InSnapshotDir.not_objects {id : Uuid} {key : String} (h : InSnapshotDir id key) :
    startsWith key "objects/sha256" = false := by
  rw [Bool.eq_false_iff]
  intro h'
  exact absurd (h.head?.symm.trans (head?_of_startsWith rfl h')) (by decide)

theorem InObjectStore.not_snapshots {key : String} (h : InObjectStore key) (id : Uuid) :
    startsWith key (snapshotPrefix id) = false := by
  rw [Bool.eq_false_iff]
  intro h'
  exact absurd (h.head?.symm.trans (head?_of_startsWith (head?_snapshotPrefix id) h')) (by decide)

theorem InObjectStore.startsWith_objects {key : String} (h : InObjectStore key) :
    startsWith key "objects/sha256" = true := by
  have hpfx : "objects/sha256".toList <+: "objects/sha256/".toList := ⟨['/'], by simp⟩
  exact startsWith_iff.mpr (hpfx.trans (startsWith_iff.mp h))

theorem InObjectStore.not_startsWith_snapshots {key : String} (h : InObjectStore key) :
    startsWith key "snapshots" = false := by
  rw [Bool.eq_false_iff]
  intro h'
  exact absurd (h.head?.symm.trans (head?_of_startsWith rfl h')) (by decide)

theorem InSnapshotDir.ne_lock {id : Uuid} {key : String} (h : InSnapshotDir id key) :
    key ≠ repositoryLockKey := by
  rintro rfl
  exact absurd h.head? (by decide)

theorem InObjectStore.ne_lock {key : String} (h : InObjectStore key) :
    key ≠ repositoryLockKey := by
  rintro rfl
  exact absurd h.head? (by decide)

theorem snapshotManifestKey_injective : Function.Injective snapshotManifestKey := by
  intro left right heq
  have hright := inSnapshotDir_snapshotManifestKey right
  rw [← heq] at hright
  exact hright.unique (inSnapshotDir_snapshotManifestKey left)

theorem InObjectStore.not_inSnapshotDir {key : String} (h : InObjectStore key) (id : Uuid) :
    ¬ InSnapshotDir id key := fun hdir =>
  Bool.false_ne_true ((h.not_snapshots id).symm.trans hdir.startsWith_prefix)

/-! ### The files of a snapshot are apart -/

/-- Payload keys of one directory name different tables. -/
theorem payloadKey_injective (dir : String) :
    Function.Injective fun tableName => dir ++ tableName ++ ".jsonl.zst" := by
  intro name name' heq
  have h := congrArg String.toList heq
  simp only [String.toList_append] at h
  exact String.toList_inj.mp (List.append_cancel_left (List.append_cancel_right h))

theorem databaseTableKey_injective (id : Uuid) : Function.Injective (databaseTableKey id) :=
  payloadKey_injective _

theorem databaseChangesKey_injective (id : Uuid) : Function.Injective (databaseChangesKey id) :=
  payloadKey_injective _

section Files

variable (id : Uuid) (tableName : String)

theorem toList_snapshotManifestKey : (snapshotManifestKey id).toList =
    "snapshots/".toList ++ (id.toChars ++ "/manifest.json".toList) := by
  simp [snapshotManifestKey]

theorem toList_databaseTableKey : (databaseTableKey id tableName).toList =
    "snapshots/".toList ++ (id.toChars ++
      ("/database/tables/".toList ++ (tableName.toList ++ ".jsonl.zst".toList))) := by
  simp [databaseTableKey]

theorem toList_databaseChangesKey : (databaseChangesKey id tableName).toList =
    "snapshots/".toList ++ (id.toChars ++
      ("/database/changes/".toList ++ (tableName.toList ++ ".jsonl.zst".toList))) := by
  simp [databaseChangesKey]

variable {id} in
/-- Files of a snapshot whose names differ in one character are different. -/
theorem ne_of_getElem?_ne {key key' : String} {file file' : List Char} (n : Nat)
    (hkey : key.toList = "snapshots/".toList ++ (id.toChars ++ file))
    (hkey' : key'.toList = "snapshots/".toList ++ (id.toChars ++ file'))
    (hne : file[n]? ≠ file'[n]?) : key ≠ key' := by
  rintro rfl
  have hfile := List.append_cancel_left (List.append_cancel_left (hkey.symm.trans hkey'))
  rw [hfile] at hne
  exact hne rfl

theorem databaseTableKey_ne_snapshotManifestKey :
    databaseTableKey id tableName ≠ snapshotManifestKey id :=
  ne_of_getElem?_ne 1 (toList_databaseTableKey _ _) (toList_snapshotManifestKey _) (by simp)

theorem databaseChangesKey_ne_snapshotManifestKey :
    databaseChangesKey id tableName ≠ snapshotManifestKey id :=
  ne_of_getElem?_ne 1 (toList_databaseChangesKey _ _) (toList_snapshotManifestKey _) (by simp)

theorem databaseChangesKey_ne_databaseTableKey (tableName' : String) :
    databaseChangesKey id tableName ≠ databaseTableKey id tableName' :=
  ne_of_getElem?_ne 10 (toList_databaseChangesKey _ _) (toList_databaseTableKey _ _) (by simp)

end Files

/-- A payload key is the manifest key of no snapshot. -/
theorem InSnapshotDir.ne_snapshotManifestKey {id : Uuid} {key : String} (h : InSnapshotDir id key)
    (hne : key ≠ snapshotManifestKey id) (id' : Uuid) : key ≠ snapshotManifestKey id' := by
  rintro rfl
  rw [(inSnapshotDir_snapshotManifestKey id').unique h] at hne
  exact hne rfl

/-! ## The layout as a whole -/

/-- A blob of a repository, with the arguments of the function that names it. -/
inductive RepositoryBlob where
  | manifest (snapshotId : Uuid)
  | table (snapshotId : Uuid) (tableName : String)
  | changes (snapshotId : Uuid) (tableName : String)
  | object (sha256Hex : String)
  | lock
deriving DecidableEq

namespace RepositoryBlob

def key : RepositoryBlob → String
  | manifest snapshotId => snapshotManifestKey snapshotId
  | table snapshotId tableName => databaseTableKey snapshotId tableName
  | changes snapshotId tableName => databaseChangesKey snapshotId tableName
  | object sha256Hex => objectContentKey sha256Hex
  | lock => repositoryLockKey

/-- The snapshot a blob belongs to. -/
def owner : RepositoryBlob → Option Uuid
  | manifest snapshotId => some snapshotId
  | table snapshotId _ => some snapshotId
  | changes snapshotId _ => some snapshotId
  | object _ => none
  | lock => none

variable {blob blob' : RepositoryBlob} {id : Uuid}

theorem inSnapshotDir_key (h : blob.owner = some id) : InSnapshotDir id blob.key := by
  cases blob with
  | manifest snapshotId =>
    obtain rfl := Option.some.inj h
    exact inSnapshotDir_snapshotManifestKey _
  | table snapshotId tableName =>
    obtain rfl := Option.some.inj h
    exact inSnapshotDir_databaseTableKey _ _
  | changes snapshotId tableName =>
    obtain rfl := Option.some.inj h
    exact inSnapshotDir_databaseChangesKey _ _
  | object sha256Hex => cases h
  | lock => cases h

/-- A listing by `snapshots/{id}` meets the blobs of that snapshot and no others. -/
theorem startsWith_key_iff :
    startsWith blob.key (snapshotPrefix id) = true ↔ blob.owner = some id := by
  refine ⟨fun hstarts => ?_, fun h => InSnapshotDir.startsWith_prefix (inSnapshotDir_key h)⟩
  cases howner : blob.owner with
  | some id' => rw [(inSnapshotDir_key howner).id_eq hstarts]
  | none =>
    cases blob with
    | object sha256Hex =>
      have hnot := (inObjectStore_objectContentKey sha256Hex).not_snapshots id
      exact absurd (hstarts.symm.trans hnot) (by decide)
    | lock =>
      have hhead := head?_of_startsWith (head?_snapshotPrefix id) hstarts
      exact absurd hhead (by decide)
    | _ => cases howner

theorem owner_eq (h : blob.key = blob'.key) : blob.owner = blob'.owner := by
  cases howner : blob.owner with
  | some id =>
    have hstarts := startsWith_key_iff.mpr howner
    rw [h] at hstarts
    exact (startsWith_key_iff.mp hstarts).symm
  | none =>
    cases howner' : blob'.owner with
    | none => rfl
    | some id =>
      have hstarts := startsWith_key_iff.mpr howner'
      rw [← h] at hstarts
      exact howner.symm.trans (startsWith_key_iff.mp hstarts)

theorem key_injective : Function.Injective key := by
  intro blob blob' heq
  have howner := owner_eq heq
  cases blob with
  | manifest id =>
    cases blob' with
    | manifest id' => rw [snapshotManifestKey_injective heq]
    | table id' name' =>
      obtain rfl := Option.some.inj howner
      exact absurd heq.symm (databaseTableKey_ne_snapshotManifestKey _ _)
    | changes id' name' =>
      obtain rfl := Option.some.inj howner
      exact absurd heq.symm (databaseChangesKey_ne_snapshotManifestKey _ _)
    | _ => cases howner
  | table id name =>
    cases blob' with
    | manifest id' =>
      obtain rfl := Option.some.inj howner
      exact absurd heq (databaseTableKey_ne_snapshotManifestKey _ _)
    | table id' name' =>
      obtain rfl := Option.some.inj howner
      rw [databaseTableKey_injective _ heq]
    | changes id' name' =>
      obtain rfl := Option.some.inj howner
      exact absurd heq.symm (databaseChangesKey_ne_databaseTableKey _ _ _)
    | _ => cases howner
  | changes id name =>
    cases blob' with
    | manifest id' =>
      obtain rfl := Option.some.inj howner
      exact absurd heq (databaseChangesKey_ne_snapshotManifestKey _ _)
    | table id' name' =>
      obtain rfl := Option.some.inj howner
      exact absurd heq (databaseChangesKey_ne_databaseTableKey _ _ _)
    | changes id' name' =>
      obtain rfl := Option.some.inj howner
      rw [databaseChangesKey_injective _ heq]
    | _ => cases howner
  | object sha256Hex =>
    cases blob' with
    | object sha256Hex' => rw [objectContentKey_injective heq]
    | lock => exact absurd heq (inObjectStore_objectContentKey sha256Hex).ne_lock
    | _ => cases howner
  | lock =>
    cases blob' with
    | object sha256Hex' => exact absurd heq.symm (inObjectStore_objectContentKey sha256Hex').ne_lock
    | lock => rfl
    | _ => cases howner

end RepositoryBlob

/-- **The key layout.**  Two blobs have one key only if they are named by one
    function with the same arguments, and the prefix under which a snapshot is
    listed and deleted is that of its own blobs and of no others. -/
theorem repository_keys_are_apart :
    Function.Injective RepositoryBlob.key ∧
    ∀ (blob : RepositoryBlob) (id : Uuid),
      startsWith blob.key (snapshotPrefix id) = true ↔ blob.owner = some id :=
  ⟨RepositoryBlob.key_injective, fun _ _ => RepositoryBlob.startsWith_key_iff⟩

end GraphqlOrmBackup
