import GraphqlOrmBackup.Backup
import GraphqlOrmBackup.Environment

/-!
# Object restore

`restore_objects` of `restore.rs` with the sink `BlobStoreRestoreObjectSink`.
The checksum of an object is accumulated while the sink reads the stream, so it
is compared after the blob has been written to the primary store: a corrupted
backup blob has replaced the object by the time it is reported.
-/

namespace GraphqlOrmBackup

open Interaction

def objectRefFromEntry (entry : ObjectBackupEntry) : BackupObjectRef where
  objectId := entry.objectId
  storageKey := entry.storageKey
  sha256Hex := entry.sha256Hex
  sizeBytes := entry.sizeBytes
  mimeType := entry.mimeType

/-! ## The repository and the sink -/

inductive ObjectRestoreCall where
  | getBlobStream (key : String)
  | restoreObjectStream (object : BackupObjectRef) (body : StorageByteStream)

def ObjectRestoreCall.Result : ObjectRestoreCall → Type
  | .getBlobStream _ => StorageByteStream
  | .restoreObjectStream _ _ => Unit

def ObjectRestoreCall.Response (c : ObjectRestoreCall) : Type := Except BackupError c.Result

abbrev ObjectRestoreM (α : Type) := Fallible ObjectRestoreCall.Response BackupError α

def getBlobStream (key : String) : ObjectRestoreM StorageByteStream :=
  ExceptT.mk (Prog.perform (ObjectRestoreCall.getBlobStream key))

def restoreObjectStream (object : BackupObjectRef) (body : StorageByteStream) :
    ObjectRestoreM Unit :=
  ExceptT.mk (Prog.perform (ObjectRestoreCall.restoreObjectStream object body))

/-- The repository may fail to load a blob, or to yield it to its end. -/
def LoadsBlobStream (repository : Store) (key : String) : Except BackupError StorageByteStream → Prop
  | .ok (.ok bytes) => repository.lookup key = some bytes
  | .ok (.error _) => True
  | .error _ => True

/-- `BlobStoreRestoreObjectSink`: the blob is put at the object's storage key.
    The put may fail, before or after it has taken effect; a stream that breaks
    off writes nothing. -/
def SinkPuts (object : BackupObjectRef) (primary : Store) :
    StorageByteStream → Except BackupError Unit → Store → Prop
  | .ok bytes, .ok (), primary' => primary' = primary.putBlob object.storageKey bytes
  | .ok bytes, .error _, primary' =>
      primary' = primary ∨ primary' = primary.putBlob object.storageKey bytes
  | .error _, .ok (), _ => False
  | .error _, .error _, primary' => primary' = primary

/-- The state is the primary store; the repository does not change. -/
def ObjectRestoreCall.Answers (repository : Store) :
    (c : ObjectRestoreCall) → Store → c.Response → Store → Prop
  | .getBlobStream key, primary, r, primary' =>
      LoadsBlobStream repository key r ∧ primary' = primary
  | .restoreObjectStream object body, primary, r, primary' => SinkPuts object primary body r primary'

theorem returns_getBlobStream {repository : Store} {object : ObjectBackupEntry} {bytes : Bytes}
    (hload : repository.lookup object.contentKey = some bytes) (s : Store) :
    Returns (ObjectRestoreCall.Answers repository) s
      (getBlobStream object.contentKey).run (.ok (.ok bytes)) s := by
  have hcall : ObjectRestoreCall.Answers repository (.getBlobStream object.contentKey) s
      (.ok (.ok bytes)) s := ⟨hload, rfl⟩
  exact Reaches.head hcall (Reaches.refl _ _)

/-- The put takes effect; it may be reported as failed nevertheless. -/
theorem returns_restoreObjectStream {repository : Store} {object : ObjectBackupEntry}
    {bytes : Bytes} (r : Except BackupError Unit) (s : Store) :
    Returns (ObjectRestoreCall.Answers repository) s
      (restoreObjectStream (objectRefFromEntry object) (.ok bytes)).run r
      (s.putBlob object.storageKey bytes) := by
  refine Reaches.head (r := r) ?_ (Reaches.refl _ _)
  cases r with
  | ok written => exact rfl
  | error e => exact Or.inr rfl

section Codec

variable [Crates]

/-- One round of the loop.  The sink has read the whole stream when it returns,
    so the hasher has seen all of its bytes. -/
def restoreObject (object : ObjectBackupEntry) : ObjectRestoreM Unit := do
  let source ← getBlobStream object.contentKey
  restoreObjectStream (objectRefFromEntry object) source
  let actual ← Fallible.ofExcept (hashObjectSource source)
  if actual ≠ object.sha256Hex then
    throw (.checksumMismatch object.contentKey object.sha256Hex actual)
  else
    pure ()

def restoreObjects (manifest : BackupSnapshotManifest) : ObjectRestoreM Unit :=
  forM manifest.objects restoreObject

/-! ## Containment -/

/-- At every entry's storage key the primary store is unchanged, or holds bytes
    with the entry's checksum. -/
def Contained (objects : List ObjectBackupEntry) (before after : Store) : Prop :=
  ∀ object ∈ objects, after.lookup object.storageKey = before.lookup object.storageKey ∨
    ∃ bytes, after.lookup object.storageKey = some bytes ∧ sha256Hex bytes = object.sha256Hex

/-- The backup blob of the entry is there and has the entry's checksum. -/
def IntactObject (repository : Store) (object : ObjectBackupEntry) : Prop :=
  ∃ bytes, repository.lookup object.contentKey = some bytes ∧ sha256Hex bytes = object.sha256Hex

/-- Up to the first entry that is not intact, a backup blob that is there is what
    the primary store holds at the storage key already, or has the checksum of
    every entry with that storage key. -/
def HarmlessUpToFirstDamage (repository primary : Store) (objects : List ObjectBackupEntry) : Prop :=
  ∀ pre object post bytes, objects = pre ++ object :: post →
    (∀ earlier ∈ pre, IntactObject repository earlier) →
    repository.lookup object.contentKey = some bytes →
    primary.lookup object.storageKey = some bytes ∨
      ∀ other ∈ objects, other.storageKey = object.storageKey → sha256Hex bytes = other.sha256Hex

section Rounds

variable {repository primary s : Store} {objects pre post : List ObjectBackupEntry}
  {object : ObjectBackupEntry} {bytes : Bytes}

theorem Contained.refl (objects : List ObjectBackupEntry) (s : Store) : Contained objects s s :=
  fun _ _ => Or.inl rfl

/-- Writing a blob that is harmless keeps the primary store contained. -/
theorem Contained.putBlob (h : Contained objects primary s)
    (hharmless : primary.lookup object.storageKey = some bytes ∨
      ∀ other ∈ objects, other.storageKey = object.storageKey →
        sha256Hex bytes = other.sha256Hex) :
    Contained objects primary (s.putBlob object.storageKey bytes) := by
  intro other hother
  by_cases hkey : other.storageKey = object.storageKey
  · rw [hkey, Store.lookup_putBlob_self]
    rcases hharmless with hsame | hchecksum
    · exact Or.inl hsame.symm
    · exact Or.inr ⟨bytes, rfl, hchecksum other hother hkey⟩
  · rw [Store.lookup_putBlob_of_ne _ _ hkey]
    exact h other hother

/-- One round: the primary store stays contained wherever it stops, and when it
    returns the entry was intact. -/
theorem wpE_restoreObject (hs : Contained objects primary s)
    (hharmless : ∀ bytes, repository.lookup object.contentKey = some bytes →
      primary.lookup object.storageKey = some bytes ∨
        ∀ other ∈ objects, other.storageKey = object.storageKey →
          sha256Hex bytes = other.sha256Hex) :
    wpE (ObjectRestoreCall.Answers repository) (Contained objects primary) (restoreObject object)
      (fun _ _ => IntactObject repository object) (fun _ _ => True) s := by
  apply And.intro hs
  intro r s₁ hload
  rcases hload with ⟨hload, rfl⟩
  cases r with
  | error e => exact ⟨hs, trivial⟩
  | ok source =>
    apply And.intro hs
    intro r s₂ hput
    cases source with
    | error e =>
      cases r with
      | error e' =>
        obtain rfl : s₂ = s₁ := hput
        exact ⟨hs, trivial⟩
      | ok written => exact absurd hput id
    | ok bytes =>
      have hput' := hs.putBlob (hharmless bytes hload)
      cases r with
      | error e' =>
        rcases hput with rfl | rfl
        · exact ⟨hs, trivial⟩
        · exact ⟨hput', trivial⟩
      | ok written =>
        obtain rfl : s₂ = s₁.putBlob object.storageKey bytes := hput
        change wpE _ _ (if sha256Hex bytes ≠ object.sha256Hex then _ else _) _ _ _
        split
        · exact ⟨hput', trivial⟩
        · exact ⟨hput', bytes, hload, not_not.mp ‹_›⟩

/-- **Containment.**  Under the condition the primary store is contained wherever
    the restore stops. -/
theorem wpE_restoreObjects (h : HarmlessUpToFirstDamage repository primary objects) :
    wpE (ObjectRestoreCall.Answers repository) (Contained objects primary)
      (forM objects restoreObject) (fun _ _ => True) (fun _ _ => True) primary := by
  -- the entries that have been restored were intact
  have hloop : wpE (ObjectRestoreCall.Answers repository) (Contained objects primary)
      (forM objects restoreObject)
      (fun _ _ => ∃ pre, pre ++ [] = objects ∧ ∀ earlier ∈ pre, IntactObject repository earlier)
      (fun _ _ => True) primary := by
    apply wpE_forM (P := fun rest _ => ∃ pre, pre ++ rest = objects ∧
      ∀ earlier ∈ pre, IntactObject repository earlier) objects
    · exact ⟨[], rfl, by simp⟩
    · exact Contained.refl objects primary
    · intro object rest s _ hs hrestored
      rcases hrestored with ⟨pre, hobjects, hpre⟩
      have hharmless := fun bytes => h pre object rest bytes hobjects.symm hpre
      refine (wpE_restoreObject hs hharmless).mono ?_ (fun _ _ _ _ => trivial)
      intro _ s' _ hintact
      refine ⟨pre ++ [object], by simpa using hobjects, ?_⟩
      intro earlier hmem
      rcases List.mem_append.mp hmem with hmem | hmem
      · exact hpre earlier hmem
      · rw [List.mem_singleton.mp hmem]
        exact hintact
  exact hloop.mono (fun _ _ _ _ => trivial) (fun _ _ _ _ => trivial)

/-! ## Runs that exist -/

theorem returns_restoreObject_of_intact (h : IntactObject repository object) (s : Store) :
    ∃ s', Returns (ObjectRestoreCall.Answers repository) s (restoreObject object).run (.ok ()) s' := by
  rcases h with ⟨bytes, hload, hchecksum⟩
  refine ⟨s.putBlob object.storageKey bytes, ?_⟩
  apply Fallible.returns_bind (returns_getBlobStream hload s)
  apply Fallible.returns_bind (returns_restoreObjectStream (.ok ()) s)
  apply Fallible.returns_bind (Fallible.returns_ofExcept rfl)
  rw [if_neg (not_not_intro hchecksum)]
  exact Reaches.refl _ _

/-- A damaged blob is reported after it has been put. -/
theorem returns_restoreObject_of_damaged (hload : repository.lookup object.contentKey = some bytes)
    (hchecksum : sha256Hex bytes ≠ object.sha256Hex) (s : Store) :
    Returns (ObjectRestoreCall.Answers repository) s (restoreObject object).run
      (.error (.checksumMismatch object.contentKey object.sha256Hex (sha256Hex bytes)))
      (s.putBlob object.storageKey bytes) := by
  apply Fallible.returns_bind (returns_getBlobStream hload s)
  apply Fallible.returns_bind (returns_restoreObjectStream (.ok ()) s)
  apply Fallible.returns_bind (Fallible.returns_ofExcept rfl)
  rw [if_pos hchecksum]
  exact Reaches.refl _ _

theorem returns_restoreObject_of_present (hload : repository.lookup object.contentKey = some bytes)
    (e : BackupError) (s : Store) :
    Returns (ObjectRestoreCall.Answers repository) s (restoreObject object).run (.error e)
      (s.putBlob object.storageKey bytes) := by
  apply Fallible.returns_bind (returns_getBlobStream hload s)
  exact Returns.bind (returns_restoreObjectStream (.error e) s) (Reaches.refl _ _)

/-- Entries before an entry whose blob is there can all be restored, and the
    blob can be written. -/
theorem exists_returns_restoreObjects (hpre : ∀ earlier ∈ pre, IntactObject repository earlier)
    (hload : repository.lookup object.contentKey = some bytes) (e : BackupError) (s : Store) :
    ∃ s', Returns (ObjectRestoreCall.Answers repository) s
        (forM (pre ++ object :: post) restoreObject : ObjectRestoreM Unit).run (.error e) s' ∧
      s'.lookup object.storageKey = some bytes := by
  induction pre generalizing s with
  | nil =>
    refine ⟨s.putBlob object.storageKey bytes, ?_, Store.lookup_putBlob_self _ _ _⟩
    rw [List.nil_append, List.forM_cons]
    exact Returns.bind (returns_restoreObject_of_present hload e s) (Reaches.refl _ _)
  | cons first pre ih =>
    rw [List.forall_mem_cons] at hpre
    obtain ⟨s₁, hfirst⟩ := returns_restoreObject_of_intact hpre.1 s
    obtain ⟨s', hrest, hlookup⟩ := ih hpre.2 s₁
    refine ⟨s', ?_, hlookup⟩
    rw [List.cons_append, List.forM_cons]
    exact Fallible.returns_bind hfirst hrest

end Rounds

/-- **Object restore.**  Every run leaves the primary store contained exactly when
    no damaged backup blob is reached that would replace something. -/
theorem restoreObjects_contained_iff (repository primary : Store)
    (manifest : BackupSnapshotManifest) :
    (∀ r primary', Returns (ObjectRestoreCall.Answers repository) primary
        (restoreObjects manifest).run r primary' → Contained manifest.objects primary primary') ↔
      HarmlessUpToFirstDamage repository primary manifest.objects := by
  constructor
  · intro h pre object post bytes hobjects hpre hload
    obtain ⟨primary', hret, hlookup⟩ : ∃ primary', Returns (ObjectRestoreCall.Answers repository)
        primary (restoreObjects manifest).run (.error (.missingBlob object.contentKey)) primary' ∧
        primary'.lookup object.storageKey = some bytes := by
      rw [restoreObjects, hobjects]
      exact exists_returns_restoreObjects hpre hload _ primary
    have hcontained := h _ primary' hret
    by_cases hsame : primary.lookup object.storageKey = some bytes
    · exact Or.inl hsame
    · refine Or.inr fun other hother hkey => ?_
      rcases hcontained other hother with hunchanged | ⟨bytes', hheld, hchecksum⟩
      · rw [hkey, hlookup] at hunchanged
        exact absurd hunchanged.symm hsame
      · rw [hkey, hlookup] at hheld
        rw [Option.some.inj hheld]
        exact hchecksum
  · intro h r primary' hret
    exact Reaches.crash hret (wpE_restoreObjects h)

end Codec

/-! ## A corrupted backup blob -/

open Reference

/-- An object of one byte, 111. -/
def smallObject : ObjectBackupEntry where
  objectId := uuid 1
  storageKey := "objects/original.txt"
  contentKey := objectContentKey (sha256Hex [111])
  sha256Hex := sha256Hex [111]
  sizeBytes := 1
  mimeType := none

/-- Its blob in the repository has been corrupted. -/
def corruptedRepository : Store := Store.putBlob ∅ smallObject.contentKey [0]

/-- The primary store still has it. -/
def intactPrimary : Store := Store.putBlob ∅ smallObject.storageKey [111]

/-- The restore reports the corruption when the primary object is overwritten. -/
theorem corrupted_blob_overwrites_object :
    Returns (ObjectRestoreCall.Answers corruptedRepository) intactPrimary
        (restoreObjects { manifest (uuid 2) none with objects := [smallObject] }).run
        (.error (.checksumMismatch smallObject.contentKey smallObject.sha256Hex (sha256Hex [0])))
        (intactPrimary.putBlob smallObject.storageKey [0]) ∧
      ¬ Contained [smallObject] intactPrimary (intactPrimary.putBlob smallObject.storageKey [0]) := by
  have hchecksum : sha256Hex [0] ≠ smallObject.sha256Hex := by decide +kernel
  constructor
  · exact Returns.bind (returns_restoreObject_of_damaged (Store.lookup_putBlob_self _ _ _) hchecksum
      intactPrimary) (Reaches.refl _ _)
  · intro hcontained
    rcases hcontained smallObject List.mem_cons_self with hunchanged | ⟨bytes, hheld, hbytes⟩
    · rw [intactPrimary, Store.lookup_putBlob_self, Store.lookup_putBlob_self] at hunchanged
      exact absurd hunchanged (by decide)
    · rw [Store.lookup_putBlob_self] at hheld
      rw [← Option.some.inj hheld] at hbytes
      exact hchecksum hbytes

end GraphqlOrmBackup
