import GraphqlOrmBackup.ObjectListing
import GraphqlOrmBackup.ObjectRestore
import GraphqlOrmBackup.OrmObjects

/-!
# Objects of a `graphql-orm` application

A full backup of the objects that a table of the application records, and the
restore of their blobs into a primary store: each storage key gets back a blob of
the checksum that the blob under it had, and no other key is written.
-/

namespace GraphqlOrmBackup

open Interaction

section Codec

variable [Crates]

/-! ## Restores of intact objects -/

/-- The primary store has a blob of the entry's checksum at its storage key. -/
def Restored (object : ObjectBackupEntry) (primary : Store) : Prop :=
  ∃ bytes, primary.lookup object.storageKey = some bytes ∧ sha256Hex bytes = object.sha256Hex

section Restore

variable {repository primary s : Store} {objects pre : List ObjectBackupEntry}
  {object : ObjectBackupEntry} {bytes : Bytes}

/-- The spec of a round: the blob is put, or nothing is done. -/
theorem wpE_restoreObject_of_lookup (hlookup : repository.lookup object.contentKey = some bytes) :
    wpE (ObjectRestoreCall.Answers repository)
      (fun s' => s' = s ∨ s' = s.putBlob object.storageKey bytes) (restoreObject object)
      (fun _ s' => s' = s.putBlob object.storageKey bytes ∧ sha256Hex bytes = object.sha256Hex)
      (fun _ _ => True) s := by
  apply And.intro (Or.inl rfl)
  rintro r s₁ ⟨hload, rfl⟩
  cases r with
  | error e => exact ⟨Or.inl rfl, trivial⟩
  | ok source =>
    apply And.intro (Or.inl rfl)
    intro r s₂ hput
    cases source with
    | error e =>
      cases r with
      | error e' => exact ⟨Or.inl hput, trivial⟩
      | ok written => exact absurd hput id
    | ok bytes' =>
      obtain rfl : bytes = bytes' := Option.some.inj (hlookup.symm.trans hload)
      cases r with
      | error e' => exact ⟨hput, trivial⟩
      | ok written =>
        change wpE _ _ (if sha256Hex bytes ≠ object.sha256Hex then _ else _) _ _ _
        split
        · exact ⟨Or.inr hput, trivial⟩
        · exact ⟨Or.inr hput, hput, not_not.mp ‹_›⟩

/-- A later put keeps what has been restored. -/
theorem Restored.putBlob {earlier : ObjectBackupEntry} (h : Restored earlier s)
    (hsame : earlier.storageKey = object.storageKey → sha256Hex bytes = earlier.sha256Hex) :
    Restored earlier (s.putBlob object.storageKey bytes) := by
  by_cases hkey : earlier.storageKey = object.storageKey
  · exact ⟨bytes, by rw [hkey, Store.lookup_putBlob_self], hsame hkey⟩
  · rw [Restored, Store.lookup_putBlob_of_ne _ _ hkey]
    exact h

/-- Only the storage keys of the objects are written. -/
def SameElsewhere (objects : List ObjectBackupEntry) (primary s : Store) : Prop :=
  ∀ key, (∀ object ∈ objects, object.storageKey ≠ key) → s.lookup key = primary.lookup key

/-- **The loop over intact objects.**  No other key is written wherever it stops,
    and at its end all objects are restored. -/
theorem wpE_restoreObjects_intact (hintact : ∀ object ∈ objects, IntactObject repository object)
    (hsame : ∀ object ∈ objects, ∀ other ∈ objects, other.storageKey = object.storageKey →
      object.sha256Hex = other.sha256Hex) :
    wpE (ObjectRestoreCall.Answers repository)
      (fun s => Contained objects primary s ∧ SameElsewhere objects primary s)
      (forM objects restoreObject) (fun _ s => ∀ object ∈ objects, Restored object s)
      (fun _ _ => True) primary := by
  have hloop : wpE (ObjectRestoreCall.Answers repository) (SameElsewhere objects primary)
      (forM objects restoreObject)
      (fun _ s => ∃ pre, pre ++ [] = objects ∧ ∀ earlier ∈ pre, Restored earlier s)
      (fun _ _ => True) primary := by
    apply wpE_forM (P := fun rest s => ∃ pre, pre ++ rest = objects ∧
      ∀ earlier ∈ pre, Restored earlier s) objects
    · exact ⟨[], rfl, by simp⟩
    · exact fun _ _ => rfl
    · rintro object rest s _ hs ⟨pre, hobjects, hpre⟩
      have hmem : ∀ earlier ∈ pre ++ [object], earlier ∈ objects := fun earlier hearlier => by
        rw [← hobjects]
        simp only [List.mem_append, List.mem_cons, List.not_mem_nil, or_false] at hearlier ⊢
        tauto
      have hobject := hmem object (by simp)
      obtain ⟨bytes, hlookup, hchecksum⟩ := hintact object hobject
      refine wp.mono (wpE_restoreObject_of_lookup hlookup) ?_ ?_
      · rintro _ (rfl | rfl)
        · exact hs
        · intro key hkey
          rw [Store.lookup_putBlob_of_ne _ _ (hkey object hobject).symm]
          exact hs key hkey
      · rintro (e | _) s' _ hr
        · trivial
        obtain ⟨rfl, _⟩ := hr
        refine ⟨pre ++ [object], by simpa using hobjects, fun earlier hearlier => ?_⟩
        rcases List.mem_append.mp hearlier with hpre' | hlast
        · exact (hpre earlier hpre').putBlob fun hkey => hchecksum.trans
            (hsame object hobject earlier (hmem earlier hearlier) hkey)
        · rw [List.mem_singleton.mp hlast]
          exact ⟨bytes, Store.lookup_putBlob_self _ _ _, hchecksum⟩
  have hharmless : HarmlessUpToFirstDamage repository primary objects := by
    rintro pre object post bytes rfl _ hlookup
    have hobject : object ∈ pre ++ object :: post := by simp
    obtain ⟨body, hbody, hchecksum⟩ := hintact object hobject
    obtain rfl := Option.some.inj (hbody.symm.trans hlookup)
    exact Or.inr fun other hother hkey => hchecksum.trans (hsame object hobject other hother hkey)
  refine ((wpE_restoreObjects hharmless).and hloop).mono ?_ fun _ _ _ _ => trivial
  rintro _ s _ ⟨_, pre, hpre, hrestored⟩
  rwa [← hpre, List.append_nil]

/-- Intact objects can be restored. -/
theorem exists_returns_restoreObjects_intact
    (hintact : ∀ object ∈ objects, IntactObject repository object) (s : Store) :
    ∃ s', Returns (ObjectRestoreCall.Answers repository) s
      (forM objects restoreObject : ObjectRestoreM Unit).run (.ok ()) s' := by
  induction objects generalizing s with
  | nil => exact ⟨s, Reaches.refl _ _⟩
  | cons object objects ih =>
    rw [List.forall_mem_cons] at hintact
    obtain ⟨s₁, hfirst⟩ := returns_restoreObject_of_intact hintact.1 s
    obtain ⟨s', hrest⟩ := ih hintact.2 s₁
    rw [List.forM_cons]
    exact ⟨s', Fallible.returns_bind hfirst hrest⟩

end Restore

/-! ## Objects that a table records -/

section RoundTrip

variable {β δ γ S : Type} [OrmValueTexts β] {index : OrmBackupObjectIndex β δ γ S}
  {row : OrmBackupRow (OrmValue β)} {object : BackupObjectRef} {w w' : World}

/-- The entry of a row: its fields are those of the row, and its checksum is that of
    the blob under its storage key. -/
structure EntryOf (index : OrmBackupObjectIndex β δ γ S) (row : OrmBackupRow (OrmValue β))
    (entry : ObjectBackupEntry) : Prop where
  objectId : rowUuid row index.columns.objectIdColumn = .ok entry.objectId
  storageKey : rowString row index.columns.storageKeyColumn = .ok entry.storageKey
  mimeType : entry.mimeType = index.columns.mimeTypeColumn.bind (rowOptionalString row)
  checksum : index.checksumOf row entry.storageKey = .ok (entry.sha256Hex, entry.sizeBytes)
  contentKey : entry.contentKey = objectContentKey entry.sha256Hex
  blob : ∃ bytes, loadBlob index.store entry.storageKey = .ok bytes ∧
    sha256Hex bytes = entry.sha256Hex

omit [Crates] in
theorem objectRefFromRow_eq_ok [Sha2] : index.objectRefFromRow row = .ok object ↔
    rowUuid row index.columns.objectIdColumn = .ok object.objectId ∧
    rowString row index.columns.storageKeyColumn = .ok object.storageKey ∧
    object.mimeType = index.columns.mimeTypeColumn.bind (rowOptionalString row) ∧
    index.checksumOf row object.storageKey = .ok (object.sha256Hex, object.sizeBytes) := by
  simp only [OrmBackupObjectIndex.objectRefFromRow, bind_eq_ok, pure_eq_ok]
  constructor
  · rintro ⟨objectId, hobjectId, storageKey, hstorageKey, ⟨sha256Hex, sizeBytes⟩, hchecksum, rfl⟩
    exact ⟨hobjectId, hstorageKey, rfl, hchecksum⟩
  · rintro ⟨hobjectId, hstorageKey, hmimeType, hchecksum⟩
    refine ⟨_, hobjectId, _, hstorageKey, _, hchecksum, ?_⟩
    rw [← hmimeType]

/-- The index answers with the blob or with an error. -/
theorem loadBlob_of_canSucceed {database : GraphqlOrmBackupAdapter}
    (h : CanSucceed ⟨database, index.toObjectIndex⟩ object) :
    ∃ bytes, loadBlob index.store object.storageKey = .ok bytes ∧
      sha256Hex bytes = object.sha256Hex := by
  obtain ⟨bytes, hload, hchecksum⟩ := h
  have hload : index.loadObjectStream object = .ok (.ok bytes) := hload.symm
  obtain ⟨bytes', hblob, hbytes⟩ := bind_eq_ok.mp hload
  obtain rfl := Except.ok.inj (Except.ok.inj hbytes)
  exact ⟨bytes', hblob, hchecksum⟩

theorem entryOf_objectBackupEntry {database : GraphqlOrmBackupAdapter}
    (hrow : index.objectRefFromRow row = .ok object)
    (h : CanSucceed ⟨database, index.toObjectIndex⟩ object) :
    EntryOf index row (objectBackupEntry object) := by
  obtain ⟨hobjectId, hstorageKey, hmimeType, hchecksum⟩ := objectRefFromRow_eq_ok.mp hrow
  exact ⟨hobjectId, hstorageKey, hmimeType, hchecksum, rfl, loadBlob_of_canSucceed h⟩

/-- The primary store has a blob under the key with the checksum of the one that
    the other store has there. -/
def HoldsOriginal (store : BlobStore) (primary : Store) (key : String) : Prop :=
  ∃ original bytes, loadBlob store key = .ok original ∧ primary.lookup key = some bytes ∧
    sha256Hex bytes = sha256Hex original

theorem Restored.holdsOriginal {entry : ObjectBackupEntry} {primary : Store}
    (hentry : EntryOf index row entry) (h : Restored entry primary) :
    HoldsOriginal index.store primary entry.storageKey := by
  obtain ⟨original, hload, horiginal⟩ := hentry.blob
  obtain ⟨bytes, hlookup, hbytes⟩ := h
  exact ⟨original, bytes, hload, hlookup, hbytes.trans horiginal.symm⟩

/-- **Objects come back.**  The manifest of a full backup has an entry for each row
    of the object table, in order, with the checksum of the blob under the row's
    storage key, whatever the row records.  A restore of these objects into any
    primary store can succeed.  However one ends, it has written no other key, and
    under each storage key it has left what was there or put back a blob of the
    original's checksum; where it succeeds, it has put back all. -/
theorem object_blobs_round_trip {database : GraphqlOrmBackupAdapter}
    (hhonest : HonestObjects w.store) {sched : List Poll} {request : FullBackupRequest}
    {options : BackupExecutionOptions} {result : FullBackupResult}
    (hret : Returns (Host.mk database index.toObjectIndex).MayFail w
      (createFullBackupWithOptions sched request options).run (.ok result) w') :
    (∃ rows, index.objectRows = .ok rows ∧
      List.Forall₂ (EntryOf index) rows result.manifest.objects) ∧
    ∀ primary,
      (∃ primary', Returns (ObjectRestoreCall.Answers w'.store) primary
        (restoreObjects result.manifest).run (.ok ()) primary') ∧
      ∀ r primary', Returns (ObjectRestoreCall.Answers w'.store) primary
          (restoreObjects result.manifest).run r primary' →
        SameElsewhere result.manifest.objects primary primary' ∧
        ∀ entry ∈ result.manifest.objects,
          (primary'.lookup entry.storageKey = primary.lookup entry.storageKey ∨
            HoldsOriginal index.store primary' entry.storageKey) ∧
          (r = .ok () → HoldsOriginal index.store primary' entry.storageKey) := by
  have hlists := listsObjects_createFullBackup hret
  obtain ⟨objects, hlist, hentries, hsucceed⟩ := hlists.listed
  obtain ⟨rows, hrows, hrefs⟩ := bind_eq_ok.mp hlist
  have hforall : List.Forall₂ (EntryOf index) rows result.manifest.objects := by
    rw [hentries, List.forall₂_map_right_iff]
    have hloaded := (List.forall₂_and_left _ _).mpr ⟨hsucceed, (mapM'_eq_ok.mp hrefs).flip⟩
    exact hloaded.flip.imp fun row object h => entryOf_objectBackupEntry h.2 h.1
  refine ⟨⟨rows, hrows, hforall⟩, fun primary => ?_⟩
  have hintact : ∀ entry ∈ result.manifest.objects, IntactObject w'.store entry :=
    fun entry hentry => (hlists.holds hhonest entry hentry).2
  -- a storage key has one blob, and so one checksum
  have hsame : ∀ entry ∈ result.manifest.objects, ∀ other ∈ result.manifest.objects,
      other.storageKey = entry.storageKey → entry.sha256Hex = other.sha256Hex := by
    intro entry hentry other hother hkey
    obtain ⟨_, _, hrow⟩ := forall₂_mem_right hforall entry hentry
    obtain ⟨_, _, hrow'⟩ := forall₂_mem_right hforall other hother
    obtain ⟨bytes, hload, hchecksum⟩ := hrow.blob
    obtain ⟨bytes', hload', hchecksum'⟩ := hrow'.blob
    rw [hkey] at hload'
    obtain rfl := Except.ok.inj (hload.symm.trans hload')
    exact hchecksum.symm.trans hchecksum'
  refine ⟨exists_returns_restoreObjects_intact hintact primary, fun r primary' hrestore => ?_⟩
  have hwp := @wpE_restoreObjects_intact _ _ primary _ hintact hsame
  obtain ⟨hcontained, helsewhere⟩ := Reaches.crash hrestore hwp
  refine ⟨helsewhere, fun entry hentry => ?_⟩
  obtain ⟨row, _, hrow⟩ := forall₂_mem_right hforall entry hentry
  refine ⟨(hcontained entry hentry).imp_right fun h => Restored.holdsOriginal hrow h, ?_⟩
  rintro rfl
  exact Restored.holdsOriginal hrow (hrestore.post hwp entry hentry)

end RoundTrip

end Codec

/-! ## A table of one object -/

section Attachments

open Reference

local instance : OrmValueTexts Empty := ⟨fun _ => "value", fun _ => "error"⟩

/-- The row records neither checksum nor size. -/
def attachment : OrmBackupRow (OrmValue Empty) where
  tableName := "attachments"
  primaryKey := "1"
  rowHash := "x"
  values := .ofList [("id", OrmValue.uuid (uuid 1)), ("key", OrmValue.string "original.txt")]

/-- The table, and a store that has the object's one byte. -/
def attachments : OrmBackupObjectIndex Empty Unit Unit Unit where
  database := {
    listBackupEntities := [⟨"attachments", [], ⟨0, 0, ()⟩⟩]
    schemaSnapshot := fun migrationVersion => ⟨"sqlite", migrationVersion, "h", []⟩
    stableSchemaHash := fun _ => "h"
    currentVersion := .ok none
    beginConsistentSnapshot := .ok ()
    exportTableRows := fun _ _ => .ok [attachment]
    fetchRowCount := fun _ => .ok (.ok 1)
    restoreBackupRows := fun _ => .ok () }
  columns := ⟨"attachments", "id", "key", "sha256", "size", none⟩
  store := ⟨fun key => if key = "original.txt" then .ok (.ok [111]) else .error (.missingBlob key)⟩

def attachmentsHost : Host := ⟨(database [] []).database, attachments.toObjectIndex⟩

theorem returns_attachmentsHost : ∃ result w', Returns attachmentsHost.MayFail emptyWorld
    (createFullBackupWithOptions [] (fullRequest (uuid 1)) options).run (.ok result) w' := by
  have hload : ∀ object, attachmentsHost.objects.loadObjectStream object
      (attachments.loadObjectStream object) := fun _ => rfl
  have hok : ((createFullBackupWithOptions [] (fullRequest (uuid 1)) options).run.run
      (attachmentsHost.respond attachments.loadObjectStream) emptyWorld).1.isOk = true := by
    decide +kernel
  obtain ⟨result, hret⟩ := Host.returns_of_isOk hload hok
  exact ⟨result, _, returns_mayFail hret⟩

/-- The object comes back into an empty store. -/
theorem object_blobs_round_trip_attachments : ∃ primary,
    HoldsOriginal attachments.store primary "original.txt" := by
  obtain ⟨result, w', hret⟩ := returns_attachmentsHost
  obtain ⟨⟨rows, hrows, hforall⟩, hrestores⟩ := object_blobs_round_trip honestObjects_empty hret
  obtain ⟨⟨primary, hrestore⟩, hall⟩ := hrestores ∅
  have hlisted : attachments.objectRows = .ok [attachment] := rfl
  obtain rfl := Except.ok.inj (hlisted.symm.trans hrows)
  obtain ⟨entry, hentry, hrow⟩ := forall₂_mem_left hforall attachment List.mem_cons_self
  have hkey : rowString attachment "key" = .ok "original.txt" := rfl
  obtain hstorageKey := Except.ok.inj (hkey.symm.trans hrow.storageKey)
  exact ⟨primary, hstorageKey ▸ ((hall _ _ hrestore).2 entry hentry).2 rfl⟩

end Attachments

end GraphqlOrmBackup
