import GraphqlOrmBackup.ManifestChecksum
import GraphqlOrmBackup.RestoredPayloads

/-!
# Damaged repositories

Blobs of a snapshot that was complete get lost, or come back with other bytes.
A restore from what is left makes the calls that it would have made before the
damage, or breaks off among them: nothing else is ever restored, and nothing at
all unless every blob of the chain is what it was.
-/

namespace GraphqlOrmBackup

open Interaction

section Codec

variable [Crates]

/-! ## Damage -/

/-- The numbers of a manifest that is read fit the integer types of its fields. -/
def ReadsRepresentable : Prop :=
  ∀ doc (manifest : BackupSnapshotManifest), DeserializeJson.fromSlice doc = .ok manifest →
    manifest.Representable

/-- The manifests of the chain that still load carry the checksums they carried. -/
def KeepsChecksums (s s' : Store) (chain : List BackupSnapshotManifest) : Prop :=
  ∀ id manifest manifest', loadManifest s id = .ok manifest → manifest ∈ chain →
    loadManifest s' id = .ok manifest' → manifest'.checksum = manifest.checksum

/-- What is in one place before and after is no collision of SHA-256. -/
structure NoCollision (s s' : Store) : Prop where
  blobs : ∀ key body body', s.lookup key = some body → s'.lookup key = some body' →
    Sha2.digest body = Sha2.digest body' → body = body'
  manifests : ∀ id manifest manifest', loadManifest s id = .ok manifest →
    loadManifest s' id = .ok manifest' →
    Sha2.digest (checksumDocument manifest) = Sha2.digest (checksumDocument manifest') →
    checksumDocument manifest = checksumDocument manifest'

variable {host : Host} {w w' : World} {s s' : Store} {id : Uuid} {context : RestoreContext}
  {root manifest manifest' : BackupSnapshotManifest}
  {chain chain' rest : List BackupSnapshotManifest}
  {tables : List BackupTableExport} {changes : List (List BackupChangeExport)}

/-- A manifest that still loads with its checksum is the one that it was. -/
theorem NoCollision.manifest_eq (hcollision : NoCollision s s') (henc : EncodesManifests)
    (hreads : ReadsRepresentable) (h : loadManifest s id = .ok manifest)
    (h' : loadManifest s' id = .ok manifest') (hchecksum : manifest'.checksum = manifest.checksum) :
    manifest' = manifest := by
  obtain ⟨doc, -, hparse, hverify⟩ := loadManifest_eq_ok.mp h
  obtain ⟨doc', -, hparse', hverify'⟩ := loadManifest_eq_ok.mp h'
  have hfits := hreads doc manifest hparse
  have hfits' := hreads doc' manifest' hparse'
  have hsha : sha256Hex (checksumDocument manifest) = sha256Hex (checksumDocument manifest') :=
    ((verifyManifestChecksum_iff henc hfits).mp hverify).trans
      (hchecksum.symm.trans ((verifyManifestChecksum_iff henc hfits').mp hverify').symm)
  have hdoc := hcollision.manifests id manifest manifest' h h' (sha256Hex_injective hsha)
  exact eq_of_checksumDocument hfits' hfits hdoc.symm hchecksum

/-- A chain that still loads is the one that it was. -/
theorem NoCollision.chain_eq (hcollision : NoCollision s s') (henc : EncodesManifests)
    (hreads : ReadsRepresentable) (hkept : KeepsChecksums s s' chain)
    (h : loadManifestChain s id = .ok chain) (h' : loadManifestChain s' id = .ok chain') :
    chain' = chain := by
  obtain ⟨path, hpath, rfl, -⟩ := loadManifestChain_eq_ok.mp h
  obtain ⟨path', hpath', rfl, -⟩ := loadManifestChain_eq_ok.mp h'
  refine congrArg (List.map Prod.snd) (Lineage.eq_of_agree hpath hpath' ?_)
  intro node hnode manifest' hload'
  have hload := hpath.stored_of_mem node hnode
  exact hcollision.manifest_eq henc hreads hload hload'
    (hkept _ _ _ hload (List.mem_map_of_mem hnode) hload')

/-- Blobs that still verify are the ones that they were. -/
theorem NoCollision.sameBlobs (hcollision : NoCollision s s') (h : HoldsBlobs s manifest)
    (h' : HoldsBlobs s' manifest) : SameBlobs s s' manifest := by
  rintro key hkey
  obtain ⟨ref, href, rfl⟩ := List.mem_map.mp hkey
  obtain ⟨body, hbody, hsha⟩ := h ref href
  obtain ⟨body', hbody', hsha'⟩ := h' ref href
  have hsame := hcollision.blobs _ _ _ hbody hbody' (sha256Hex_injective (hsha.trans hsha'.symm))
  rw [hbody, hbody', hsame]

/-- A manifest that still loads where blobs have got lost has always loaded. -/
theorem loadManifest_of_lost (hlost : ∀ key body, s'.lookup key = some body →
    s.lookup key = some body) (h : loadManifest s' id = .ok manifest) :
    loadManifest s id = .ok manifest := by
  obtain ⟨doc, hlookup, hparse, hverify⟩ := loadManifest_eq_ok.mp h
  exact loadManifest_eq_ok.mpr ⟨doc, hlost _ _ hlookup, hparse, hverify⟩

/-- A repository that has only lost blobs. -/
theorem damage_of_lost (hlost : ∀ key body, s'.lookup key = some body →
    s.lookup key = some body) (chain : List BackupSnapshotManifest) :
    KeepsChecksums s s' chain ∧ NoCollision s s' := by
  have hsame : ∀ id manifest manifest', loadManifest s id = .ok manifest →
      loadManifest s' id = .ok manifest' → manifest = manifest' := fun id manifest manifest' h h' =>
    loadManifest_functional s id manifest manifest' h (loadManifest_of_lost hlost h')
  refine ⟨fun id manifest manifest' h _ h' => ?_, fun key body body' h h' _ => ?_,
    fun id manifest manifest' h h' _ => ?_⟩
  · rw [hsame id manifest manifest' h h']
  · exact Option.some.inj (h.symm.trans (hlost key body' h'))
  · rw [hsame id manifest manifest' h h']

/-! ## What is restored -/

/-- Changes that are read from the first manifests are the first of all changes. -/
theorem prefix_of_loadChangeExports {delivered rest : List BackupSnapshotManifest}
    {found changes : List (List BackupChangeExport)}
    (hfound : List.Forall₂ (fun manifest changes => loadChangeExports s manifest = .ok changes)
      delivered found)
    (h : List.Forall₂ (fun manifest changes => loadChangeExports s manifest = .ok changes)
      (delivered ++ rest) changes) : found <+: changes := by
  induction hfound generalizing changes with
  | nil => exact List.nil_prefix
  | cons hfirst _ ih =>
    cases h with
    | cons hfirst' h' =>
      obtain rfl := Except.ok.inj (hfirst.symm.trans hfirst')
      exact (List.prefix_cons_inj _).mpr (ih h')

/-- The calls of a restore that follows the chain are the first of those that
    restore the contents. -/
theorem Contents.prefix_of_delivers {calls : List RestoreCall}
    (h : Contents s id root rest tables changes)
    (hcalls : Delivers s context (root :: rest) calls) :
    calls <+: restoreCalls context root tables changes := by
  obtain ⟨root', delivered, later, tables', changes', hchain, htables, hchanges, rfl⟩ := hcalls
  obtain ⟨rfl, rfl⟩ := List.cons.inj hchain
  obtain rfl := Except.ok.inj (htables.symm.trans h.tables)
  refine (List.prefix_cons_inj _).mpr (List.IsPrefix.map _ ?_)
  exact prefix_of_loadChangeExports hchanges h.changes

/-- What can have been restored from the damaged repository: the first of the calls
    that restore the contents, and none unless every blob is what it was. -/
theorem Contents.calls_of_gated (h : Contents s id root rest tables changes)
    (henc : EncodesManifests) (hreads : ReadsRepresentable)
    (hkept : KeepsChecksums s w.store (root :: rest)) (hcollision : NoCollision s w.store)
    (hgated : Gated host id context w w') :
    ∃ calls, w'.restored = w.restored ++ calls ∧
      calls <+: restoreCalls context root tables changes ∧
      (calls ≠ [] → ∀ manifest ∈ root :: rest, SameBlobs s w.store manifest) := by
  obtain ⟨-, calls, hrestored, hcalls⟩ := hgated
  refine ⟨calls, hrestored, ?_⟩
  rcases hcalls with rfl | ⟨chain, hgate, hdelivers⟩
  · exact ⟨List.nil_prefix, fun hne => absurd rfl hne⟩
  -- A call has been made, so the whole chain had been verified before it.
  obtain rfl := hcollision.chain_eq henc hreads hkept h.loads hgate.loads
  have hsame : ∀ manifest ∈ root :: rest, SameBlobs s w.store manifest := fun manifest hmem =>
    hcollision.sameBlobs (h.blobs manifest hmem) (hgate.blobs manifest hmem)
  exact ⟨(h.of_sameBlobs hgate.loads hsame).prefix_of_delivers hdelivers, fun _ => hsame⟩

/-- A restore that succeeds has restored what it would have before. -/
theorem Contents.of_restored (h : Contents s id root rest tables changes)
    (henc : EncodesManifests) (hreads : ReadsRepresentable)
    (hkept : KeepsChecksums s w.store (root :: rest)) (hcollision : NoCollision s w.store)
    {order : BackupSnapshotManifest → CompletionOrder} {result : RestoreResult}
    (hmode : context.mode = .emptyDatabase)
    (hret : Returns host.Answers w (restoreSnapshot order id context).run (.ok result) w') :
    Contents w.store id root rest tables changes ∧
      (∀ manifest ∈ root :: rest, SameBlobs s w.store manifest) ∧
      w' = w.after context root tables changes := by
  obtain ⟨root', rest', tables', changes', hcontents, rfl⟩ :=
    hret.post (wpE_restoreSnapshot_answers order) hmode
  obtain ⟨rfl, rfl⟩ := List.cons.inj
    (hcollision.chain_eq henc hreads hkept h.loads hcontents.loads)
  have hsame : ∀ manifest ∈ root' :: rest', SameBlobs s w.store manifest := fun manifest hmem =>
    hcollision.sameBlobs (h.blobs manifest hmem) (hcontents.blobs manifest hmem)
  obtain ⟨-, -, rfl, rfl⟩ := (h.of_sameBlobs hcontents.loads hsame).unique hcontents
  exact ⟨hcontents, hsame, rfl⟩

/-- **Damage is never restored.**  Whatever has happened to the blobs of a
    repository since the snapshot was complete, as long as its manifests carry the
    checksums they carried: a restore, wherever it is stopped, has made the first of
    the calls that restore the contents, and none unless every blob of the chain is
    what it was; if it succeeds it has made them all.  Into an accepting target it
    succeeds exactly if the chain still loads and its blobs are what they were. -/
theorem damage_is_never_restored (henc : EncodesManifests) (hreads : ReadsRepresentable)
    (h : Contents s id root rest tables changes)
    (hkept : KeepsChecksums s w.store (root :: rest)) (hcollision : NoCollision s w.store)
    (order : BackupSnapshotManifest → CompletionOrder) :
    (∀ w' p, Reaches host.MayFail w (restoreSnapshot order id context).run w' p →
      w'.store = w.store ∧ ∃ calls, w'.restored = w.restored ++ calls ∧
        calls <+: restoreCalls context root tables changes ∧
        (calls ≠ [] → ∀ manifest ∈ root :: rest, SameBlobs s w.store manifest)) ∧
    (context.mode = .emptyDatabase → ∀ r w',
      Returns host.Answers w (restoreSnapshot order id context).run r w' →
        (r.isOk → w'.restored = w.restored ++ restoreCalls context root tables changes) ∧
        (Accepts host root → (r.isOk ↔ loadManifestChain w.store id = .ok (root :: rest) ∧
          ∀ manifest ∈ root :: rest, SameBlobs s w.store manifest))) := by
  constructor
  · intro w' p hreach
    have hgated := hreach.crash (wpE_restoreSnapshot order)
    exact ⟨hgated.1, h.calls_of_gated henc hreads hkept hcollision hgated⟩
  intro hmode r w' hret
  have hrestored : ∀ result, r = .ok result → Contents w.store id root rest tables changes ∧
      (∀ manifest ∈ root :: rest, SameBlobs s w.store manifest) ∧
      w' = w.after context root tables changes := by
    rintro result rfl
    exact h.of_restored henc hreads hkept hcollision hmode hret
  cases r with
  | ok result =>
    obtain ⟨hcontents, hsame, rfl⟩ := hrestored result rfl
    exact ⟨fun _ => rfl, fun _ => iff_of_true rfl ⟨hcontents.loads, hsame⟩⟩
  | error e =>
    refine ⟨fun hok => absurd hok Bool.false_ne_true, fun haccepts => ?_⟩
    -- Intact contents are restored into a target that accepts them, without an error.
    refine iff_of_false Bool.false_ne_true ?_
    rintro ⟨hloads, hsame⟩
    have hcontents : Contents w.store id root rest tables changes := h.of_sameBlobs hloads hsame
    exact hret.post (wpE_restoreSnapshot_accepted order haccepts hmode hcontents)

end Codec

/-! ## A payload that is lost -/

section LostPayload

open Reference

theorem readsRepresentable : ReadsRepresentable := by
  intro doc manifest hread
  obtain ⟨_, value, -, -, hdecode⟩ := Serde.fromSlice_eq_ok.mp hread
  exact Serde.sound_backupSnapshotManifest value manifest hdecode

/-- The payload of the second snapshot is gone. -/
def lostPayload : World :=
  strayWorld.withStore (strayWorld.store.deleteBlob strayEntry.contentKey)

theorem lookup_lostPayload (key : String) (body : Bytes)
    (h : lostPayload.store.lookup key = some body) : strayWorld.store.lookup key = some body := by
  rw [lostPayload, World.withStore_store, Store.lookup_deleteBlob] at h
  split at h
  · cases h
  · exact h

theorem lookup_lostPayload_contentKey :
    lostPayload.store.lookup strayEntry.contentKey = none := Store.lookup_deleteBlob_self _ _

/-- The payload that the manifest refers to is not what it was. -/
theorem not_sameBlobs_lostPayload :
    ¬ SameBlobs strayWorld.store lostPayload.store (sealManifest straySnapshot) := by
  intro hsame
  have hchain : sealManifest straySnapshot ∈
      [sealManifest (manifest (uuid 1) none), sealManifest straySnapshot] :=
    List.mem_cons_of_mem _ List.mem_cons_self
  have href : (strayEntry.contentKey, strayEntry.sha256Hex) ∈
      (sealManifest straySnapshot).references := List.mem_cons_self
  obtain ⟨body, hbody, -⟩ := contents_strayWorld.blobs _ hchain _ href
  have hsame : lostPayload.store.lookup strayEntry.contentKey =
      strayWorld.store.lookup strayEntry.contentKey :=
    hsame _ (List.mem_map_of_mem (f := Prod.fst) href)
  rw [lookup_lostPayload_contentKey, hbody] at hsame
  cases hsame

/-- Without the payload nothing is restored, the intact root of the chain included. -/
theorem damage_is_never_restored_lostPayload :
    lostPayload.store.lookup strayEntry.contentKey = none ∧
    ∀ w' p, Reaches (database [] []).MayFail lostPayload
      (restoreSnapshot (fun _ _ => []) (uuid 2) .emptyDatabase).run w' p → w'.restored = [] := by
  refine ⟨lookup_lostPayload_contentKey, fun w' p hreach => ?_⟩
  obtain ⟨hkept, hcollision⟩ := damage_of_lost lookup_lostPayload
    [sealManifest (manifest (uuid 1) none), sealManifest straySnapshot]
  obtain ⟨-, calls, hrestored, -, hnone⟩ := (damage_is_never_restored encodesManifests
    readsRepresentable contents_strayWorld hkept hcollision _).1 w' p hreach
  have hcalls : calls = [] := by
    by_contra hne
    exact not_sameBlobs_lostPayload (hnone hne _ (List.mem_cons_of_mem _ List.mem_cons_self))
  rw [hrestored, hcalls]
  rfl

end LostPayload

end GraphqlOrmBackup
