import GraphqlOrmBackup.Intact
import GraphqlOrmBackup.Writers

/-!
# What the checksum of a manifest pins

With `serde_json`'s documents for the manifest types, a manifest that is
written is loaded again, and two manifests with one checksum are equal unless
their checksum documents are a collision of SHA-256.
-/

namespace GraphqlOrmBackup

open Interaction

section Codec

variable [Crates] {manifest manifest' : BackupSnapshotManifest}

omit [Crates] in
/-- The view is the manifest without its checksum, field by field. -/
theorem encode_checksumManifestView (manifest : BackupSnapshotManifest) :
    Serde.checksumManifestView.encode (ChecksumManifestView.from manifest) =
      Serde.backupSnapshotManifest.encode { manifest with checksum := "" } := rfl

omit [Crates] in
theorem flat_checksumManifestView (manifest : BackupSnapshotManifest) :
    (Serde.checksumManifestView.encode (ChecksumManifestView.from manifest)).Flat 4 := by
  rw [encode_checksumManifestView]
  exact Serde.flat_backupSnapshotManifest _

omit [Crates] in
/-- The checksum document determines all fields but the checksum. -/
theorem eq_of_checksumDocument (h : manifest.Representable) (h' : manifest'.Representable)
    (hdoc : checksumDocument manifest = checksumDocument manifest')
    (hchecksum : manifest.checksum = manifest'.checksum) : manifest = manifest' := by
  have hflat := flat_checksumManifestView manifest
  have hview := Serde.document_injective hflat h.view h'.view hdoc
  cases manifest
  cases manifest'
  simp only [ChecksumManifestView.from, ChecksumManifestView.mk.injEq] at hview
  rcases hview with ⟨rfl, rfl, rfl, rfl, rfl, rfl, rfl, rfl, rfl, rfl, rfl, rfl, rfl, _⟩
  cases hchecksum
  rfl

theorem verifyManifestChecksum_iff (henc : EncodesManifests) (h : manifest.Representable) :
    verifyManifestChecksum manifest = .ok () ↔
      sha256Hex (checksumDocument manifest) = manifest.checksum := by
  rw [verifyManifestChecksum, manifestChecksum_eq_ok henc h]
  by_cases heq : sha256Hex (checksumDocument manifest) = manifest.checksum
  · exact iff_of_true (if_pos heq) heq
  · refine iff_of_false (fun hverify => ?_) heq
    have hthrow := (if_neg heq).symm.trans hverify
    exact throw_ne_ok hthrow

omit [Crates] in
theorem sha256Hex_injective [Sha2] {doc doc' : Bytes} (h : sha256Hex doc = sha256Hex doc') :
    Sha2.digest doc = Sha2.digest doc' := by
  have hchars := congrArg String.toList h
  rw [sha256Hex, sha256Hex, String.toList_ofList, String.toList_ofList] at hchars
  exact Vector.toList_inj.mp (Hex.encode_injective hchars)

/-- The manifest that is written is loaded under its id. -/
theorem wpE_writeManifest_loads (henc : EncodesManifests) (h : manifest.Representable)
    {host : Host} {w : World} :
    wpE host.MayFail (fun _ => True) (writeManifest manifest)
      (fun written w' => written = sealManifest manifest ∧
        loadManifest w'.store manifest.snapshotId = .ok (sealManifest manifest))
      (fun _ _ => True) w := by
  have hpretty : Crates.manifestToVecPretty (sealManifest manifest) = _ :=
    manifestToVecPretty_eq_ok henc (h.withChecksum _)
  refine wpE.seq (P := fun written w' => sealManifest manifest = written ∧ w' = w) ?_ ?_
  · rw [setManifestChecksum_of_representable henc h]
    exact ⟨trivial, rfl, rfl⟩
  rintro _ w - ⟨rfl, rfl⟩
  refine wpE.seq (P := fun body w' => manifestDocument (sealManifest manifest) = body ∧ w' = w) ?_ ?_
  · rw [hpretty]
    exact ⟨trivial, rfl, rfl⟩
  rintro _ w - ⟨rfl, rfl⟩
  apply wpE.seq (P := fun _ w' => w' =
    w.put (snapshotManifestKey (sealManifest manifest).snapshotId)
      (manifestDocument (sealManifest manifest)))
    (wpE_putBlob trivial (fun _ _ _ => trivial) trivial rfl)
  rintro _ _ - rfl
  exact ⟨trivial, rfl, loadManifest_of_lookup henc h (Store.lookup_putBlob_self _ _ _)⟩

/-- **The checksum pins the manifest.**  A manifest that is written is loaded
    with its checksum set, and two manifests that pass the check with the same
    checksum are equal in every field, unless their checksum documents differ
    and have one SHA-256 digest. -/
theorem manifest_checksum_pins_manifest (henc : EncodesManifests) :
    (∀ (host : Host) (w : World) (manifest : BackupSnapshotManifest), manifest.Representable →
      setManifestChecksum manifest = .ok (sealManifest manifest) ∧
      (∃ w', Returns host.Answers w (writeManifest manifest).run (.ok (sealManifest manifest)) w') ∧
      ∀ written w', Returns host.MayFail w (writeManifest manifest).run (.ok written) w' →
        written = sealManifest manifest ∧
          loadManifest w'.store manifest.snapshotId = .ok (sealManifest manifest)) ∧
    ∀ manifest manifest' : BackupSnapshotManifest,
      manifest.Representable → manifest'.Representable →
      verifyManifestChecksum manifest = .ok () → verifyManifestChecksum manifest' = .ok () →
      manifest.checksum = manifest'.checksum →
      manifest = manifest' ∨ checksumDocument manifest ≠ checksumDocument manifest' ∧
        Sha2.digest (checksumDocument manifest) = Sha2.digest (checksumDocument manifest') := by
  constructor
  · intro host w manifest h
    have hset := setManifestChecksum_of_representable henc h
    refine ⟨hset, ?_, fun written w' hret => hret.post (wpE_writeManifest_loads henc h)⟩
    have hpretty : Crates.manifestToVecPretty (sealManifest manifest) = _ :=
      manifestToVecPretty_eq_ok henc (h.withChecksum _)
    exact ⟨_, Fallible.returns_bind (Fallible.returns_ofExcept hset) <|
      Fallible.returns_bind (Fallible.returns_ofExcept (mapError_eq_ok.mpr hpretty)) <|
      Fallible.returns_bind (Reaches.head ⟨rfl, rfl⟩ (Reaches.refl _ _)) (Reaches.refl _ _)⟩
  · intro manifest manifest' h h' hverify hverify' hchecksum
    have hsha : sha256Hex (checksumDocument manifest) = sha256Hex (checksumDocument manifest') :=
      ((verifyManifestChecksum_iff henc h).mp hverify).trans
        (hchecksum.trans ((verifyManifestChecksum_iff henc h').mp hverify').symm)
    by_cases hdoc : checksumDocument manifest = checksumDocument manifest'
    · exact Or.inl (eq_of_checksumDocument h h' hdoc hchecksum)
    · exact Or.inr ⟨hdoc, sha256Hex_injective hsha⟩

end Codec

section Family

open Reference

/-- A manifest with entries of every kind. -/
def mixedSnapshot : BackupSnapshotManifest :=
  { newSnapshot with
    database := { newSnapshot.database with tables := rootSnapshot.database.tables } }

theorem sealManifest_sealManifest_checksum (manifest : BackupSnapshotManifest) :
    (sealManifest (sealManifest manifest)).checksum = (sealManifest manifest).checksum := rfl

theorem representable_mixedSnapshot : mixedSnapshot.Representable := by
  unfold BackupSnapshotManifest.Representable
  decide +kernel

/-- What is loaded after the manifest was written has the same checksum as the
    manifest that is sealed once more. -/
theorem manifest_checksum_pins_manifest_mixed :
    ∃ w' loaded, Returns (database [] []).Answers familyWorld (writeManifest mixedSnapshot).run
        (.ok loaded) w' ∧
      loadManifest w'.store (uuid 3) = .ok loaded ∧
      (loaded = sealManifest (sealManifest mixedSnapshot) ∨
        checksumDocument loaded ≠ checksumDocument (sealManifest (sealManifest mixedSnapshot)) ∧
        Sha2.digest (checksumDocument loaded) =
          Sha2.digest (checksumDocument (sealManifest (sealManifest mixedSnapshot)))) := by
  have hfits := representable_mixedSnapshot
  have hagain := hfits.withChecksum (sha256Hex (checksumDocument mixedSnapshot))
  obtain ⟨hwrite, hpins⟩ := manifest_checksum_pins_manifest encodesManifests
  obtain ⟨-, ⟨w', hret⟩, hload⟩ := hwrite (database [] []) familyWorld mixedSnapshot hfits
  have hloaded := (hload _ _ (returns_mayFail hret)).2
  obtain ⟨_, _, _, hverify⟩ := loadManifest_eq_ok.mp hloaded
  exact ⟨w', _, hret, hloaded, hpins _ _ hagain (hagain.withChecksum _) hverify
    (verifyManifestChecksum_of_set (setManifestChecksum_of_representable encodesManifests hagain))
    (sealManifest_sealManifest_checksum _).symm⟩

end Family

end GraphqlOrmBackup
