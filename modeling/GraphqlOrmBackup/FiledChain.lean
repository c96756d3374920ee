import GraphqlOrmBackup.SealedManifests

/-!
# Loading the chain of a snapshot

Which chain `load_manifest_chain` returns, in any repository.
-/

namespace GraphqlOrmBackup

/-- **The chain of a snapshot.**  A chain that is loaded ends with the manifest
    stored for the requested id; all others are stored under their own ids and
    each names its predecessor as its parent, up to a root without one, and no
    id occurs twice.  Every such chain that is valid is loaded. -/
theorem loadManifestChain_loads_filed_chain [Crates] (s : Store) (id : Uuid)
    (chain : List BackupSnapshotManifest) :
    (loadManifestChain s id = .ok chain ↔
      FiledChain s id chain ∧ validateManifestChain chain = .ok ()) ∧
    (loadManifestChain s id = .ok chain →
      (∀ manifest ∈ chain, verifyManifestChecksum manifest = .ok ()) ∧
      (∃ root rest, chain = root :: rest ∧ root.parentSnapshotId = none) ∧
      chain.IsChain (fun parent child => child.parentSnapshotId = some parent.snapshotId) ∧
      (chain.map (·.snapshotId)).Nodup) := by
  constructor
  · rw [loadManifestChain_iff_filedChain, validateManifestChain_eq_ok]
  · intro h
    rcases loadManifestChain_eq_ok.mp h with ⟨path, hpath, rfl, hvalid⟩
    obtain ⟨root, rest, heq, hroot, _⟩ := hvalid.root
    refine ⟨fun manifest hmem => ?_, ⟨root, rest, heq, hroot⟩,
      hvalid.linked.imp fun _ _ hfollows => hfollows.parentSnapshotId, hvalid.nodup⟩
    rcases List.mem_map.mp hmem with ⟨node, hnode, rfl⟩
    rcases loadManifest_eq_ok.mp (hpath.stored_of_mem node hnode) with ⟨_, _, _, hverify⟩
    exact hverify


section Misfiled

open Reference

/-- A full snapshot filed under the id of another one. -/
def misfiled : Store := filed ∅ [(uuid 2, manifest (uuid 1) none)]

/-- The chain that is loaded for one snapshot is the one of another snapshot,
    which has nothing stored under its own id. -/
theorem misfiled_manifest_is_loaded :
    loadManifestChain misfiled (uuid 2) = .ok [sealManifest (manifest (uuid 1) none)] ∧
    (sealManifest (manifest (uuid 1) none)).snapshotId ≠ uuid 2 ∧
    snapshotManifestKey (uuid 1) ∉ misfiled := by
  have hload : loadManifest misfiled (uuid 2) = .ok (sealManifest (manifest (uuid 1) none)) := by
    apply loadManifest_filed
    · unfold BackupSnapshotManifest.Representable
      decide +kernel
    · rfl
  have hvalid : ValidChain [sealManifest (manifest (uuid 1) none)] :=
    ⟨⟨_, _, rfl, rfl, Or.inl rfl⟩, List.isChain_singleton _, by simp⟩
  refine ⟨?_, by decide, ?_⟩
  · rw [loadManifestChain_iff_filedChain]
    exact ⟨⟨⟨_, rfl, hload⟩, by simp⟩, hvalid⟩
  · intro hmem
    rcases (AList.mem_insert _).mp hmem with hkey | hmem
    · exact absurd (snapshotManifestKey_injective hkey) (by decide)
    · exact AList.notMem_empty _ hmem

end Misfiled

end GraphqlOrmBackup
