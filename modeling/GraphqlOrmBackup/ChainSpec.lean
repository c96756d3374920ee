import GraphqlOrmBackup.Chain
import GraphqlOrmBackup.Lineage
import GraphqlOrmBackup.Interaction.Outcome
import Mathlib.Data.List.Chain

/-!
# What a loaded chain is

`load_manifest_chain` returns the lineage of the snapshot in the graph of the
stored manifests and their parent pointers, when that lineage is a valid chain.
-/

namespace GraphqlOrmBackup

open Interaction

/-! ## Valid chains -/

/-- What `validate_manifest_chain` asks of neighbours. -/
structure Follows (parent child : BackupSnapshotManifest) : Prop where
  parentSnapshotId : child.parentSnapshotId = some parent.snapshotId
  appId : child.appId = parent.appId
  databaseBackend : child.databaseBackend = parent.databaseBackend
  graphqlOrmSchemaHash : child.graphqlOrmSchemaHash = parent.graphqlOrmSchemaHash

/-- A chain a restore can start from. -/
structure ValidChain (chain : List BackupSnapshotManifest) : Prop where
  root : ∃ first rest, chain = first :: rest ∧ first.parentSnapshotId = none ∧
    (first.backupKind = .full ∨ first.backupKind = .syntheticFull)
  linked : chain.IsChain Follows
  nodup : (chain.map (·.snapshotId)).Nodup

theorem invalidChain_ne_ok {α : Type} {reason : String} {a : α} :
    (invalidChain reason : Except BackupError α) ≠ .ok a :=
  throw_ne_ok

theorem validatePairs_eq_ok {seen : List Uuid} {parent : BackupSnapshotManifest}
    {rest : List BackupSnapshotManifest} :
    validatePairs seen parent rest = .ok () ↔ (parent :: rest).IsChain Follows ∧
      (∀ manifest ∈ rest, manifest.snapshotId ∉ seen) ∧ (rest.map (·.snapshotId)).Nodup := by
  induction rest generalizing seen parent with
  | nil => simp [validatePairs, pure, Except.pure]
  | cons child rest ih =>
    rw [validatePairs]
    constructor
    · intro h
      split at h
      · exact absurd h invalidChain_ne_ok
      split at h
      · exact absurd h invalidChain_ne_ok
      split at h
      · exact absurd h invalidChain_ne_ok
      split at h
      · exact absurd h invalidChain_ne_ok
      split at h
      · exact absurd h invalidChain_ne_ok
      rename_i hseen hparent happ hbackend hhash
      rcases ih.mp h with ⟨hchain, hrest, hnodup⟩
      rw [not_not] at hparent happ hbackend hhash
      refine ⟨List.isChain_cons_cons.mpr ⟨⟨hparent, happ, hbackend, hhash⟩, hchain⟩, ?_, ?_⟩
      · rw [List.forall_mem_cons]
        exact ⟨hseen, fun m hm hmem => hrest m hm (List.mem_cons_of_mem _ hmem)⟩
      · rw [List.map_cons, List.nodup_cons]
        refine ⟨fun hmem => ?_, hnodup⟩
        rcases List.mem_map.mp hmem with ⟨m, hm, heq⟩
        exact hrest m hm (heq ▸ List.mem_cons_self)
    · intro h
      rcases h with ⟨hchain, hseen, hnodup⟩
      rw [List.isChain_cons_cons] at hchain
      rw [List.forall_mem_cons] at hseen
      rw [List.map_cons, List.nodup_cons] at hnodup
      rcases hchain with ⟨⟨hparent, happ, hbackend, hhash⟩, hchain⟩
      rw [if_neg hseen.1, if_neg (not_not_intro hparent), if_neg (not_not_intro happ),
        if_neg (not_not_intro hbackend), if_neg (not_not_intro hhash), ih]
      refine ⟨hchain, fun m hm hmem => ?_, hnodup.2⟩
      rcases List.mem_cons.mp hmem with heq | hmem
      · exact hnodup.1 (heq ▸ List.mem_map_of_mem hm)
      · exact hseen.2 m hm hmem

theorem validateManifestChain_eq_ok {chain : List BackupSnapshotManifest} :
    validateManifestChain chain = .ok () ↔ ValidChain chain := by
  cases chain with
  | nil =>
    refine ⟨fun h => absurd h invalidChain_ne_ok, ?_⟩
    intro h
    rcases h with ⟨⟨first, rest, hnil, _⟩, _, _⟩
    exact absurd hnil (by simp)
  | cons first rest =>
    rw [validateManifestChain]
    constructor
    · intro h
      split at h
      · exact absurd h invalidChain_ne_ok
      split at h
      · exact absurd h invalidChain_ne_ok
      rename_i hkind hparent
      rcases validatePairs_eq_ok.mp h with ⟨hchain, hseen, hnodup⟩
      refine ⟨⟨first, rest, rfl, not_not.mp hparent, ?_⟩, hchain, ?_⟩
      · rw [not_and_or, not_not, not_not] at hkind
        exact hkind
      · rw [List.map_cons, List.nodup_cons]
        refine ⟨fun hmem => ?_, hnodup⟩
        rcases List.mem_map.mp hmem with ⟨m, hm, heq⟩
        exact hseen m hm (by simp [heq])
    · intro h
      rcases h with ⟨⟨_, _, heq, hparent, hkind⟩, hchain, hnodup⟩
      obtain ⟨rfl, rfl⟩ := List.cons.inj heq
      rw [List.map_cons, List.nodup_cons] at hnodup
      rw [if_neg (by rw [not_and_or, not_not, not_not]; exact hkind),
        if_neg (not_not_intro hparent), validatePairs_eq_ok]
      refine ⟨hchain, fun m hm hmem => ?_, hnodup.2⟩
      exact hnodup.1 ((List.mem_singleton.mp hmem) ▸ List.mem_map_of_mem hm)

/-- A field that neighbours agree on is the same in the whole chain. -/
theorem IsChain.agree {β : Type} (field : BackupSnapshotManifest → β)
    (hfield : ∀ parent child, Follows parent child → field child = field parent)
    {first : BackupSnapshotManifest} {rest : List BackupSnapshotManifest}
    (h : (first :: rest).IsChain Follows) : ∀ m ∈ first :: rest, field m = field first := by
  induction rest generalizing first with
  | nil => simp
  | cons child rest ih =>
    rw [List.isChain_cons_cons] at h
    rw [List.forall_mem_cons]
    exact ⟨rfl, fun m hm => (ih h.2 m hm).trans (hfield _ _ h.1)⟩

theorem ValidChain.agree {β : Type} {chain : List BackupSnapshotManifest} (h : ValidChain chain)
    (field : BackupSnapshotManifest → β)
    (hfield : ∀ parent child, Follows parent child → field child = field parent) :
    ∀ m ∈ chain, ∀ m' ∈ chain, field m = field m' := by
  obtain ⟨first, rest, rfl, _⟩ := h.root
  exact fun m hm m' hm' =>
    (IsChain.agree field hfield h.linked m hm).trans
      (IsChain.agree field hfield h.linked m' hm').symm

/-- What a chain is as a whole: a full root, every other manifest a child of the
    one before it, no snapshot twice, and one application, backend and schema. -/
structure WellFormedChain (chain : List BackupSnapshotManifest) : Prop where
  root : ∃ first ∈ chain.head?, (first.backupKind = .full ∨ first.backupKind = .syntheticFull) ∧
    first.parentSnapshotId = none
  linked : ∀ (i : Nat) (_ : i + 1 < chain.length),
    chain[i + 1].parentSnapshotId = some chain[i].snapshotId
  distinct : chain.Pairwise fun m m' => m.snapshotId ≠ m'.snapshotId
  appId : ∀ m ∈ chain, ∀ m' ∈ chain, m.appId = m'.appId
  databaseBackend : ∀ m ∈ chain, ∀ m' ∈ chain, m.databaseBackend = m'.databaseBackend
  graphqlOrmSchemaHash : ∀ m ∈ chain, ∀ m' ∈ chain,
    m.graphqlOrmSchemaHash = m'.graphqlOrmSchemaHash

theorem ValidChain.wellFormed {chain : List BackupSnapshotManifest} (h : ValidChain chain) :
    WellFormedChain chain := by
  obtain ⟨first, rest, heq, hparent, hkind⟩ := h.root
  constructor
  · rw [heq]
    exact ⟨first, rfl, hkind, hparent⟩
  · intro i hi
    exact (List.isChain_iff_getElem.mp h.linked i hi).parentSnapshotId
  · exact List.pairwise_map.mp h.nodup
  · exact h.agree (·.appId) fun _ _ hfollows => hfollows.appId
  · exact h.agree (·.databaseBackend) fun _ _ hfollows => hfollows.databaseBackend
  · exact h.agree (·.graphqlOrmSchemaHash) fun _ _ hfollows => hfollows.graphqlOrmSchemaHash

theorem WellFormedChain.validChain {chain : List BackupSnapshotManifest}
    (h : WellFormedChain chain) : ValidChain chain := by
  obtain ⟨first, hfirst, hkind, hparent⟩ := h.root
  obtain ⟨rest, heq⟩ := List.head?_eq_some_iff.mp hfirst
  refine ⟨⟨first, rest, heq, hparent, hkind⟩, ?_, List.pairwise_map.mpr h.distinct⟩
  rw [List.isChain_iff_getElem]
  intro i hi
  have hchild : chain[i + 1] ∈ chain := List.getElem_mem hi
  have hmem : chain[i] ∈ chain := List.getElem_mem _
  exact ⟨h.linked i hi, h.appId _ hchild _ hmem, h.databaseBackend _ hchild _ hmem,
    h.graphqlOrmSchemaHash _ hchild _ hmem⟩

/-- **The chain validator** accepts exactly the well-formed chains. -/
theorem validateManifestChain_accepts_wellFormed (chain : List BackupSnapshotManifest) :
    validateManifestChain chain = .ok () ↔ WellFormedChain chain := by
  rw [validateManifestChain_eq_ok]
  exact ⟨ValidChain.wellFormed, WellFormedChain.validChain⟩

theorem validChain_append {a b : List BackupSnapshotManifest} {last : BackupSnapshotManifest}
    (hlast : a.getLast? = some last) : ValidChain (a ++ b) ↔ ValidChain a ∧
      (∀ child ∈ b.head?, Follows last child) ∧ b.IsChain Follows ∧
      (b.map (·.snapshotId)).Nodup ∧
      ∀ m ∈ a, ∀ m' ∈ b, m.snapshotId ≠ m'.snapshotId := by
  rcases List.getLast?_eq_some_iff.mp hlast with ⟨pre, rfl⟩
  have hroot : ∀ rest first, (pre ++ [last]) ++ b = first :: rest →
      ∃ rest', pre ++ [last] = first :: rest' := by
    intro rest first heq
    cases pre with
    | nil => exact ⟨[], by simpa using (List.cons.inj heq).1⟩
    | cons m pre => exact ⟨pre ++ [last], by simpa using (List.cons.inj heq).1⟩
  constructor
  · intro h
    rcases h with ⟨⟨first, rest, heq, hparent, hkind⟩, hlinked, hnodup⟩
    obtain ⟨rest', heq'⟩ := hroot rest first heq
    rcases List.isChain_append.mp hlinked with ⟨ha, hb, hab⟩
    rw [List.map_append, List.nodup_append] at hnodup
    refine ⟨⟨⟨first, rest', heq', hparent, hkind⟩, ha, hnodup.1⟩, ?_, hb, hnodup.2.1, ?_⟩
    · exact fun child hchild => hab last (by simp) child hchild
    · exact fun m hm m' hm' =>
        hnodup.2.2 _ (List.mem_map_of_mem hm) _ (List.mem_map_of_mem hm')
  · intro h
    rcases h with ⟨⟨⟨first, rest, heq, hparent, hkind⟩, ha, hnodup⟩, hhead, hb, hnodup', hdisjoint⟩
    refine ⟨⟨first, rest ++ b, by rw [heq, List.cons_append], hparent, hkind⟩, ?_, ?_⟩
    · refine List.isChain_append.mpr ⟨ha, hb, fun m hm child hchild => ?_⟩
      rw [hlast, Option.mem_some] at hm
      exact hm ▸ hhead child hchild
    · rw [List.map_append, List.nodup_append]
      refine ⟨hnodup, hnodup', ?_⟩
      rintro _ hm _ hm' rfl
      rcases List.mem_map.mp hm with ⟨m, hm, heq⟩
      rcases List.mem_map.mp hm' with ⟨m', hm', heq'⟩
      exact hdisjoint m hm m' hm' (heq.trans heq'.symm)

/-! ## The lineage of a snapshot -/

section Codec

variable [Crates]

/-- The lineage of a snapshot among the stored manifests. -/
def ManifestPath (s : Store) : Uuid → List (Uuid × BackupSnapshotManifest) → Prop :=
  Lineage (fun id manifest => loadManifest s id = .ok manifest) (·.parentSnapshotId)

theorem loadManifest_functional (s : Store) (id : Uuid) (m m' : BackupSnapshotManifest)
    (h : loadManifest s id = .ok m) (h' : loadManifest s id = .ok m') : m = m' :=
  Except.ok.inj (h.symm.trans h')

/-- Apart from the last, the manifests of a valid chain are filed under their
    own ids: that is how their children found them. -/
theorem ManifestPath.snapshotId_eq {s : Store} {id : Uuid}
    {path : List (Uuid × BackupSnapshotManifest)} (h : ManifestPath s id path)
    (hlinked : (path.map Prod.snd).IsChain Follows) :
    ∀ node ∈ path, node.1 ≠ id → node.2.snapshotId = node.1 := by
  unfold ManifestPath at h
  induction h with
  | root hload hparent =>
    intro node hmem hne
    rw [List.mem_singleton] at hmem
    exact absurd (hmem ▸ rfl) hne
  | @child id p manifest path hload hparent hpath ih =>
    intro node hmem hne
    have hmem := (List.mem_append.mp hmem).resolve_right fun hmem =>
      hne ((List.mem_singleton.mp hmem) ▸ rfl)
    rw [List.map_append] at hlinked
    rcases List.isChain_append.mp hlinked with ⟨hpre, _, hlast⟩
    by_cases hp : node.1 = p
    · obtain ⟨pre, parent, rfl, hstored⟩ := hpath.exists_last
      have hnode : node.2 = parent :=
        loadManifest_functional s _ _ _ (hpath.stored_of_mem node hmem) (hp ▸ hstored)
      have hfollows := hlast parent (by simp) manifest (by simp)
      rw [hnode, hp]
      exact Option.some.inj (hfollows.parentSnapshotId.symm.trans hparent)
    · exact ih hpre node hmem hp

theorem loadManifestChainLoop_root {s : Store} {seen : List Uuid}
    {chain : List BackupSnapshotManifest} {id : Uuid} {manifest : BackupSnapshotManifest}
    (hseen : id ∉ seen) (hload : loadManifest s id = .ok manifest)
    (hparent : manifest.parentSnapshotId = none) :
    loadManifestChainLoop s seen chain id = .ok (manifest :: chain) := by
  rw [loadManifestChainLoop, dif_neg hseen]
  split
  · next e he => exact absurd (hload.symm.trans he) (by simp)
  · next m hm =>
    obtain rfl := loadManifest_functional s id _ _ hload hm
    rw [hparent]

theorem loadManifestChainLoop_child {s : Store} {seen : List Uuid}
    {chain : List BackupSnapshotManifest} {id next : Uuid} {manifest : BackupSnapshotManifest}
    (hseen : id ∉ seen) (hload : loadManifest s id = .ok manifest)
    (hparent : manifest.parentSnapshotId = some next) :
    loadManifestChainLoop s seen chain id =
      loadManifestChainLoop s (id :: seen) (manifest :: chain) next := by
  rw [loadManifestChainLoop, dif_neg hseen]
  split
  · next e he => exact absurd (hload.symm.trans he) (by simp)
  · next m hm =>
    obtain rfl := loadManifest_functional s id _ _ hload hm
    simp only [hparent]

/-- The loop returns the lineage, unless it comes upon an id seen before. -/
theorem loadManifestChainLoop_eq_ok {s : Store} {seen : List Uuid}
    {chain out : List BackupSnapshotManifest} {id : Uuid} :
    loadManifestChainLoop s seen chain id = .ok out ↔
      ∃ path, ManifestPath s id path ∧ (∀ key ∈ path.map Prod.fst, key ∉ seen) ∧
        out = path.map Prod.snd ++ chain := by
  constructor
  · fun_induction loadManifestChainLoop s seen chain id with
    | case1 seen chain id hseen => exact fun h => absurd h invalidChain_ne_ok
    | case2 seen chain id hseen e hload => exact fun h => absurd h (by simp)
    | case3 seen chain id hseen manifest hload hparent =>
      intro h
      refine ⟨[(id, manifest)], Lineage.root hload hparent, by simpa using hseen, ?_⟩
      exact (Except.ok.inj h).symm
    | case4 seen chain id hseen manifest hload next hparent ih =>
      intro h
      obtain ⟨path, hpath, hfresh, rfl⟩ := ih h
      refine ⟨path ++ [(id, manifest)], Lineage.child hload hparent hpath, ?_, by simp⟩
      intro key hkey hmem
      rw [List.map_append, List.mem_append] at hkey
      rcases hkey with hkey | hkey
      · exact hfresh key hkey (List.mem_cons_of_mem _ hmem)
      · obtain rfl : key = id := List.mem_singleton.mp hkey
        exact hseen hmem
  · intro h
    rcases h with ⟨path, hpath, hfresh, rfl⟩
    -- by induction on the lineage: no key of it was seen, and none occurs twice
    unfold ManifestPath at hpath
    induction hpath generalizing seen chain with
    | root hload hparent =>
      exact loadManifestChainLoop_root (hfresh _ List.mem_cons_self) hload hparent
    | child hload hparent hpath ih =>
      rw [List.map_append] at hfresh
      have hseen := hfresh _ (List.mem_append_right _ List.mem_cons_self)
      rw [loadManifestChainLoop_child hseen hload hparent, ih]
      · simp
      · intro key hkey hmem
        rcases List.mem_cons.mp hmem with rfl | hmem
        · exact Lineage.notMem_of_child (loadManifest_functional s) hload hparent hpath hkey
        · exact hfresh key (List.mem_append_left _ hkey) hmem

/-- **Loading a chain** returns the lineage of the snapshot, if it is valid. -/
theorem loadManifestChain_eq_ok {s : Store} {id : Uuid} {chain : List BackupSnapshotManifest} :
    loadManifestChain s id = .ok chain ↔
      ∃ path, ManifestPath s id path ∧ chain = path.map Prod.snd ∧ ValidChain chain := by
  simp only [loadManifestChain, bind_eq_ok, pure_eq_ok, loadManifestChainLoop_eq_ok,
    List.append_nil]
  constructor
  · intro h
    rcases h with ⟨_, ⟨path, hpath, _, rfl⟩, ⟨⟩, hvalid, rfl⟩
    exact ⟨path, hpath, rfl, validateManifestChain_eq_ok.mp hvalid⟩
  · intro h
    rcases h with ⟨path, hpath, rfl, hvalid⟩
    exact ⟨_, ⟨path, hpath, by simp, rfl⟩, (), validateManifestChain_eq_ok.mpr hvalid, rfl⟩

/-- The manifest that was asked for comes last, and every other one is filed
    under its own id. -/
structure FiledChain (s : Store) (id : Uuid) (chain : List BackupSnapshotManifest) : Prop where
  asked : ∃ leaf, chain.getLast? = some leaf ∧ loadManifest s id = .ok leaf
  filed : ∀ manifest ∈ chain.dropLast, loadManifest s manifest.snapshotId = .ok manifest

theorem loadManifest_eq_ok {s : Store} {id : Uuid} {manifest : BackupSnapshotManifest} :
    loadManifest s id = .ok manifest ↔ ∃ body, s.lookup (manifestKey id) = some body ∧
      DeserializeJson.fromSlice body = .ok manifest ∧ verifyManifestChecksum manifest = .ok () := by
  simp only [loadManifest, bind_eq_ok, pure_eq_ok, Store.getBlob_eq_ok, mapError_eq_ok]
  constructor
  · intro h
    rcases h with ⟨body, hbody, _, hparse, ⟨⟩, hverify, rfl⟩
    exact ⟨body, hbody, hparse, hverify⟩
  · intro h
    rcases h with ⟨body, hbody, hparse, hverify⟩
    exact ⟨body, hbody, manifest, hparse, (), hverify, rfl⟩

theorem ManifestPath.filedChain {s : Store} {id : Uuid}
    {path : List (Uuid × BackupSnapshotManifest)} (hpath : ManifestPath s id path)
    (hlinked : (path.map Prod.snd).IsChain Follows) : FiledChain s id (path.map Prod.snd) := by
  obtain ⟨pre, leaf, rfl, hleaf⟩ := hpath.exists_last
  refine ⟨⟨leaf, by simp, hleaf⟩, ?_⟩
  rw [List.map_append, List.map_singleton, List.dropLast_concat]
  intro manifest hmem
  rcases List.mem_map.mp hmem with ⟨node, hnode, rfl⟩
  have hstored := hpath.stored_of_mem node (List.mem_append_left _ hnode)
  -- no id occurs twice on the lineage, so the node is not the last one
  have hne : node.1 ≠ id := by
    have hnodup := Lineage.nodup (loadManifest_functional s) hpath
    rw [List.map_append, List.nodup_append] at hnodup
    exact hnodup.2.2 _ (List.mem_map_of_mem hnode) _ (by simp)
  rw [hpath.snapshotId_eq hlinked node (List.mem_append_left _ hnode) hne]
  exact hstored

/-- A filed chain follows the parent pointers. -/
theorem FiledChain.manifestPath {s : Store} {chain : List BackupSnapshotManifest} :
    ∀ {id : Uuid}, FiledChain s id chain → ValidChain chain →
      ∃ path, ManifestPath s id path ∧ chain = path.map Prod.snd := by
  induction chain using List.reverseRecOn with
  | nil =>
    intro id h _
    obtain ⟨leaf, hleaf, _⟩ := h.asked
    exact absurd hleaf (by simp)
  | append_singleton ancestors leaf ih =>
    intro id h hvalid
    obtain ⟨leaf', hleaf, hload⟩ := h.asked
    rw [List.getLast?_concat] at hleaf
    obtain rfl := Option.some.inj hleaf
    have hfiled := h.filed
    rw [List.dropLast_concat] at hfiled
    rcases List.eq_nil_or_concat ancestors with rfl | ⟨older, parent, rfl⟩
    · obtain ⟨first, rest, heq, hroot, _⟩ := hvalid.root
      obtain ⟨rfl, _⟩ := List.cons.inj heq
      exact ⟨[(id, _)], Lineage.root hload hroot, rfl⟩
    · rw [List.concat_eq_append] at *
      have hlast : (older ++ [parent]).getLast? = some parent := by simp
      obtain ⟨hvalid', hfollows, _⟩ := (validChain_append hlast).mp hvalid
      have hfiled' : FiledChain s parent.snapshotId (older ++ [parent]) := by
        refine ⟨⟨parent, hlast, hfiled parent (by simp)⟩, fun manifest hmem => hfiled manifest ?_⟩
        rw [List.dropLast_concat] at hmem
        exact List.mem_append_left _ hmem
      obtain ⟨path, hpath, heq⟩ := ih hfiled' hvalid'
      have hparent := (hfollows leaf (by simp)).parentSnapshotId
      exact ⟨path ++ [(id, leaf)], Lineage.child hload hparent hpath, by simp [heq]⟩

/-- The chains that are loaded are the filed chains that are valid. -/
theorem loadManifestChain_iff_filedChain {s : Store} {id : Uuid}
    {chain : List BackupSnapshotManifest} :
    loadManifestChain s id = .ok chain ↔ FiledChain s id chain ∧ ValidChain chain := by
  rw [loadManifestChain_eq_ok]
  constructor
  · intro h
    rcases h with ⟨path, hpath, rfl, hvalid⟩
    exact ⟨hpath.filedChain hvalid.linked, hvalid⟩
  · intro h
    rcases h with ⟨hfiled, hvalid⟩
    obtain ⟨path, hpath, rfl⟩ := hfiled.manifestPath hvalid
    exact ⟨path, hpath, rfl, hvalid⟩

/-! ## The checksum that is set -/

theorem setManifestChecksum_eq_ok {base manifest : BackupSnapshotManifest} :
    setManifestChecksum base = .ok manifest ↔
      ∃ checksum, manifestChecksum base = .ok checksum ∧ manifest = { base with checksum } := by
  rw [setManifestChecksum, bind_eq_ok]
  simp only [pure_eq_ok, eq_comm (b := manifest)]

theorem manifestChecksum_congr (manifest : BackupSnapshotManifest) (checksum : String) :
    manifestChecksum { manifest with checksum } = manifestChecksum manifest := rfl

/-- The checksum that is set is the one that is checked. -/
theorem verifyManifestChecksum_of_set {base manifest : BackupSnapshotManifest}
    (h : setManifestChecksum base = .ok manifest) : verifyManifestChecksum manifest = .ok () := by
  rcases setManifestChecksum_eq_ok.mp h with ⟨checksum, hchecksum, rfl⟩
  rw [verifyManifestChecksum, manifestChecksum_congr, hchecksum]
  exact if_pos rfl

end Codec

end GraphqlOrmBackup
