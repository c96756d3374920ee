import GraphqlOrmBackup.CrashConsistency

/-!
# Whether every chain still loads

The writers check neither the parent that a request names nor the snapshot
whose id it reuses.  This file says exactly when a successful writer leaves
every stored manifest with a chain that loads.
-/

namespace GraphqlOrmBackup

open Interaction

/-- What neighbours of a chain agree on. -/
structure Header where
  appId : String
  databaseBackend : String
  graphqlOrmSchemaHash : String
deriving DecidableEq

def BackupSnapshotManifest.header (manifest : BackupSnapshotManifest) : Header :=
  ⟨manifest.appId, manifest.databaseBackend, manifest.graphqlOrmSchemaHash⟩

theorem follows_iff {parent child : BackupSnapshotManifest} : Follows parent child ↔
    child.parentSnapshotId = some parent.snapshotId ∧ child.header = parent.header := by
  constructor
  · intro h
    rcases h with ⟨hparent, happ, hbackend, hhash⟩
    exact ⟨hparent, by simp [BackupSnapshotManifest.header, happ, hbackend, hhash]⟩
  · intro h
    rcases h with ⟨hparent, hheader⟩
    obtain ⟨happ, hbackend, hhash⟩ := Header.mk.inj hheader
    exact ⟨hparent, happ, hbackend, hhash⟩

section Codec

variable [Crates]

/-- Every stored manifest has a chain that loads. -/
def AllLoadable (s : Store) : Prop :=
  ∀ id, manifestKey id ∈ s → ∃ chain, loadManifestChain s id = .ok chain

/-- The stored children of a snapshot have the header. -/
def ChildrenShare (s : Store) (id : Uuid) (header : Header) : Prop :=
  ∀ x child, loadManifest s x = .ok child → child.parentSnapshotId = some id →
    child.header = header

/-- No stored descendant of a snapshot bears an id of the chain.  This can only
    fail of a descendant that is filed under another id than its own. -/
def DescendantsAvoid (s : Store) (id : Uuid) (chain : List BackupSnapshotManifest) : Prop :=
  ∀ x xchain leaf, loadManifestChain s x = .ok xchain → loadManifest s x = .ok leaf →
    id ∈ xchain.dropLast.map (·.snapshotId) → ∀ m ∈ chain, m.snapshotId ≠ leaf.snapshotId

/-! ## One manifest replaced -/

/-- The stores differ, as far as manifests go, in the manifest of one id. -/
structure Replaces (s s' : Store) (id : Uuid) (manifest : BackupSnapshotManifest) : Prop where
  self : loadManifest s' id = .ok manifest
  other : ∀ x, x ≠ id → loadManifest s' x = loadManifest s x
  mem : ∀ x, x ≠ id → manifestKey x ∈ s' → manifestKey x ∈ s

section

variable {s s' : Store} {id x : Uuid} {manifest : BackupSnapshotManifest}

theorem AllLoadable.path (h : AllLoadable s) {m : BackupSnapshotManifest}
    (hload : loadManifest s x = .ok m) :
    ∃ path, ManifestPath s x path ∧ ValidChain (path.map Prod.snd) := by
  obtain ⟨chain, hchain⟩ := h x (lookup_of_loadManifest hload)
  rcases loadManifestChain_eq_ok.mp hchain with ⟨path, hpath, rfl, hvalid⟩
  exact ⟨path, hpath, hvalid⟩

theorem ManifestPath.unique {path path' : List (Uuid × BackupSnapshotManifest)}
    (h : ManifestPath s x path) (h' : ManifestPath s x path') : path = path' :=
  Lineage.unique (loadManifest_functional s) h h'

/-- A path that avoids the id is a path of both stores. -/
theorem Replaces.path_iff (h : Replaces s s' id manifest)
    {path : List (Uuid × BackupSnapshotManifest)} (hid : id ∉ path.map Prod.fst) :
    ManifestPath s' x path ↔ ManifestPath s x path := by
  have hne : ∀ node ∈ path, node.1 ≠ id := fun node hmem heq =>
    hid (heq ▸ List.mem_map_of_mem hmem)
  constructor
  · exact fun hpath => Lineage.congr hpath fun node hmem hload =>
      (h.other _ (hne node hmem)) ▸ hload
  · exact fun hpath => Lineage.congr hpath fun node hmem hload =>
      (h.other _ (hne node hmem)).trans hload

/-- The id of a loadable chain's member that is not the last is its key. -/
theorem ManifestPath.key_mem_of_dropLast {path : List (Uuid × BackupSnapshotManifest)}
    (hpath : ManifestPath s x path) (hvalid : ValidChain (path.map Prod.snd))
    (hmem : id ∈ (path.map Prod.snd).dropLast.map (·.snapshotId)) :
    x ≠ id ∧ id ∈ path.map Prod.fst := by
  obtain ⟨pre, leaf, rfl, _⟩ := hpath.exists_last
  simp only [List.map_append, List.map_cons, List.map_nil, List.dropLast_concat,
    List.map_map] at hmem
  rcases List.mem_map.mp hmem with ⟨node, hnode, rfl⟩
  have hnodup := hpath.nodup (loadManifest_functional s)
  rw [List.map_append, List.nodup_append] at hnodup
  have hne : node.1 ≠ x := hnodup.2.2 _ (List.mem_map_of_mem hnode) _ (by simp)
  have hkey := hpath.snapshotId_eq hvalid.linked node (List.mem_append_left _ hnode) hne
  refine ⟨fun heq => hne (heq.trans hkey).symm, ?_⟩
  rw [Function.comp_apply, hkey]
  exact List.mem_map_of_mem (List.mem_append_left _ hnode)

/-- Below the replaced manifest a path continues as it did. -/
theorem Replaces.graft (h : Replaces s s' id manifest)
    {path path' : List (Uuid × BackupSnapshotManifest)} (hpath : ManifestPath s x path)
    (hx : x ≠ id) (hid : id ∈ path.map Prod.fst) (hpath' : ManifestPath s' id path') :
    ∃ pre old post, path = pre ++ (id, old) :: post ∧ post ≠ [] ∧
      ManifestPath s' x (path' ++ post) :=
  Lineage.graft hpath hx hid (fun key _ hne hload => (h.other key hne).trans hload) hpath'

theorem ManifestPath.getLast {path : List (Uuid × BackupSnapshotManifest)}
    (hpath : ManifestPath s x path) {leaf : BackupSnapshotManifest}
    (hload : loadManifest s x = .ok leaf) : path.getLast? = some (x, leaf) := by
  obtain ⟨pre, leaf', rfl, hload'⟩ := hpath.exists_last
  rw [loadManifest_functional s x _ _ hload hload', List.getLast?_concat]

theorem Replaces.getLast (h : Replaces s s' id manifest)
    {path : List (Uuid × BackupSnapshotManifest)} (hpath : ManifestPath s' id path) :
    (path.map Prod.snd).getLast? = some manifest := by
  rw [List.getLast?_map, hpath.getLast h.self]
  rfl

/-- What a loadable store asks of the chain of the replaced manifest. -/
theorem Replaces.of_allLoadable (hall : AllLoadable s) (h : Replaces s s' id manifest)
    (hid : manifest.snapshotId = id) (hall' : AllLoadable s') :
    ∃ chain, loadManifestChain s' id = .ok chain ∧ ChildrenShare s id manifest.header ∧
      DescendantsAvoid s id chain := by
  obtain ⟨chain, hchain⟩ := hall' id (lookup_of_loadManifest h.self)
  rcases loadManifestChain_eq_ok.mp hchain with ⟨path, hpath, rfl, hvalid⟩
  refine ⟨_, hchain, fun x child hload hparent => ?_, fun x xchain leaf hxchain hleaf hmem => ?_⟩
  · obtain ⟨oldPath, holdPath, _⟩ := hall.path hload
    have hx : x ≠ id := by
      rintro rfl
      cases holdPath with
      | root hload' hnone =>
        rw [loadManifest_functional s _ _ _ hload hload', hnone] at hparent
        exact absurd hparent (by simp)
      | child hload' hsome hrest =>
        rw [loadManifest_functional s _ _ _ hload hload'] at hparent
        obtain rfl := Option.some.inj (hsome.symm.trans hparent)
        exact Lineage.notMem_of_child (loadManifest_functional s) hload' hsome hrest hrest.key_mem
    have hload' := (h.other x hx).trans hload
    obtain ⟨newPath, hnewPath, hnewValid⟩ := hall'.path hload'
    have hnew : ManifestPath s' x (path ++ [(x, child)]) := Lineage.child hload' hparent hpath
    rw [hnewPath.unique hnew, List.map_append,
      validChain_append (h.getLast hpath)] at hnewValid
    exact (follows_iff.mp (hnewValid.2.1 child (by simp))).2
  · rcases loadManifestChain_eq_ok.mp hxchain with ⟨oldPath, holdPath, rfl, holdValid⟩
    obtain ⟨hx, hmem⟩ := holdPath.key_mem_of_dropLast holdValid hmem
    obtain ⟨pre, old, post, rfl, hpost, hnew⟩ := h.graft holdPath hx hmem hpath
    obtain ⟨newPath, hnewPath, hnewValid⟩ := hall'.path ((h.other x hx).trans hleaf)
    rw [hnewPath.unique hnew, List.map_append,
      validChain_append (h.getLast hpath)] at hnewValid
    have hlast := holdPath.getLast hleaf
    rw [List.getLast?_append_cons, List.getLast?_cons_of_ne_nil hpost] at hlast
    exact fun m hm => hnewValid.2.2.2.2 m hm leaf
      (List.mem_map_of_mem (List.mem_of_getLast? hlast))

/-- The chain of the replaced manifest carries over to every other chain. -/
theorem Replaces.allLoadable (hall : AllLoadable s) (h : Replaces s s' id manifest)
    (hid : manifest.snapshotId = id) {chain : List BackupSnapshotManifest}
    (hchain : loadManifestChain s' id = .ok chain)
    (hchildren : ChildrenShare s id manifest.header) (havoid : DescendantsAvoid s id chain) :
    AllLoadable s' := by
  rcases loadManifestChain_eq_ok.mp hchain with ⟨path, hpath, rfl, hvalid⟩
  intro x hx'
  by_cases hx : x = id
  · exact hx ▸ ⟨_, hchain⟩
  obtain ⟨xchain, hxchain⟩ := hall x (h.mem x hx hx')
  rcases loadManifestChain_eq_ok.mp hxchain with ⟨oldPath, holdPath, rfl, holdValid⟩
  by_cases hid' : id ∈ oldPath.map Prod.fst
  · obtain ⟨pre, old, post, rfl, hpost, hnew⟩ := h.graft holdPath hx hid' hpath
    have hkey := holdPath.snapshotId_eq holdValid.linked
    have holdKey : old.snapshotId = id := hkey (id, old) (by simp) (Ne.symm hx)
    have hlast : ((pre ++ [(id, old)]).map Prod.snd).getLast? = some old := by simp
    rw [List.append_cons, List.map_append, validChain_append hlast] at holdValid
    rcases holdValid with ⟨_, hhead, hlinked, hnodup, _⟩
    refine ⟨_, loadManifestChain_eq_ok.mpr ⟨_, hnew, rfl, ?_⟩⟩
    rw [List.map_append, validChain_append (h.getLast hpath)]
    refine ⟨hvalid, fun child hchild => ?_, hlinked, hnodup, fun m hm m' hm' => ?_⟩
    · rcases List.mem_map.mp (List.mem_of_mem_head? hchild) with ⟨node, hnode, rfl⟩
      have hfollows := (follows_iff.mp (hhead _ hchild)).1
      rw [holdKey] at hfollows
      refine follows_iff.mpr ⟨hid.symm ▸ hfollows, ?_⟩
      exact hchildren _ _ (holdPath.stored_of_mem node (by simp [hnode])) hfollows
    · rcases List.mem_map.mp hm' with ⟨node, hnode, rfl⟩
      by_cases hnodeKey : node.1 = x
      · have hnodeLoad := holdPath.stored_of_mem node (by simp [hnode])
        refine havoid x _ node.2 hxchain (hnodeKey ▸ hnodeLoad) ?_ m hm
        have hpost' : post.map Prod.snd ≠ [] := by simpa using hpost
        rw [List.map_append, List.map_cons, List.dropLast_append_cons,
          List.dropLast_cons_of_ne_nil hpost']
        simp [holdKey]
      · rcases List.mem_map.mp hm with ⟨other, hother, rfl⟩
        have hotherKey : other.2.snapshotId = other.1 := by
          by_cases heq : other.1 = id
          · have hload := hpath.stored_of_mem other hother
            rw [heq] at hload
            rw [loadManifest_functional s' _ _ _ hload h.self, hid, heq]
          · exact hpath.snapshotId_eq hvalid.linked other hother heq
        rw [hotherKey, hkey node (by simp [hnode]) hnodeKey]
        have hnodup := hnew.nodup (loadManifest_functional s')
        rw [List.map_append, List.nodup_append] at hnodup
        exact hnodup.2.2 _ (List.mem_map_of_mem hother) _ (List.mem_map_of_mem hnode)
  · exact ⟨_, loadManifestChain_eq_ok.mpr ⟨oldPath, (h.path_iff hid').mpr holdPath, rfl, holdValid⟩⟩

/-! ## A new root and a new child -/

/-- The manifest of a new root is its own chain. -/
theorem Replaces.chain_root (h : Replaces s s' id manifest)
    (hparent : manifest.parentSnapshotId = none)
    (hkind : manifest.backupKind = .full ∨ manifest.backupKind = .syntheticFull) :
    loadManifestChain s' id = .ok [manifest] := by
  refine loadManifestChain_eq_ok.mpr ⟨[(id, manifest)], Lineage.root h.self hparent, rfl, ?_⟩
  exact ⟨⟨manifest, [], rfl, hparent, hkind⟩, List.isChain_singleton _, by simp⟩

/-- No descendant of a snapshot bears the snapshot's own id. -/
theorem descendantsAvoid_self (hid : manifest.snapshotId = id) :
    DescendantsAvoid s id [manifest] := by
  intro x xchain leaf hxchain hleaf hmem m hm
  rw [List.mem_singleton] at hm
  rw [hm, hid]
  rcases loadManifestChain_eq_ok.mp hxchain with ⟨path, hpath, rfl, hvalid⟩
  have hlast : (path.map Prod.snd).getLast? = some leaf := by
    rw [List.getLast?_map, hpath.getLast hleaf]
    rfl
  rcases List.getLast?_eq_some_iff.mp hlast with ⟨init, hinit⟩
  have hnodup := hvalid.nodup
  rw [hinit, List.map_append, List.nodup_append] at hnodup
  rw [hinit, List.dropLast_concat] at hmem
  exact hnodup.2.2 _ hmem _ (by simp)

theorem DescendantsAvoid.append_iff {a b : List BackupSnapshotManifest} :
    DescendantsAvoid s id (a ++ b) ↔ DescendantsAvoid s id a ∧ DescendantsAvoid s id b := by
  constructor
  · intro h
    exact ⟨fun x xchain leaf hx hleaf hmem m hm =>
        h x xchain leaf hx hleaf hmem m (List.mem_append_left _ hm),
      fun x xchain leaf hx hleaf hmem m hm =>
        h x xchain leaf hx hleaf hmem m (List.mem_append_right _ hm)⟩
  · rintro ⟨ha, hb⟩ x xchain leaf hx hleaf hmem m hm
    rcases List.mem_append.mp hm with hm | hm
    · exact ha x xchain leaf hx hleaf hmem m hm
    · exact hb x xchain leaf hx hleaf hmem m hm

/-- What a child with the header asks of the parent it names. -/
structure ParentFits (s : Store) (id parentId : Uuid) (header : Header)
    (chain : List BackupSnapshotManifest) : Prop where
  loads : loadManifestChain s parentId = .ok chain
  parent : ∃ parent, loadManifest s parentId = .ok parent ∧ parent.snapshotId = parentId ∧
    parent.header = header
  acyclic : ∀ m ∈ chain, m.snapshotId ≠ id

/-- The manifest of a new child extends the chain of its parent. -/
theorem Replaces.chain_child (h : Replaces s s' id manifest) (hid : manifest.snapshotId = id)
    {parentId : Uuid} (hparent : manifest.parentSnapshotId = some parentId)
    {chain : List BackupSnapshotManifest} :
    loadManifestChain s' id = .ok chain ↔ ∃ parentChain,
      ParentFits s id parentId manifest.header parentChain ∧ chain = parentChain ++ [manifest] := by
  constructor
  · intro hchain
    rcases loadManifestChain_eq_ok.mp hchain with ⟨path, hpath, rfl, hvalid⟩
    cases hpath with
    | root hload hnone =>
      rw [← loadManifest_functional s' _ _ _ h.self hload, hparent] at hnone
      exact absurd hnone (by simp)
    | @child _ p m parentPath hload hsome hparentPath =>
      obtain rfl := loadManifest_functional s' _ _ _ h.self hload
      obtain rfl := Option.some.inj (hparent.symm.trans hsome)
      have hfresh := Lineage.notMem_of_child (loadManifest_functional s') hload hsome hparentPath
      have holdPath := (h.path_iff hfresh).mp hparentPath
      obtain ⟨init, parent, rfl, hparentLoad⟩ := holdPath.exists_last
      have hlast : ((init ++ [(parentId, parent)]).map Prod.snd).getLast? = some parent := by simp
      rw [List.map_append, validChain_append hlast] at hvalid
      have hfollows := follows_iff.mp (hvalid.2.1 manifest (by simp))
      refine ⟨_, ⟨loadManifestChain_eq_ok.mpr ⟨_, holdPath, rfl, hvalid.1⟩,
        ⟨parent, hparentLoad, ?_, hfollows.2.symm⟩, fun m hm heq => ?_⟩, by simp⟩
      · exact (Option.some.inj (hparent.symm.trans hfollows.1)).symm
      · exact hvalid.2.2.2.2 m hm manifest (by simp) (heq.trans hid.symm)
  · intro h
    rcases h with ⟨parentChain, ⟨hloads, ⟨parent, hload, hparentId, hheader⟩, hacyclic⟩, rfl⟩
    rcases loadManifestChain_eq_ok.mp hloads with ⟨path, hpath, rfl, hvalid⟩
    have hlast := hpath.getLast hload
    have hfresh : id ∉ path.map Prod.fst := by
      intro hmem
      rcases List.mem_map.mp hmem with ⟨node, hnode, rfl⟩
      apply hacyclic _ (List.mem_map_of_mem hnode)
      by_cases heq : node.1 = parentId
      · have hnodeLoad := hpath.stored_of_mem node hnode
        rw [heq] at hnodeLoad
        rw [loadManifest_functional s _ _ _ hnodeLoad hload, hparentId, heq]
      · exact hpath.snapshotId_eq hvalid.linked node hnode heq
    refine loadManifestChain_eq_ok.mpr ⟨path ++ [(id, manifest)],
      Lineage.child h.self hparent ((h.path_iff hfresh).mpr hpath), by simp, ?_⟩
    have hlast' : (path.map Prod.snd).getLast? = some parent := by
      rw [List.getLast?_map, hlast]
      rfl
    rw [validChain_append hlast']
    refine ⟨hvalid, fun child hchild => ?_, List.isChain_singleton _, by simp, ?_⟩
    · obtain rfl : manifest = child := by simpa using hchild
      exact follows_iff.mpr ⟨by rw [hparent, hparentId], hheader.symm⟩
    · intro m hm m' hm'
      rw [List.mem_singleton] at hm'
      rw [hm', hid]
      exact hacyclic m hm

theorem Replaces.allLoadable_root_iff (hall : AllLoadable s) (h : Replaces s s' id manifest)
    (hid : manifest.snapshotId = id) (hparent : manifest.parentSnapshotId = none)
    (hkind : manifest.backupKind = .full ∨ manifest.backupKind = .syntheticFull) :
    AllLoadable s' ↔ ChildrenShare s id manifest.header :=
  ⟨fun hall' => (h.of_allLoadable hall hid hall').choose_spec.2.1,
    fun hchildren => h.allLoadable hall hid (h.chain_root hparent hkind) hchildren
      (descendantsAvoid_self hid)⟩

theorem Replaces.allLoadable_child_iff (hall : AllLoadable s) (h : Replaces s s' id manifest)
    (hid : manifest.snapshotId = id) {parentId : Uuid}
    (hparent : manifest.parentSnapshotId = some parentId) :
    AllLoadable s' ↔ ∃ parentChain, ParentFits s id parentId manifest.header parentChain ∧
      ChildrenShare s id manifest.header ∧ DescendantsAvoid s id parentChain := by
  constructor
  · intro hall'
    obtain ⟨_, hchain, hchildren, havoid⟩ := h.of_allLoadable hall hid hall'
    obtain ⟨parentChain, hfits, rfl⟩ := (h.chain_child hid hparent).mp hchain
    exact ⟨parentChain, hfits, hchildren, (DescendantsAvoid.append_iff.mp havoid).1⟩
  · intro h
    rcases h with ⟨parentChain, hfits, hchildren, havoid⟩
    apply h.allLoadable hall hid ((h.chain_child hid hparent).mpr ⟨_, hfits, rfl⟩) hchildren
    exact DescendantsAvoid.append_iff.mpr ⟨havoid, descendantsAvoid_self hid⟩

end

/-! ## The writers -/

section

variable {host : Host} {w w' : World}

/-- A writer that has written its manifest has replaced one manifest. -/
theorem Writing.replaces {Sound : Prop} {id : Uuid} (hread : ManifestsReadBack)
    (h : Writing Sound id w w') {manifest : BackupSnapshotManifest}
    (hwritten : Written Sound id w'.store manifest) :
    Replaces w.store w'.store id manifest := by
  have hlookup : ∀ x, x ≠ id →
      w'.store.lookup (manifestKey x) = w.store.lookup (manifestKey x) := by
    intro x hx
    have hdir := inSnapshotDir_snapshotManifestKey x
    exact h.extends_ _ hdir.ne_lock (fun hdir' => hx (hdir'.unique hdir))
      (Or.inr fun hobj => hobj.not_inSnapshotDir x hdir)
  refine ⟨?_, fun x hx => loadManifest_congr (hlookup x hx), fun x hx hmem => ?_⟩
  · obtain ⟨doc, hdoc, hstored⟩ := hwritten.stored
    have hget : w'.store.getBlob (manifestKey id) = .ok doc := Store.getBlob_eq_ok.mpr hstored
    simp only [loadManifest, hget, hread manifest doc hdoc, hwritten.checksum, bind, Except.bind,
      Except.mapError, pure, Except.pure]
  · exact (Store.mem_congr (hlookup x hx)).mp hmem

/-- The stored children of the snapshot that a full backup writes, if its id is
    taken, have the application and the schema of the backup. -/
def FullFits (host : Host) (s : Store) (request : FullBackupRequest) : Prop :=
  ∀ schema, host.database.schemaSnapshot = .ok schema →
    ChildrenShare s request.snapshotId ⟨request.appId, schema.backend, schema.schemaHash⟩

/-- The parent of an incremental backup has a chain that loads, is filed under
    its own id, has the application and the schema of the backup, and does not
    descend from it; and if the backup's id is taken, its stored children have
    the application and the schema too, and no descendant bears the id of one of its ancestors. -/
def IncrementalFits (host : Host) (s : Store) (request : IncrementalBackupRequest) : Prop :=
  ∀ schema, host.database.schemaSnapshot = .ok schema →
    ∃ parentChain, ParentFits s request.snapshotId request.parentSnapshotId
        ⟨request.appId, schema.backend, schema.schemaHash⟩ parentChain ∧
      ChildrenShare s request.snapshotId ⟨request.appId, schema.backend, schema.schemaHash⟩ ∧
      DescendantsAvoid s request.snapshotId parentChain

/-- The stored children of the snapshot that a compaction writes, if its id is
    taken, have the application of the request and the schema of the source. -/
def CompactFits (s : Store) (request : CompactChainRequest) : Prop :=
  ∀ chain latest, loadManifestChain s request.sourceSnapshotId = .ok chain →
    chain.getLast? = some latest → ChildrenShare s request.snapshotId
      ⟨request.appId, latest.databaseBackend, latest.graphqlOrmSchemaHash⟩

section Writers

variable (hread : ManifestsReadBack) (hall : AllLoadable w.store)
include hread hall

theorem allLoadable_createFullBackup_iff {sched : List Poll} {request : FullBackupRequest}
    {options : BackupExecutionOptions} {result : FullBackupResult}
    (hret : Returns host.MayFail w (createFullBackupWithOptions sched request options).run
      (.ok result) w') :
    AllLoadable w'.store ↔ FullFits host w.store request := by
  obtain ⟨hwriting, hfull⟩ := returns_createFullBackup False.elim hret
  obtain ⟨schema, _, _, _, hschema, _, _, hset⟩ := hfull.contents
  rcases setManifestChecksum_eq_ok.mp hset with ⟨_, _, hmanifest⟩
  rw [(hwriting.replaces hread hfull.written).allLoadable_root_iff hall hfull.written.id
    (by rw [hmanifest]; rfl) (by rw [hmanifest]; exact Or.inl rfl), hmanifest]
  constructor
  · intro h schema' hschema'
    obtain rfl := Except.ok.inj (hschema.symm.trans hschema')
    exact h
  · exact fun h => h schema hschema

theorem allLoadable_createIncrementalBackup_iff {sched : List Poll}
    {request : IncrementalBackupRequest} {options : BackupExecutionOptions}
    {result : IncrementalBackupResult}
    (hret : Returns host.MayFail w (createIncrementalBackupWithOptions sched request options).run
      (.ok result) w') :
    AllLoadable w'.store ↔ IncrementalFits host w.store request := by
  obtain ⟨hwriting, hincremental⟩ := returns_createIncrementalBackup False.elim hret
  obtain ⟨schema, _, _, _, hschema, _, _, hset⟩ := hincremental.contents
  rcases setManifestChecksum_eq_ok.mp hset with ⟨_, _, hmanifest⟩
  have hparent : result.manifest.parentSnapshotId = some request.parentSnapshotId := by
    rw [hmanifest]
    rfl
  rw [(hwriting.replaces hread hincremental.written).allLoadable_child_iff hall
    hincremental.written.id hparent, hmanifest]
  constructor
  · intro h schema' hschema'
    obtain rfl := Except.ok.inj (hschema.symm.trans hschema')
    exact h
  · exact fun h => h schema hschema

theorem allLoadable_compactChain_iff {order : BackupSnapshotManifest → CompletionOrder}
    {request : CompactChainRequest} {options : BackupExecutionOptions} {result : CompactChainResult}
    (hret : Returns host.MayFail w (compactChainWithOptions order request options).run
      (.ok result) w') :
    AllLoadable w'.store ↔ CompactFits w.store request := by
  obtain ⟨hwriting, w₁, hsame, hcompact⟩ := returns_compactChain False.elim hret
  obtain ⟨root, rest, latest, _, _, hload₁, _, hlast, _, _, hset⟩ := hcompact.contents
  have hload := loadManifestChain_sameButLock hsame hload₁
  rcases setManifestChecksum_eq_ok.mp hset with ⟨_, _, hmanifest⟩
  rw [(hwriting.replaces hread hcompact.written).allLoadable_root_iff hall hcompact.written.id
    (by rw [hmanifest]; rfl) (by rw [hmanifest]; exact Or.inr rfl), hmanifest]
  constructor
  · intro h chain' latest' hload' hlast'
    obtain rfl := Except.ok.inj (hload.symm.trans hload')
    obtain rfl := Option.some.inj (hlast.symm.trans hlast')
    exact h
  · exact fun h => h (root :: rest) latest hload hlast

end Writers

/-- **When every chain still loads.**  A writer that succeeds on a repository
    in which every chain loads leaves it so if and only if its request fits
    what is stored. -/
theorem writers_keep_chains_loadable_iff (hread : ManifestsReadBack)
    (hall : AllLoadable w.store) :
    (∀ sched request options result, Returns host.MayFail w
        (createFullBackupWithOptions sched request options).run (.ok result) w' →
      (AllLoadable w'.store ↔ FullFits host w.store request)) ∧
    (∀ sched request options result, Returns host.MayFail w
        (createIncrementalBackupWithOptions sched request options).run (.ok result) w' →
      (AllLoadable w'.store ↔ IncrementalFits host w.store request)) ∧
    (∀ order request options result, Returns host.MayFail w
        (compactChainWithOptions order request options).run (.ok result) w' →
      (AllLoadable w'.store ↔ CompactFits w.store request)) :=
  ⟨fun _ _ _ _ => allLoadable_createFullBackup_iff hread hall,
    fun _ _ _ _ => allLoadable_createIncrementalBackup_iff hread hall,
    fun _ _ _ _ => allLoadable_compactChain_iff hread hall⟩

end

end Codec

section Orphan

open Reference

theorem allLoadable_emptyWorld : AllLoadable emptyWorld.store :=
  fun _ hmem => absurd hmem (AList.notMem_empty _)

def orphanRun : Except BackupError IncrementalBackupResult × World :=
  runDatabase [] []
    (createIncrementalBackupWithOptions [] (incrementalRequest (uuid 2) (uuid 1)) options) emptyWorld

theorem returns_orphanRun : ∃ result, Returns (database [] []).MayFail emptyWorld
    (createIncrementalBackupWithOptions [] (incrementalRequest (uuid 2) (uuid 1)) options).run
    (.ok result) orphanRun.2 := by
  have hok : orphanRun.1.isOk = true := by decide +kernel
  obtain ⟨result, hret⟩ := returns_runDatabase hok
  exact ⟨result, returns_mayFail hret⟩

theorem not_incrementalFits_emptyWorld :
    ¬ IncrementalFits (database [] []) emptyWorld.store (incrementalRequest (uuid 2) (uuid 1)) := by
  intro h
  obtain ⟨parentChain, hparent, -⟩ := h schema rfl
  rcases loadManifestChain_eq_ok.mp hparent.loads with ⟨_, hpath, -⟩
  obtain ⟨_, _, -, hload⟩ := hpath.exists_last
  exact AList.notMem_empty _ (lookup_of_loadManifest hload)

theorem writers_keep_chains_loadable_iff_orphan : ∃ result,
    Returns (database [] []).MayFail emptyWorld
      (createIncrementalBackupWithOptions [] (incrementalRequest (uuid 2) (uuid 1)) options).run
      (.ok result) orphanRun.2 ∧
    (AllLoadable orphanRun.2.store ↔
      IncrementalFits (database [] []) emptyWorld.store (incrementalRequest (uuid 2) (uuid 1))) := by
  rcases returns_orphanRun with ⟨result, hret⟩
  obtain ⟨-, hincremental, -⟩ :=
    writers_keep_chains_loadable_iff manifestsReadBack allLoadable_emptyWorld
  exact ⟨result, hret, hincremental _ _ _ _ hret⟩

/-- An incremental backup on a parent that does not exist succeeds, and leaves
    a snapshot whose chain does not load. -/
theorem incremental_without_parent_succeeds : AllLoadable emptyWorld.store ∧
    (∃ result, Returns (database [] []).MayFail emptyWorld
      (createIncrementalBackupWithOptions [] (incrementalRequest (uuid 2) (uuid 1)) options).run
      (.ok result) orphanRun.2) ∧
    ¬ AllLoadable orphanRun.2.store := by
  rcases returns_orphanRun with ⟨result, hret⟩
  have hiff := allLoadable_createIncrementalBackup_iff manifestsReadBack allLoadable_emptyWorld hret
  exact ⟨allLoadable_emptyWorld, ⟨result, hret⟩,
    fun h => not_incrementalFits_emptyWorld (hiff.mp h)⟩

end Orphan

end GraphqlOrmBackup
