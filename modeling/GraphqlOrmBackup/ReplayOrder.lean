import GraphqlOrmBackup.BackupChains
import GraphqlOrmBackup.RestoreSafety

/-!
# The order in which changes are replayed

An incremental snapshot has one payload a table, in the order in which the
tables first occur in the exported changes.  A restore hands its changes over
table by table: in journal order within a table, and by first occurrence
between tables.
-/

namespace GraphqlOrmBackup

open Interaction

/-! ## Positions -/

section Positions

variable {α : Type}

/-- The elements at positions that satisfy a condition on the element. -/
theorem filterMap_filter_range (l : List α) (p : α → Bool) :
    ((List.range l.length).filter fun i => (l[i]?).any p).filterMap (l[·]?) = l.filter p := by
  induction l using List.reverseRecOn with
  | nil => rfl
  | append_singleton l a ih =>
    have hin : ∀ i ∈ List.range l.length, (l ++ [a])[i]? = l[i]? := fun i hi =>
      List.getElem?_append_left (List.mem_range.mp hi)
    have hlast : (l ++ [a])[l.length]? = some a := by simp
    rw [List.length_append, List.length_singleton, List.range_succ, List.filter_append,
      List.filterMap_append, List.filter_append]
    congr 1
    · rw [← ih]
      rw [List.filter_congr fun i hi => by rw [hin i hi]]
      exact List.filterMap_congr fun i hi => hin i (List.mem_filter.mp hi).1
    · rw [List.filter_singleton, List.filter_singleton, hlast, Option.any_some]
      cases p a with
      | true => simp
      | false => rfl

end Positions

variable {changes : List BackupChangeExport}

/-- The position of the first change of a table. -/
def firstChangeOf (changes : List BackupChangeExport) (tableName : String) : Nat :=
  changes.findIdx fun change => change.tableName = tableName

/-- The position of the first change of the table of the change at a position. -/
def tablePosition (changes : List BackupChangeExport) (i : Nat) : Nat :=
  ((changes[i]?).map fun change => firstChangeOf changes change.tableName).getD changes.length

/-- The change at `i` is replayed before the one at `j`. -/
def ReplayedBefore (changes : List BackupChangeExport) (i j : Nat) : Prop :=
  tablePosition changes i < tablePosition changes j ∨
    (tablePosition changes i = tablePosition changes j ∧ i < j)

/-- `sent` lists the changes by tables in the order of their first changes, and
    the changes of a table in order: `positions` says which change comes when. -/
def ReplaysByTable (changes sent : List BackupChangeExport) : Prop :=
  ∃ positions : List Nat, positions.Perm (List.range changes.length) ∧
    sent = positions.filterMap (changes[·]?) ∧ positions.Pairwise (ReplayedBefore changes)

/-! ## The order of the groups -/

def tableNames (changes : List BackupChangeExport) : List String :=
  (groupChangesByTable changes).map (·.tableName)

theorem groupChangesByTable_concat (change : BackupChangeExport) :
    groupChangesByTable (changes ++ [change]) = pushChange (groupChangesByTable changes) change := by
  rw [groupChangesByTable, List.foldl_append]
  rfl

/-- A new table goes to the end. -/
theorem tableNames_pushChange (groups : List ChangeGroup) (change : BackupChangeExport) :
    (pushChange groups change).map (·.tableName) =
      if change.tableName ∈ groups.map (·.tableName) then groups.map (·.tableName)
      else groups.map (·.tableName) ++ [change.tableName] := by
  induction groups with
  | nil => rfl
  | cons group groups ih =>
    rw [pushChange]
    by_cases hname : group.tableName = change.tableName
    · rw [if_pos hname, if_pos (by simp [hname])]
      rfl
    · rw [if_neg hname, List.map_cons, List.map_cons, ih]
      by_cases hmem : change.tableName ∈ groups.map (·.tableName)
      · rw [if_pos hmem, if_pos (List.mem_cons_of_mem _ hmem)]
      · rw [if_neg hmem, if_neg (by simp [Ne.symm hname, hmem]), List.cons_append]

theorem mem_tableNames {tableName : String} :
    tableName ∈ tableNames changes ↔ ∃ change ∈ changes, change.tableName = tableName := by
  induction changes using List.reverseRecOn with
  | nil => simp [tableNames, groupChangesByTable]
  | append_singleton changes change ih =>
    rw [tableNames, groupChangesByTable_concat, mem_tableNames_pushChange, ← tableNames, ih]
    simp [eq_comm, or_and_right, exists_or]

theorem firstChangeOf_lt {tableName : String} (h : tableName ∈ tableNames changes) :
    firstChangeOf changes tableName < changes.length := by
  rcases mem_tableNames.mp h with ⟨change, hmem, hname⟩
  exact List.findIdx_lt_length_of_exists ⟨change, hmem, by simpa using hname⟩

/-- The tables are listed by their first changes. -/
theorem pairwise_tableNames (changes : List BackupChangeExport) :
    (tableNames changes).Pairwise fun left right =>
      firstChangeOf changes left < firstChangeOf changes right := by
  induction changes using List.reverseRecOn with
  | nil => exact List.Pairwise.nil
  | append_singleton changes change ih =>
    -- the first changes of the tables so far stay the first
    have hold : ∀ name ∈ tableNames changes,
        firstChangeOf (changes ++ [change]) name = firstChangeOf changes name := by
      intro name hname
      rw [firstChangeOf, List.findIdx_append]
      exact if_pos (firstChangeOf_lt hname)
    have hpair : (tableNames changes).Pairwise fun left right =>
        firstChangeOf (changes ++ [change]) left < firstChangeOf (changes ++ [change]) right :=
      ih.imp_of_mem fun hleft hright hlt => by rwa [hold _ hleft, hold _ hright]
    rw [tableNames, groupChangesByTable_concat, tableNames_pushChange, ← tableNames]
    split
    · exact hpair
    · next hnew =>
      refine List.pairwise_append.mpr ⟨hpair, List.pairwise_singleton _ _, ?_⟩
      intro left hleft right hright
      have hnone : ¬ firstChangeOf changes change.tableName < changes.length := by
        intro hlt
        refine hnew (mem_tableNames.mpr ⟨_, List.getElem_mem hlt, ?_⟩)
        exact of_decide_eq_true (List.findIdx_getElem (w := hlt))
      have hfirst : changes.length ≤ firstChangeOf (changes ++ [change]) change.tableName := by
        rw [firstChangeOf, List.findIdx_append]
        exact (if_neg hnone).symm ▸ Nat.le_add_left _ _
      rw [List.mem_singleton.mp hright, hold left hleft]
      exact Nat.lt_of_lt_of_le (firstChangeOf_lt hleft) hfirst

/-- Each group holds the changes of its table. -/
theorem Grouped.changes_eq {groups : List ChangeGroup} (h : Grouped groups) :
    ∀ group ∈ groups, group.changes = changesOf group.tableName (ungroup groups) := by
  induction groups with
  | nil => exact fun _ hmem => absurd hmem List.not_mem_nil
  | cons head groups ih =>
    have hother : ∀ group ∈ groups, group.tableName ≠ head.tableName := fun group hgroup heq =>
      (List.nodup_cons.mp h.nodup).1 (List.mem_map.mpr ⟨group, hgroup, heq⟩)
    rw [List.forall_mem_cons]
    constructor
    · have hnone : changesOf head.tableName (groups.flatMap (·.changes)) = [] := by
        apply changesOf_eq_nil
        intro c hc heq
        rcases List.mem_flatMap.mp hc with ⟨group, hgroup, hc⟩
        exact hother group hgroup
          ((h.tables group (List.mem_cons_of_mem _ hgroup) c hc).symm.trans heq)
      have hall : changesOf head.tableName head.changes = head.changes :=
        List.filter_eq_self.mpr fun c hc => by simpa using h.tables head List.mem_cons_self c hc
      rw [ungroup, List.flatMap_cons, changesOf_append, hnone, List.append_nil, hall]
    · intro group hgroup
      rw [ungroup, List.flatMap_cons, changesOf_append, changesOf_eq_nil, List.nil_append]
      · exact ih h.tail group hgroup
      · intro c hc heq
        exact hother group hgroup
          (heq.symm.trans (h.tables head List.mem_cons_self c hc))

theorem regroup_eq (changes : List BackupChangeExport) :
    regroup changes = (tableNames changes).flatMap fun name => changesOf name changes := by
  rw [regroup, ungroup, tableNames, List.flatMap_map]
  refine List.flatMap_congr fun group hgroup => ?_
  rw [(grouped_groupChangesByTable changes).changes_eq group hgroup,
    changesOf_groupChangesByTable]

/-! ## The order of the changes -/

/-- The positions of the changes of a table. -/
def positionsOf (changes : List BackupChangeExport) (tableName : String) : List Nat :=
  (List.range changes.length).filter fun i =>
    (changes[i]?).any fun change => change.tableName = tableName

theorem mem_positionsOf {tableName : String} {i : Nat} : i ∈ positionsOf changes tableName ↔
    ∃ change, changes[i]? = some change ∧ change.tableName = tableName := by
  rw [positionsOf, List.mem_filter, List.mem_range, Option.any_eq_true]
  simp only [decide_eq_true_eq]
  exact and_iff_right_of_imp fun ⟨_, hchange, _⟩ => (List.getElem?_eq_some_iff.mp hchange).1

theorem tablePosition_of_mem {tableName : String} {i : Nat} (h : i ∈ positionsOf changes tableName) :
    tablePosition changes i = firstChangeOf changes tableName := by
  rcases mem_positionsOf.mp h with ⟨change, hchange, rfl⟩
  rw [tablePosition, hchange]
  rfl

/-- **Changes are stored by table.** -/
theorem replaysByTable_regroup (changes : List BackupChangeExport) :
    ReplaysByTable changes (regroup changes) := by
  have hpair : ((tableNames changes).flatMap (positionsOf changes)).Pairwise
      (ReplayedBefore changes) := by
    refine List.pairwise_flatMap.mpr ⟨fun name _ => ?_, ?_⟩
    · refine List.Pairwise.imp_of_mem ?_ (List.pairwise_lt_range.filter _)
      intro i j hi hj hlt
      exact Or.inr ⟨(tablePosition_of_mem hi).trans (tablePosition_of_mem hj).symm, hlt⟩
    · refine (pairwise_tableNames changes).imp fun hlt i hi j hj => Or.inl ?_
      rwa [tablePosition_of_mem hi, tablePosition_of_mem hj]
  refine ⟨(tableNames changes).flatMap (positionsOf changes), ?_, ?_, hpair⟩
  · have hnodup : ((tableNames changes).flatMap (positionsOf changes)).Nodup := by
      apply hpair.imp
      rintro i _ (hlt | ⟨_, hlt⟩) rfl
      · exact Nat.lt_irrefl _ hlt
      · exact Nat.lt_irrefl _ hlt
    refine (List.perm_ext_iff_of_nodup hnodup List.nodup_range).mpr fun i => ?_
    rw [List.mem_flatMap, List.mem_range]
    constructor
    · intro h
      rcases h with ⟨name, _, hi⟩
      exact List.mem_range.mp (List.mem_filter.mp hi).1
    · intro hi
      exact ⟨_, mem_tableNames.mpr ⟨changes[i], List.getElem_mem hi, rfl⟩,
        mem_positionsOf.mpr ⟨changes[i], List.getElem?_eq_getElem hi, rfl⟩⟩
  · rw [regroup_eq, List.filterMap_flatMap]
    exact List.flatMap_congr fun name _ => (filterMap_filter_range changes _).symm

/-! ## The changes of a snapshot in a restore -/

section

variable [Crates]

/-- **Changes are replayed by table.**  Whenever a restore has made the call for
    an incremental snapshot whose payloads are those that were written, the call
    hands over the exported changes: in journal order within each table, and the
    tables in the order of their first changes. -/
theorem changes_are_replayed_by_table (hback : CratesReadBack) {host host' : Host}
    {sched : List Poll} {request : IncrementalBackupRequest} {options : BackupExecutionOptions}
    {result : IncrementalBackupResult} {w w₁ w₂ w₃ : World}
    (hlist : host.database.exportIncremental request.parentSnapshotId = .ok changes)
    (hreadable : ∀ change ∈ changes, change.Readable)
    (hret : Returns host.MayFail w (createIncrementalBackupWithOptions sched request options).run
      (.ok result) w₁)
    (hsame : SameBlobs w₁.store w₂.store result.manifest)
    {order : BackupSnapshotManifest → CompletionOrder} {id : Uuid} {context : RestoreContext}
    {remaining : Prog Call.Response (Except BackupError RestoreResult)}
    (hreach : Reaches host'.MayFail w₂ (restoreSnapshot order id context).run w₃ remaining)
    {chain : List BackupSnapshotManifest} (hchain : loadManifestChain w₂.store id = .ok chain)
    {i : Nat} (hposition : chain[i + 1]? = some result.manifest) {call : RestoreCall}
    (hcall : w₃.restored[w₂.restored.length + (i + 1)]? = some call) :
    ∃ sent, call = .restoreIncremental sent context ∧ ReplaysByTable changes sent := by
  have hload := loadChangeExports_of_createIncrementalBackup hback hlist hreadable hret hsame
  obtain ⟨_, calls, hrestored, hcalls⟩ := hreach.crash (wpE_restoreSnapshot order)
  rw [hrestored, List.getElem?_append_right (Nat.le_add_right _ _), Nat.add_sub_cancel_left]
    at hcall
  rcases hcalls with rfl | ⟨chain', hgate, root, delivered, rest, tables, lists, rfl, _, hlists,
    rfl⟩
  · exact absurd hcall (by simp)
  obtain rfl := Except.ok.inj (hchain.symm.trans hgate.loads)
  refine ⟨regroup changes, ?_, replaysByTable_regroup changes⟩
  rw [restoreCalls, List.getElem?_cons_succ, List.getElem?_map, Option.map_eq_some_iff] at hcall
  rcases hcall with ⟨sent, hsent, rfl⟩
  have hlt : i < delivered.length := by
    rw [hlists.length_eq]
    exact (List.getElem?_eq_some_iff.mp hsent).1
  rw [List.getElem?_cons_succ, List.getElem?_append_left hlt] at hposition
  rcases List.getElem?_eq_some_iff.mp hposition with ⟨_, hmanifest⟩
  rcases List.getElem?_eq_some_iff.mp hsent with ⟨hlt', hget⟩
  have hfound := hlists.get hlt hlt'
  simp only [List.get_eq_getElem, hmanifest, hget] at hfound
  rw [Except.ok.inj (hfound.symm.trans hload)]

end

/-! ## A journal of two tables -/

section Journal

open Reference

theorem backedUp_incrementalRun : ∃ root result,
    Returns (database [] journal).MayFail fullRun.2
      (createIncrementalBackupWithOptions [] (incrementalRequest (uuid 2) (uuid 1)) options).run
      (.ok result) incrementalRun.2 ∧
    BackedUp incrementalRun.2.store (uuid 2) "app" schema root [result.manifest] [notes]
      [journal] := by
  rcases returns_fullRun with ⟨full, hfull⟩
  rcases returns_incrementalRun with ⟨result, hincremental⟩
  have hroot : BackedUp fullRun.2.store (uuid 1) "app" schema full.manifest [] [notes] [] :=
    backedUp_full cratesReadBack rfl rfl honestObjects_empty (by decide)
      readable_notes hfull
  refine ⟨full.manifest, result, hincremental, ?_⟩
  apply hroot.incremental cratesReadBack _ rfl rfl readable_journal hincremental
  obtain ⟨leaf, hleaf, hid⟩ := hroot.own
  obtain rfl : full.manifest = leaf := Option.some.inj hleaf
  rw [List.forall_mem_singleton, hid]
  decide

theorem changes_are_replayed_by_table_journal : ∃ r w₃ sent,
    Returns (database [] []).Answers incrementalRun.2
      (restoreSnapshot (fun _ _ => []) (uuid 2) .emptyDatabase).run r w₃ ∧
    w₃.restored[incrementalRun.2.restored.length + 1]? =
      some (.restoreIncremental sent .emptyDatabase) ∧ ReplaysByTable journal sent := by
  rcases backedUp_incrementalRun with ⟨root, result, hret, hbacked⟩
  have hheader := hbacked.header root List.mem_cons_self
  have haccepts : Accepts (database [] []) root :=
    accepts_application (congrArg (·.databaseBackend) hheader)
      (congrArg (·.graphqlOrmSchemaHash) hheader)
  obtain ⟨⟨r, w₃, hrestore⟩, hall⟩ := hbacked.contents.restores (w := incrementalRun.2)
    (database [] []) (fun _ _ => []) .emptyDatabase haccepts rfl
  obtain ⟨-, hrestored⟩ := hall r w₃ hrestore
  have hcall : w₃.restored[incrementalRun.2.restored.length + 1]? =
      some (.restoreIncremental (regroup journal) .emptyDatabase) := by
    rw [hrestored, List.getElem?_append_right (Nat.le_add_right _ _), Nat.add_sub_cancel_left]
    rfl
  obtain ⟨sent, hsent, hreplays⟩ := changes_are_replayed_by_table cratesReadBack rfl readable_journal
    hret (fun _ _ => rfl) (returns_mayFail hrestore) hbacked.contents.loads (i := 0) rfl hcall
  exact ⟨r, w₃, sent, hrestore, hsent ▸ hcall, hreplays⟩

/-- The changes are exported, backed up and restored, and the deletion of the
    second comment, journaled after that of the note, is replayed before it. -/
theorem changes_are_replayed_out_of_order : ∃ root result,
    Returns (database [] journal).MayFail fullRun.2
      (createIncrementalBackupWithOptions [] (incrementalRequest (uuid 2) (uuid 1)) options).run
      (.ok result) incrementalRun.2 ∧
    Restores incrementalRun.2 (uuid 2) root fun context =>
      [.restoreFull schema [notes] context,
        .restoreIncremental [deletion "comments" "1", deletion "comments" "2",
          deletion "notes" "1"] context] := by
  rcases backedUp_incrementalRun with ⟨root, result, hret, hbacked⟩
  have hrestores := hbacked.contents.restores
  unfold restoreCalls at hrestores
  rw [hbacked.schema] at hrestores
  exact ⟨root, result, hret, hrestores⟩

end Journal

end GraphqlOrmBackup
