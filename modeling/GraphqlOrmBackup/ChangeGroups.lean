import GraphqlOrmBackup.Backup

/-!
# Changes by table

`group_changes_by_table` sorts the changes of an export into one group a table.
It keeps every change, and the order of the changes of each table.
-/

namespace GraphqlOrmBackup

variable {groups : List ChangeGroup} {change : BackupChangeExport}

/-- The groups are of different tables, and hold changes of their table. -/
structure Grouped (groups : List ChangeGroup) : Prop where
  nodup : (groups.map (·.tableName)).Nodup
  tables : ∀ group ∈ groups, ∀ change ∈ group.changes, change.tableName = group.tableName

/-- The changes of the groups, one group after the other. -/
def ungroup (groups : List ChangeGroup) : List BackupChangeExport := groups.flatMap (·.changes)

/-- The changes of one table. -/
def changesOf (tableName : String) (changes : List BackupChangeExport) :
    List BackupChangeExport :=
  changes.filter fun change => change.tableName = tableName

theorem changesOf_append (tableName : String) (left right : List BackupChangeExport) :
    changesOf tableName (left ++ right) = changesOf tableName left ++ changesOf tableName right :=
  List.filter_append ..

theorem changesOf_eq_nil {tableName : String} {changes : List BackupChangeExport}
    (h : ∀ change ∈ changes, change.tableName ≠ tableName) : changesOf tableName changes = [] :=
  List.filter_eq_nil_iff.mpr fun change hmem => by simpa using h change hmem

theorem Grouped.nil : Grouped [] := ⟨List.nodup_nil, fun _ h => absurd h List.not_mem_nil⟩

theorem Grouped.tail {group : ChangeGroup} (h : Grouped (group :: groups)) : Grouped groups :=
  ⟨(List.nodup_cons.mp h.nodup).2, fun g hg => h.tables g (List.mem_cons_of_mem _ hg)⟩

theorem mem_tableNames_pushChange {tableName : String} :
    tableName ∈ (pushChange groups change).map (·.tableName) ↔
      tableName ∈ groups.map (·.tableName) ∨ tableName = change.tableName := by
  induction groups with
  | nil => simp [pushChange]
  | cons group groups ih =>
    by_cases hname : group.tableName = change.tableName
    · simp only [pushChange, if_pos hname, List.map_cons, List.mem_cons]
      constructor
      · exact Or.inl
      · intro h
        rcases h with h | rfl
        · exact h
        · exact Or.inl hname.symm
    · simp only [pushChange, if_neg hname, List.map_cons, List.mem_cons, ih, or_assoc]

theorem Grouped.pushChange (h : Grouped groups) (change : BackupChangeExport) :
    Grouped (pushChange groups change) := by
  induction groups with
  | nil => exact ⟨List.nodup_singleton _, by simp [GraphqlOrmBackup.pushChange]⟩
  | cons group groups ih =>
    by_cases hname : group.tableName = change.tableName
    · rw [GraphqlOrmBackup.pushChange, if_pos hname]
      refine ⟨h.nodup, fun g hg => ?_⟩
      rcases List.mem_cons.mp hg with rfl | hg
      · intro c hc
        rcases List.mem_append.mp hc with hc | hc
        · exact h.tables group List.mem_cons_self c hc
        · rw [List.mem_singleton.mp hc]
          exact hname.symm
      · exact h.tables g (List.mem_cons_of_mem _ hg)
    · rw [GraphqlOrmBackup.pushChange, if_neg hname]
      obtain ⟨hnodup, htables⟩ := ih h.tail
      refine ⟨List.nodup_cons.mpr ⟨fun hmem => ?_, hnodup⟩, fun g hg => ?_⟩
      · rcases mem_tableNames_pushChange.mp hmem with hmem | heq
        · exact (List.nodup_cons.mp h.nodup).1 hmem
        · exact hname heq
      · rcases List.mem_cons.mp hg with rfl | hg
        · exact h.tables g List.mem_cons_self
        · exact htables g hg

/-- A change goes to the end of the changes of its table. -/
theorem changesOf_ungroup_pushChange (h : Grouped groups) (tableName : String) :
    changesOf tableName (ungroup (pushChange groups change)) =
      changesOf tableName (ungroup groups) ++ changesOf tableName [change] := by
  induction groups with
  | nil => rfl
  | cons group groups ih =>
    by_cases hname : group.tableName = change.tableName
    · rw [pushChange, if_pos hname]
      simp only [ungroup, List.flatMap_cons, changesOf_append, List.append_assoc]
      congr 1
      by_cases htable : change.tableName = tableName
      · -- no later group is of this table
        have hrest : changesOf tableName (groups.flatMap (·.changes)) = [] := by
          refine changesOf_eq_nil fun c hc heq => ?_
          rcases List.mem_flatMap.mp hc with ⟨g, hg, hc⟩
          refine (List.nodup_cons.mp h.nodup).1 (List.mem_map.mpr ⟨g, hg, ?_⟩)
          exact (h.tables g (List.mem_cons_of_mem _ hg) c hc).symm.trans
            (heq.trans (htable.symm.trans hname.symm))
        rw [hrest, List.nil_append, List.append_nil]
      · have hone : changesOf tableName [change] = [] :=
          changesOf_eq_nil fun c hc => by rwa [List.mem_singleton.mp hc]
        rw [hone, List.nil_append, List.append_nil]
    · rw [pushChange, if_neg hname]
      simp only [ungroup, List.flatMap_cons, changesOf_append, List.append_assoc]
      rw [← ungroup, ← ungroup, ih h.tail]

theorem Grouped.foldl (h : Grouped groups) (changes : List BackupChangeExport) :
    Grouped (changes.foldl GraphqlOrmBackup.pushChange groups) := by
  induction changes generalizing groups with
  | nil => exact h
  | cons change changes ih => exact ih (h.pushChange change)

theorem grouped_groupChangesByTable (changes : List BackupChangeExport) :
    Grouped (groupChangesByTable changes) := Grouped.nil.foldl changes

theorem changesOf_ungroup_foldl (h : Grouped groups) (changes : List BackupChangeExport)
    (tableName : String) :
    changesOf tableName (ungroup (changes.foldl pushChange groups)) =
      changesOf tableName (ungroup groups) ++ changesOf tableName changes := by
  induction changes generalizing groups with
  | nil => exact (List.append_nil _).symm
  | cons change changes ih =>
    rw [List.foldl_cons, ih (h.pushChange change), changesOf_ungroup_pushChange h,
      List.append_assoc, ← changesOf_append, List.singleton_append]

/-- **Regrouping keeps the changes of each table in order.** -/
theorem changesOf_groupChangesByTable (changes : List BackupChangeExport) (tableName : String) :
    changesOf tableName (ungroup (groupChangesByTable changes)) = changesOf tableName changes :=
  changesOf_ungroup_foldl Grouped.nil changes tableName

end GraphqlOrmBackup
