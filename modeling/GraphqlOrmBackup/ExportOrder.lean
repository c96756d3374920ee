import GraphqlOrmBackup.OrmRoundTrip

/-!
# The order of an export

A full export lists the tables by the export orders of their entities, and by
their names where these are equal.  The order in which an application registers
its entities does not show in it.
-/

namespace GraphqlOrmBackup

open Interaction

variable {V δ γ S : Type}

/-! ## Overrides of reordered descriptors -/

section Overrides

variable {descriptors descriptors' : List (EntityBackupDescriptor δ γ)}
  {overrides : List ColumnPolicyOverride}

theorem DistinctNames.perm (h : DistinctNames descriptors) (hperm : descriptors.Perm descriptors') :
    DistinctNames descriptors' :=
  ⟨((hperm.map _).nodup_iff).mp h.tables, fun descriptor hmem =>
    h.columns descriptor (hperm.mem_iff.mpr hmem)⟩

/-- Overrides are applied whatever the order of the descriptors is. -/
theorem exists_applyColumnPolicyOverrides_of_perm (h : DistinctNames descriptors)
    (hperm : descriptors.Perm descriptors') {out : List (EntityBackupDescriptor δ γ)}
    (hout : applyColumnPolicyOverrides overrides descriptors = .ok out) :
    ∃ out', applyColumnPolicyOverrides overrides descriptors' = .ok out' ∧ out.Perm out' := by
  have hsame : ∀ descriptor, descriptor ∈ descriptors' ↔ descriptor ∈ descriptors :=
    fun _ => hperm.mem_iff.symm
  obtain ⟨out', hout'⟩ := (exists_applyColumnPolicyOverrides_iff (h.perm hperm) overrides).mpr (by
    simp only [UnknownColumn, WeakensPolicy, hsame]
    exact (exists_applyColumnPolicyOverrides_iff h overrides).mp ⟨out, hout⟩)
  refine ⟨out', hout', ?_⟩
  rw [eq_strengthen_of_applyColumnPolicyOverrides h _ _ hout,
    eq_strengthen_of_applyColumnPolicyOverrides (h.perm hperm) _ _ hout']
  exact hperm.map _

end Overrides

/-! ## Sorted descriptors -/

section Sorting

variable {descriptors descriptors' : List (OrmDescriptor δ γ)} {a b c : OrmDescriptor δ γ}

theorem exportsFirst_iff : exportsFirst a b = true ↔ a.rest.exportOrder < b.rest.exportOrder ∨
    (a.rest.exportOrder = b.rest.exportOrder ∧ a.tableName ≤ b.tableName) := by
  rw [exportsFirst, decide_eq_true_iff]

theorem exportsFirst_trans (hab : exportsFirst a b = true) (hbc : exportsFirst b c = true) :
    exportsFirst a c = true := by
  rw [exportsFirst_iff] at *
  rcases hab with hlt | ⟨heq, hle⟩
  · exact Or.inl (hbc.elim hlt.trans fun h => h.1 ▸ hlt)
  · rcases hbc with hlt' | ⟨heq', hle'⟩
    · exact Or.inl (heq ▸ hlt')
    · exact Or.inr ⟨heq.trans heq', hle.trans hle'⟩

theorem exportsFirst_total : (exportsFirst a b || exportsFirst b a) = true := by
  rw [Bool.or_eq_true, exportsFirst_iff, exportsFirst_iff]
  rcases lt_trichotomy a.rest.exportOrder b.rest.exportOrder with hlt | heq | hgt
  · exact Or.inl (Or.inl hlt)
  · exact (le_total a.tableName b.tableName).imp (fun h => Or.inr ⟨heq, h⟩)
      fun h => Or.inr ⟨heq.symm, h⟩
  · exact Or.inr (Or.inl hgt)

theorem tableName_eq_of_exportsFirst (hab : exportsFirst a b = true)
    (hba : exportsFirst b a = true) : a.tableName = b.tableName := by
  rw [exportsFirst_iff] at hab hba
  rcases hab with hlt | ⟨heq, hle⟩
  · rcases hba with hgt | ⟨heq, _⟩
    · exact absurd hgt (lt_asymm hlt)
    · exact absurd heq.symm (ne_of_lt hlt)
  · rcases hba with hgt | ⟨_, hge⟩
    · exact absurd heq.symm (ne_of_lt hgt)
    · exact le_antisymm hle hge

theorem pairwise_mergeSort_exportsFirst (descriptors : List (OrmDescriptor δ γ)) :
    (descriptors.mergeSort exportsFirst).Pairwise fun a b => exportsFirst a b = true := by
  apply List.pairwise_mergeSort
  · intro a b c
    exact exportsFirst_trans
  · intro a b
    exact exportsFirst_total

/-- Different names make the order that of a set. -/
theorem mergeSort_exportsFirst_perm (hnodup : (descriptors.map (·.tableName)).Nodup)
    (hperm : descriptors.Perm descriptors') :
    descriptors.mergeSort exportsFirst = descriptors'.mergeSort exportsFirst := by
  have hsorted := List.mergeSort_perm descriptors exportsFirst
  have hsorted' := List.mergeSort_perm descriptors' exportsFirst
  refine (hsorted.trans (hperm.trans hsorted'.symm)).eq_of_pairwise (fun a b ha hb hab hba => ?_)
    (pairwise_mergeSort_exportsFirst _) (pairwise_mergeSort_exportsFirst _)
  exact List.inj_on_of_nodup_map hnodup (hsorted.mem_iff.mp ha)
    (hperm.mem_iff.mpr (hsorted'.mem_iff.mp hb)) (tableName_eq_of_exportsFirst hab hba)

end Sorting

/-! ## Exports -/

section Exports

variable [BackupValue V] {adapter : OrmBackupAdapter V δ γ S} {tables : List BackupTableExport}
  {entities : List (OrmDescriptor δ γ)}

/-- The adapter of an application that registers other entities. -/
def OrmBackupAdapter.withEntities (adapter : OrmBackupAdapter V δ γ S)
    (entities : List (OrmDescriptor δ γ)) : OrmBackupAdapter V δ γ S :=
  { adapter with database := { adapter.database with listBackupEntities := entities } }

theorem exportFull_of_perm (hdistinct : DistinctNames adapter.database.listBackupEntities)
    (hperm : adapter.database.listBackupEntities.Perm entities)
    (h : adapter.exportFull = .ok tables) :
    (adapter.withEntities entities).exportFull = .ok tables := by
  obtain ⟨descriptors, snapshot, hdescriptors, hsnapshot, htables⟩ :=
    OrmBackupAdapter.exportFull_eq_ok.mp h
  obtain ⟨descriptors', hdescriptors', hsame⟩ :=
    exists_applyColumnPolicyOverrides_of_perm hdistinct hperm hdescriptors
  have hnames := OrmBackupAdapter.nodup_descriptors hdistinct hdescriptors
  refine OrmBackupAdapter.exportFull_eq_ok.mpr ⟨descriptors', snapshot, hdescriptors', hsnapshot, ?_⟩
  rw [← mergeSort_exportsFirst_perm hnames hsame]
  exact htables

/-- **Exports do not show the order of registration.**  An application that
    registers the same entities in another order exports the same tables, in the
    same order: that of the export orders of their entities, and of their names
    where these are equal. -/
theorem exports_ignore_registration_order
    (hdistinct : DistinctNames adapter.database.listBackupEntities)
    (hperm : adapter.database.listBackupEntities.Perm entities) :
    ((adapter.withEntities entities).exportFull = .ok tables ↔ adapter.exportFull = .ok tables) ∧
    (adapter.exportFull = .ok tables → ∃ descriptors, ∃ sorted : List (OrmDescriptor δ γ),
      adapter.descriptors = .ok descriptors ∧ sorted.Perm descriptors ∧
      tables.map (·.tableName) = sorted.map (·.tableName) ∧
      sorted.Pairwise fun a b => a.rest.exportOrder < b.rest.exportOrder ∨
        (a.rest.exportOrder = b.rest.exportOrder ∧ a.tableName < b.tableName)) := by
  refine ⟨⟨fun h => ?_, exportFull_of_perm hdistinct hperm⟩, fun h => ?_⟩
  · have hdistinct' : DistinctNames (adapter.withEntities entities).database.listBackupEntities :=
      hdistinct.perm hperm
    have hback := exportFull_of_perm hdistinct' hperm.symm h
    exact hback
  · obtain ⟨descriptors, snapshot, hdescriptors, _, htables⟩ :=
      OrmBackupAdapter.exportFull_eq_ok.mp h
    have hperm' := List.mergeSort_perm descriptors exportsFirst
    have hnodup : ((descriptors.mergeSort exportsFirst).map (·.tableName)).Nodup :=
      ((hperm'.map _).nodup_iff).mpr (OrmBackupAdapter.nodup_descriptors hdistinct hdescriptors)
    refine ⟨descriptors, _, hdescriptors, hperm',
      OrmBackupAdapter.tableNames_exportTable htables, ?_⟩
    refine (pairwise_mergeSort_exportsFirst descriptors).imp₂ (fun a b hab hne => ?_)
      (List.pairwise_map.mp hnodup)
    exact (exportsFirst_iff.mp hab).imp_right fun h => ⟨h.1, lt_of_le_of_ne h.2 hne⟩

end Exports

/-! ## Tags of notes -/

section Tags

open Reference

local instance : BackupValue String := textValue

/-- Tags have the export order of the notes, and come after them. -/
def tagsEntity : OrmDescriptor Unit Unit :=
  { notesEntity with tableName := "tags" }

def emptyTags : BackupTableExport := ⟨"tags", []⟩

/-- The database of the notes, where every table but theirs is empty. -/
def tagsAdapter : OrmBackupAdapter String Unit Unit Unit :=
  { notesAdapter with database := { notesDatabase with
      listBackupEntities := [notesEntity, tagsEntity]
      exportTableRows := fun snapshot descriptor =>
        if descriptor.tableName = "notes" then notesDatabase.exportTableRows snapshot descriptor
        else .ok [] } }

theorem exportFull_tagsAdapter : tagsAdapter.exportFull = .ok [notes, emptyTags] := by
  refine OrmBackupAdapter.exportFull_eq_ok.mpr ⟨[notesEntity, tagsEntity], (), rfl, rfl, ?_⟩
  rw [List.mergeSort_of_pairwise (by decide)]
  exact .cons rfl (.cons rfl .nil)

/-- Tags that are registered first are exported last. -/
theorem exports_ignore_registration_order_tagsFirst :
    (tagsAdapter.withEntities [tagsEntity, notesEntity]).exportFull = .ok [notes, emptyTags] := by
  have hdistinct : DistinctNames tagsAdapter.database.listBackupEntities := by
    constructor <;> decide
  exact (exports_ignore_registration_order hdistinct (List.Perm.swap _ _ _)).1.mpr
    exportFull_tagsAdapter

end Tags

end GraphqlOrmBackup
