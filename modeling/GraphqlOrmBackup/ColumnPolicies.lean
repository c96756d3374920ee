import GraphqlOrmBackup.Error
import GraphqlOrmBackup.Interaction.Outcome
import Mathlib.Data.List.Induction
import Mathlib.Data.List.Nodup
import Mathlib.Order.Bounds.Basic

/-!
# Column policy overrides

The overrides an application puts on the backup policies of its columns
(`orm.rs`): they are applied one after the other to the descriptors of the
entities, and an override that would weaken a policy is refused.
-/

namespace GraphqlOrmBackup

open Interaction

/-! ## First matches -/

section FirstMatch

variable {α κ ε : Type}

/-- `iter_mut().find`, and an update of what it finds. -/
def updateFirst (p : α → Bool) (missing : ε) (f : α → Except ε α) : List α → Except ε (List α)
  | [] => throw missing
  | a :: rest =>
      if p a then do
        let a' ← f a
        pure (a' :: rest)
      else do
        let rest' ← updateFirst p missing f rest
        pure (a :: rest')

variable [DecidableEq κ] {key : α → κ} {k : κ} {missing : ε} {f : α → Except ε α}

/-- When no two items have one key, the item with the key is updated. -/
theorem updateFirst_eq_ok {l out : List α} (hnodup : (l.map key).Nodup) :
    updateFirst (fun a => key a = k) missing f l = .ok out ↔
      ∃ a ∈ l, key a = k ∧ ∃ a', f a = .ok a' ∧
        out = l.map fun b => if key b = k then a' else b := by
  induction l generalizing out with
  | nil => simp [updateFirst, throw_ne_ok]
  | cons a rest ih =>
    rw [List.map_cons, List.nodup_cons] at hnodup
    by_cases hkey : key a = k
    · have hne : ∀ b ∈ rest, key b ≠ k := by
        intro b hb heq
        exact hnodup.1 (List.mem_map.mpr ⟨b, hb, heq.trans hkey.symm⟩)
      have hrest : ∀ a', rest.map (fun b => if key b = k then a' else b) = rest := by
        intro a'
        rw [List.map_congr_left fun b hb => if_neg (hne b hb), List.map_id']
      simp only [updateFirst, hkey, decide_true, if_true, bind_eq_ok, pure_eq_ok, List.map_cons,
        hrest]
      constructor
      · intro h
        rcases h with ⟨a', ha', rfl⟩
        exact ⟨a, List.mem_cons_self, hkey, a', ha', rfl⟩
      · intro h
        rcases h with ⟨b, hb, hbkey, a', ha', rfl⟩
        rcases List.mem_cons.mp hb with rfl | hb
        · exact ⟨a', ha', rfl⟩
        · exact absurd hbkey (hne b hb)
    · simp only [updateFirst, hkey, decide_false, Bool.false_eq_true, if_false, bind_eq_ok,
        pure_eq_ok, List.map_cons, ih hnodup.2]
      constructor
      · intro h
        rcases h with ⟨rest', ⟨b, hb, hbkey, a', ha', rfl⟩, rfl⟩
        exact ⟨b, List.mem_cons_of_mem a hb, hbkey, a', ha', rfl⟩
      · intro h
        rcases h with ⟨b, hb, hbkey, a', ha', rfl⟩
        rcases List.mem_cons.mp hb with rfl | hb
        · exact absurd hbkey hkey
        · exact ⟨_, ⟨b, hb, hbkey, a', ha', rfl⟩, rfl⟩

end FirstMatch

/-! ## Policies -/

/-- `ColumnBackupPolicy` of `graphql-orm`. -/
inductive ColumnBackupPolicy where
  | include
  | redact
  | exclude
deriving DecidableEq, Repr

def policyRank : ColumnBackupPolicy → Nat
  | .include => 0
  | .redact => 1
  | .exclude => 2

theorem policyRank_injective : Function.Injective policyRank := by
  intro left right h
  cases left <;> cases right <;> first | rfl | cases h

/-- Stronger policies are greater. -/
instance : LinearOrder ColumnBackupPolicy := LinearOrder.lift' policyRank policyRank_injective

/-- A column of a descriptor, with whatever else `graphql-orm` says of it. -/
structure ColumnBackupDescriptor (γ : Type) where
  columnName : String
  backupPolicy : ColumnBackupPolicy
  rest : γ

/-- The descriptor of an entity, with whatever else `graphql-orm` says of it. -/
structure EntityBackupDescriptor (δ γ : Type) where
  tableName : String
  columns : List (ColumnBackupDescriptor γ)
  rest : δ

structure ColumnPolicyOverride where
  tableName : String
  columnName : String
  policy : ColumnBackupPolicy
deriving DecidableEq

def invalidPolicyOverride (policyOverride : ColumnPolicyOverride) (reason : String) : BackupError :=
  .invalidColumnBackupPolicyOverride policyOverride.tableName policyOverride.columnName reason

variable {δ γ : Type}

/-- The end of a round of the loop, with the column that was found. -/
def applyToColumn (policyOverride : ColumnPolicyOverride) (column : ColumnBackupDescriptor γ) :
    Except BackupError (ColumnBackupDescriptor γ) :=
  if policyRank policyOverride.policy < policyRank column.backupPolicy then
    throw (invalidPolicyOverride policyOverride
      "override would weaken the effective metadata policy")
  else
    pure { column with backupPolicy := policyOverride.policy }

def applyToDescriptor (policyOverride : ColumnPolicyOverride)
    (descriptor : EntityBackupDescriptor δ γ) :
    Except BackupError (EntityBackupDescriptor δ γ) := do
  let columns ← updateFirst (fun column => column.columnName = policyOverride.columnName)
    (invalidPolicyOverride policyOverride
      "column is not present in the entity backup descriptor")
    (applyToColumn policyOverride) descriptor.columns
  pure { descriptor with columns }

/-- One round of the loop. -/
def applyColumnPolicyOverride (descriptors : List (EntityBackupDescriptor δ γ))
    (policyOverride : ColumnPolicyOverride) :
    Except BackupError (List (EntityBackupDescriptor δ γ)) :=
  updateFirst (fun descriptor => descriptor.tableName = policyOverride.tableName)
    (invalidPolicyOverride policyOverride "table is not a backup-enabled entity")
    (applyToDescriptor policyOverride) descriptors

/-- The descriptors are changed in place; after an error the callers drop them. -/
def applyColumnPolicyOverrides (columnPolicyOverrides : List ColumnPolicyOverride)
    (descriptors : List (EntityBackupDescriptor δ γ)) :
    Except BackupError (List (EntityBackupDescriptor δ γ)) :=
  columnPolicyOverrides.foldlM applyColumnPolicyOverride descriptors

/-! ## Strongest policies -/

/-- The override is one for this column. -/
def ColumnPolicyOverride.Names (policyOverride : ColumnPolicyOverride)
    (tableName columnName : String) : Prop :=
  policyOverride.tableName = tableName ∧ policyOverride.columnName = columnName

instance (policyOverride : ColumnPolicyOverride) (tableName columnName : String) :
    Decidable (policyOverride.Names tableName columnName) :=
  inferInstanceAs (Decidable (_ ∧ _))

/-- The maximum of a column's own policy and those of all overrides for it. -/
def strongestPolicy (overrides : List ColumnPolicyOverride) (tableName : String)
    (column : ColumnBackupDescriptor γ) : ColumnBackupPolicy :=
  overrides.foldl (fun policy policyOverride =>
    if policyOverride.Names tableName column.columnName then max policy policyOverride.policy
    else policy) column.backupPolicy

/-- Every column has its strongest policy, and all else is as it was. -/
def strengthenDescriptor (overrides : List ColumnPolicyOverride)
    (descriptor : EntityBackupDescriptor δ γ) : EntityBackupDescriptor δ γ :=
  { descriptor with
    columns := descriptor.columns.map fun column =>
      { column with backupPolicy := strongestPolicy overrides descriptor.tableName column } }

def strengthen (overrides : List ColumnPolicyOverride)
    (descriptors : List (EntityBackupDescriptor δ γ)) : List (EntityBackupDescriptor δ γ) :=
  descriptors.map (strengthenDescriptor overrides)

/-- No table and no column of a table is described twice. -/
structure DistinctNames (descriptors : List (EntityBackupDescriptor δ γ)) : Prop where
  tables : (descriptors.map (·.tableName)).Nodup
  columns : ∀ descriptor ∈ descriptors, (descriptor.columns.map (·.columnName)).Nodup

variable {overrides : List ColumnPolicyOverride} {policyOverride : ColumnPolicyOverride}
  {descriptor : EntityBackupDescriptor δ γ} {descriptors : List (EntityBackupDescriptor δ γ)}

theorem strongestPolicy_concat (overrides : List ColumnPolicyOverride)
    (policyOverride : ColumnPolicyOverride) (tableName : String)
    (column : ColumnBackupDescriptor γ) :
    strongestPolicy (overrides ++ [policyOverride]) tableName column =
      if policyOverride.Names tableName column.columnName then
        max (strongestPolicy overrides tableName column) policyOverride.policy
      else strongestPolicy overrides tableName column := by
  simp only [strongestPolicy, List.foldl_append, List.foldl_cons, List.foldl_nil]

theorem isGreatest_strongestPolicy (overrides : List ColumnPolicyOverride) (tableName : String)
    (column : ColumnBackupDescriptor γ) :
    IsGreatest {policy | policy = column.backupPolicy ∨ ∃ policyOverride ∈ overrides,
      policyOverride.Names tableName column.columnName ∧ policy = policyOverride.policy}
      (strongestPolicy overrides tableName column) := by
  induction overrides using List.reverseRecOn with
  | nil => simp [strongestPolicy, IsGreatest, upperBounds]
  | append_singleton overrides policyOverride ih =>
    rw [strongestPolicy_concat]
    split
    · next hnames =>
      have hset : {policy | policy = column.backupPolicy ∨
          ∃ o ∈ overrides ++ [policyOverride], o.Names tableName column.columnName ∧
            policy = o.policy} =
          insert policyOverride.policy {policy | policy = column.backupPolicy ∨
            ∃ o ∈ overrides, o.Names tableName column.columnName ∧ policy = o.policy} := by
        ext policy
        simp [hnames, or_and_right, exists_or, or_left_comm, or_comm]
      rw [hset, max_comm]
      exact ih.insert policyOverride.policy
    · next hnames =>
      simpa [hnames, or_and_right, exists_or] using ih

theorem strengthen_nil (descriptors : List (EntityBackupDescriptor δ γ)) :
    strengthen [] descriptors = descriptors := by
  have hdescriptor : ∀ descriptor : EntityBackupDescriptor δ γ,
      strengthenDescriptor [] descriptor = descriptor := by
    intro descriptor
    simp [strengthenDescriptor, strongestPolicy]
  rw [strengthen, List.map_congr_left fun descriptor _ => hdescriptor descriptor, List.map_id']

theorem strengthen_concat (overrides : List ColumnPolicyOverride)
    (policyOverride : ColumnPolicyOverride) (descriptors : List (EntityBackupDescriptor δ γ)) :
    strengthen (overrides ++ [policyOverride]) descriptors =
      strengthen [policyOverride] (strengthen overrides descriptors) := by
  have hcolumn : ∀ (tableName : String) (column : ColumnBackupDescriptor γ),
      strongestPolicy (overrides ++ [policyOverride]) tableName column =
        strongestPolicy [policyOverride] tableName
          { column with backupPolicy := strongestPolicy overrides tableName column } := by
    intro tableName column
    rw [strongestPolicy_concat]
    rfl
  simp [strengthen, strengthenDescriptor, hcolumn]

theorem DistinctNames.strengthen (h : DistinctNames descriptors)
    (overrides : List ColumnPolicyOverride) :
    DistinctNames (strengthen overrides descriptors) := by
  constructor
  · rw [GraphqlOrmBackup.strengthen, List.map_map]
    exact h.tables
  · intro descriptor hmem
    rcases List.mem_map.mp hmem with ⟨original, horiginal, rfl⟩
    rw [strengthenDescriptor, List.map_map]
    exact h.columns original horiginal

/-! ## One override -/

/-- The column is described, and its policy is no stronger than the override. -/
def AcceptsOverride (descriptors : List (EntityBackupDescriptor δ γ))
    (policyOverride : ColumnPolicyOverride) : Prop :=
  ∃ descriptor ∈ descriptors, ∃ column ∈ descriptor.columns,
    policyOverride.Names descriptor.tableName column.columnName ∧
      column.backupPolicy ≤ policyOverride.policy

theorem applyToColumn_eq_ok {column column' : ColumnBackupDescriptor γ} :
    applyToColumn policyOverride column = .ok column' ↔
      column.backupPolicy ≤ policyOverride.policy ∧
        column' = { column with backupPolicy := policyOverride.policy } := by
  have hle : column.backupPolicy ≤ policyOverride.policy ↔
      ¬ policyRank policyOverride.policy < policyRank column.backupPolicy := not_lt.symm
  rw [applyToColumn, hle]
  split
  · next hweak => simp [hweak, throw_ne_ok]
  · next hweak =>
    rw [pure_eq_ok]
    simp [hweak, eq_comm]

/-- The column that was found has the policy of the override now. -/
theorem applyToDescriptor_eq_ok {out : EntityBackupDescriptor δ γ}
    (hnodup : (descriptor.columns.map (·.columnName)).Nodup)
    (htable : policyOverride.tableName = descriptor.tableName) :
    applyToDescriptor policyOverride descriptor = .ok out ↔
      (∃ column ∈ descriptor.columns, policyOverride.Names descriptor.tableName column.columnName ∧
        column.backupPolicy ≤ policyOverride.policy) ∧
      out = strengthenDescriptor [policyOverride] descriptor := by
  -- the update of the column is the one that the overrides call for
  have hcolumns : ∀ column ∈ descriptor.columns, column.columnName = policyOverride.columnName →
      column.backupPolicy ≤ policyOverride.policy →
      descriptor.columns.map (fun other => if other.columnName = policyOverride.columnName then
          { column with backupPolicy := policyOverride.policy } else other) =
        (strengthenDescriptor [policyOverride] descriptor).columns := by
    intro column hmem hname hle
    refine List.map_congr_left fun other hother => ?_
    by_cases hsame : other.columnName = policyOverride.columnName
    · obtain rfl := List.inj_on_of_nodup_map hnodup hother hmem (hsame.trans hname.symm)
      have hnames : policyOverride.Names descriptor.tableName policyOverride.columnName :=
        ⟨htable, rfl⟩
      simp [strongestPolicy, hname, hnames, max_eq_right hle]
    · have hnames : ¬ policyOverride.Names descriptor.tableName other.columnName := fun h =>
        hsame h.2.symm
      simp [strongestPolicy, hsame, hnames]
  simp only [applyToDescriptor, bind_eq_ok, pure_eq_ok, updateFirst_eq_ok hnodup,
    applyToColumn_eq_ok]
  constructor
  · intro h
    rcases h with ⟨columns, ⟨column, hmem, hname, _, ⟨hle, rfl⟩, rfl⟩, rfl⟩
    refine ⟨⟨column, hmem, ⟨htable, hname.symm⟩, hle⟩, ?_⟩
    rw [hcolumns column hmem hname hle]
    rfl
  · intro h
    rcases h with ⟨⟨column, hmem, hnames, hle⟩, rfl⟩
    refine ⟨_, ⟨column, hmem, hnames.2.symm, _, ⟨hle, rfl⟩, rfl⟩, ?_⟩
    rw [hcolumns column hmem hnames.2.symm hle]
    rfl

/-- **One override** is applied if it is accepted. -/
theorem applyColumnPolicyOverride_eq_ok (h : DistinctNames descriptors)
    {out : List (EntityBackupDescriptor δ γ)} :
    applyColumnPolicyOverride descriptors policyOverride = .ok out ↔
      AcceptsOverride descriptors policyOverride ∧
        out = strengthen [policyOverride] descriptors := by
  have hdescriptors : ∀ descriptor ∈ descriptors,
      descriptor.tableName = policyOverride.tableName →
      descriptors.map (fun other => if other.tableName = policyOverride.tableName then
          strengthenDescriptor [policyOverride] descriptor else other) =
        strengthen [policyOverride] descriptors := by
    intro descriptor hmem hname
    refine List.map_congr_left fun other hother => ?_
    by_cases hsame : other.tableName = policyOverride.tableName
    · rw [if_pos hsame, List.inj_on_of_nodup_map h.tables hother hmem (hsame.trans hname.symm)]
    · have hnames : ∀ columnName, ¬ policyOverride.Names other.tableName columnName :=
        fun _ h => hsame h.1.symm
      simp [strengthenDescriptor, strongestPolicy, hsame, hnames]
  rw [applyColumnPolicyOverride, updateFirst_eq_ok h.tables]
  constructor
  · intro hok
    rcases hok with ⟨descriptor, hmem, hname, descriptor', hdescriptor, rfl⟩
    rw [applyToDescriptor_eq_ok (h.columns descriptor hmem) hname.symm] at hdescriptor
    rcases hdescriptor with ⟨⟨column, hcolumn, hnames, hle⟩, rfl⟩
    exact ⟨⟨descriptor, hmem, column, hcolumn, hnames, hle⟩, hdescriptors descriptor hmem hname⟩
  · intro hok
    rcases hok with ⟨⟨descriptor, hmem, column, hcolumn, hnames, hle⟩, rfl⟩
    refine ⟨descriptor, hmem, hnames.1.symm, _, ?_,
      (hdescriptors descriptor hmem hnames.1.symm).symm⟩
    rw [applyToDescriptor_eq_ok (h.columns descriptor hmem) hnames.1]
    exact ⟨⟨column, hcolumn, hnames, hle⟩, rfl⟩

/-! ## All overrides -/

/-- The override names no column that is described. -/
def UnknownColumn (descriptors : List (EntityBackupDescriptor δ γ))
    (policyOverride : ColumnPolicyOverride) : Prop :=
  ¬ ∃ descriptor ∈ descriptors, ∃ column ∈ descriptor.columns,
    policyOverride.Names descriptor.tableName column.columnName

/-- The override is weaker than the strongest policy its column has so far. -/
def WeakensPolicy (earlier : List ColumnPolicyOverride)
    (descriptors : List (EntityBackupDescriptor δ γ))
    (policyOverride : ColumnPolicyOverride) : Prop :=
  ∃ descriptor ∈ descriptors, ∃ column ∈ descriptor.columns,
    policyOverride.Names descriptor.tableName column.columnName ∧
      policyOverride.policy < strongestPolicy earlier descriptor.tableName column

/-- What is described and its names do not depend on the overrides so far. -/
theorem acceptsOverride_strengthen_iff (h : DistinctNames descriptors)
    (earlier : List ColumnPolicyOverride) :
    AcceptsOverride (strengthen earlier descriptors) policyOverride ↔
      ¬ (UnknownColumn descriptors policyOverride ∨
        WeakensPolicy earlier descriptors policyOverride) := by
  rw [not_or, UnknownColumn, not_not]
  constructor
  · intro haccepts
    rcases haccepts with ⟨_, hmem, _, hmemColumn, hnames, hle⟩
    rcases List.mem_map.mp hmem with ⟨descriptor, hdescriptor, rfl⟩
    rcases List.mem_map.mp hmemColumn with ⟨column, hcolumn, rfl⟩
    refine ⟨⟨descriptor, hdescriptor, column, hcolumn, hnames⟩, ?_⟩
    intro hweakens
    rcases hweakens with ⟨descriptor', hdescriptor', column', hcolumn', hnames', hlt⟩
    -- the override names one column only
    obtain rfl := List.inj_on_of_nodup_map h.tables hdescriptor' hdescriptor
      (hnames'.1.symm.trans hnames.1)
    obtain rfl := List.inj_on_of_nodup_map (h.columns _ hdescriptor) hcolumn' hcolumn
      (hnames'.2.symm.trans hnames.2)
    exact not_lt.mpr hle hlt
  · intro hnot
    rcases hnot with ⟨⟨descriptor, hdescriptor, column, hcolumn, hnames⟩, hweakens⟩
    refine ⟨_, List.mem_map_of_mem hdescriptor, _, List.mem_map_of_mem hcolumn, hnames, ?_⟩
    apply not_lt.mp
    intro hlt
    exact hweakens ⟨descriptor, hdescriptor, column, hcolumn, hnames, hlt⟩

/-- A list of overrides is applied override by override. -/
theorem applyColumnPolicyOverrides_concat_eq_ok (h : DistinctNames descriptors)
    (hearlier : ∀ out, applyColumnPolicyOverrides overrides descriptors = .ok out →
      out = strengthen overrides descriptors)
    {out : List (EntityBackupDescriptor δ γ)} :
    applyColumnPolicyOverrides (overrides ++ [policyOverride]) descriptors = .ok out ↔
      (∃ out', applyColumnPolicyOverrides overrides descriptors = .ok out') ∧
      ¬ (UnknownColumn descriptors policyOverride ∨
        WeakensPolicy overrides descriptors policyOverride) ∧
      out = strengthen (overrides ++ [policyOverride]) descriptors := by
  have hconcat : applyColumnPolicyOverrides (overrides ++ [policyOverride]) descriptors =
      applyColumnPolicyOverrides overrides descriptors >>= fun descriptors =>
        applyColumnPolicyOverride descriptors policyOverride := by
    simp [applyColumnPolicyOverrides, List.foldlM_append]
  rw [hconcat, bind_eq_ok, ← acceptsOverride_strengthen_iff h, strengthen_concat]
  constructor
  · intro hok
    rcases hok with ⟨out', hout', hlast⟩
    obtain rfl := hearlier out' hout'
    exact ⟨⟨_, hout'⟩, (applyColumnPolicyOverride_eq_ok (h.strengthen overrides)).mp hlast⟩
  · intro hok
    rcases hok with ⟨⟨out', hout'⟩, hlast⟩
    obtain rfl := hearlier out' hout'
    exact ⟨_, hout', (applyColumnPolicyOverride_eq_ok (h.strengthen overrides)).mpr hlast⟩

theorem eq_strengthen_of_applyColumnPolicyOverrides (h : DistinctNames descriptors)
    (overrides : List ColumnPolicyOverride) : ∀ out : List (EntityBackupDescriptor δ γ),
      applyColumnPolicyOverrides overrides descriptors = .ok out →
        out = strengthen overrides descriptors := by
  induction overrides using List.reverseRecOn with
  | nil =>
    intro out hok
    rw [← Except.ok.inj hok]
    exact (strengthen_nil descriptors).symm
  | append_singleton overrides policyOverride ih =>
    intro out hok
    exact ((applyColumnPolicyOverrides_concat_eq_ok h ih).mp hok).2.2

/-- Overrides are applied until one is unknown or weakens. -/
theorem exists_applyColumnPolicyOverrides_iff (h : DistinctNames descriptors)
    (overrides : List ColumnPolicyOverride) :
    (∃ out, applyColumnPolicyOverrides overrides descriptors = .ok out) ↔
      ∀ earlier policyOverride later, overrides = earlier ++ policyOverride :: later →
        ¬ (UnknownColumn descriptors policyOverride ∨
          WeakensPolicy earlier descriptors policyOverride) := by
  induction overrides using List.reverseRecOn with
  | nil =>
    refine iff_of_true ⟨descriptors, rfl⟩ ?_
    intro earlier policyOverride later heq
    simp at heq
  | append_singleton overrides last ih =>
    have hearlier := eq_strengthen_of_applyColumnPolicyOverrides h overrides
    simp only [applyColumnPolicyOverrides_concat_eq_ok h hearlier, ih]
    constructor
    · intro hok earlier policyOverride later heq
      rcases hok with ⟨_, hearlier, hlast, _⟩
      rcases List.eq_nil_or_concat later with rfl | ⟨later, x, rfl⟩
      · obtain ⟨rfl, hsame⟩ := List.append_inj' heq rfl
        obtain ⟨rfl, _⟩ := List.cons.inj hsame
        exact hlast
      · rw [List.concat_eq_append, ← List.cons_append, ← List.append_assoc] at heq
        exact hearlier earlier policyOverride later (List.append_inj' heq rfl).1
    · intro hall
      refine ⟨_, ?_, hall overrides last [] rfl, rfl⟩
      intro earlier policyOverride later heq
      apply hall earlier policyOverride (later ++ [last])
      rw [heq, List.append_assoc, List.cons_append]

/-- **Overrides only strengthen.**  Overrides that are applied give every column
    the maximum of its own policy and those of the overrides for it, and change
    nothing else.  They are refused exactly when one of them names no column
    that is described, or is weaker than the maximum of the column's own policy
    and those of the overrides for it that come earlier. -/
theorem overrides_only_strengthen (h : DistinctNames descriptors)
    (overrides : List ColumnPolicyOverride) :
    (∀ out, applyColumnPolicyOverrides overrides descriptors = .ok out →
      out = strengthen overrides descriptors) ∧
    (∀ tableName (column : ColumnBackupDescriptor γ),
      IsGreatest {policy | policy = column.backupPolicy ∨ ∃ policyOverride ∈ overrides,
        policyOverride.Names tableName column.columnName ∧ policy = policyOverride.policy}
        (strongestPolicy overrides tableName column)) ∧
    ((∃ e, applyColumnPolicyOverrides overrides descriptors = .error e) ↔
      ∃ earlier policyOverride later, overrides = earlier ++ policyOverride :: later ∧
        (UnknownColumn descriptors policyOverride ∨
          WeakensPolicy earlier descriptors policyOverride)) := by
  refine ⟨eq_strengthen_of_applyColumnPolicyOverrides h overrides,
    isGreatest_strongestPolicy overrides, ?_⟩
  have herror : (∃ e, applyColumnPolicyOverrides overrides descriptors = .error e) ↔
      ¬ ∃ out, applyColumnPolicyOverrides overrides descriptors = .ok out := by
    cases applyColumnPolicyOverrides overrides descriptors with
    | ok out => simp
    | error e => simp
  rw [herror, exists_applyColumnPolicyOverrides_iff h]
  simp only [not_forall, not_not, exists_prop]

/-! ## An account with a secret -/

/-- The secret is not to be written in the clear. -/
def accounts : List (EntityBackupDescriptor Unit Unit) :=
  [⟨"accounts", [⟨"id", .include, ()⟩, ⟨"secret", .redact, ()⟩], ()⟩]

def withoutSecret : List ColumnPolicyOverride := [⟨"accounts", "secret", .exclude⟩]

def revealSecret : List ColumnPolicyOverride := [⟨"accounts", "secret", .include⟩]

theorem distinctNames_accounts : DistinctNames accounts where
  tables := by decide
  columns := by
    unfold accounts
    rw [List.forall_mem_singleton]
    decide

theorem overrides_only_strengthen_accounts :
    applyColumnPolicyOverrides withoutSecret accounts = .ok (strengthen withoutSecret accounts) ∧
    ∃ earlier policyOverride later, revealSecret = earlier ++ policyOverride :: later ∧
      (UnknownColumn accounts policyOverride ∨ WeakensPolicy earlier accounts policyOverride) := by
  have hrefused : ∃ e, applyColumnPolicyOverrides revealSecret accounts = .error e := ⟨_, rfl⟩
  have happlied : ∃ out, applyColumnPolicyOverrides withoutSecret accounts = .ok out := ⟨_, rfl⟩
  rcases happlied with ⟨out, hout⟩
  obtain ⟨hstrengthen, -, -⟩ := overrides_only_strengthen distinctNames_accounts withoutSecret
  obtain ⟨-, -, hrefuse⟩ := overrides_only_strengthen distinctNames_accounts revealSecret
  exact ⟨hstrengthen out hout ▸ hout, hrefuse.mp hrefused⟩

end GraphqlOrmBackup
