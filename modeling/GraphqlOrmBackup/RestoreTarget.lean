import GraphqlOrmBackup.OrmAdapter
import GraphqlOrmBackup.SqlReference

/-!
# Clearing a restore target

`clear_restore_target` of `orm.rs`: the rows of every entity's table are deleted,
so that a restore into an empty database can run.  SQLite deletes in one
transaction on a connection that does not enforce foreign keys meanwhile;
PostgreSQL truncates in one statement.
-/

namespace GraphqlOrmBackup

open Interaction Sql

/-! ## The program -/

/-- `current_backend` of `graphql-orm`: the backend that it was built for. -/
inductive DatabaseBackend where
  | sqlite
  | postgres
deriving DecidableEq

abbrev SqlM (α : Type) := Fallible Sql.Call.Response BackupError α

/-- A call whose error is one of the operation. -/
def sqlCall (operation : String) (c : Sql.Call) : SqlM Unit :=
  ExceptT.mk ((Prog.perform c).bind fun r =>
    .ret (Except.mapError (databaseError operation) r))

/-- A call whose answer is ignored, as that of a value that is dropped. -/
def ignored (c : Sql.Call) : SqlM Unit := ExceptT.mk ((Prog.perform c).bind fun _ => .ret (.ok ()))

def deleteSql (tableName : String) : String := "DELETE FROM " ++ quoteIdentifier tableName

def truncateSql (tableNames : List String) : String :=
  "TRUNCATE TABLE " ++ ", ".intercalate (tableNames.map quoteIdentifier) ++ " CASCADE"

/-- Children first. -/
def clearsFirst {δ γ : Type} (left right : OrmDescriptor δ γ) : Bool :=
  decide (right.rest.restoreOrder < left.rest.restoreOrder ∨
    (right.rest.restoreOrder = left.rest.restoreOrder ∧ right.tableName ≤ left.tableName))

/-- The transaction; it is dropped at an error. -/
def clearTables {δ γ : Type} (descriptors : List (OrmDescriptor δ γ)) : SqlM Unit := do
  sqlCall "clear restore target" .begin
  let cleared ← Fallible.attempt do
    forM descriptors fun descriptor =>
      sqlCall ("clear restore target table " ++ descriptor.tableName)
        (.execute (deleteSql descriptor.tableName))
    sqlCall "clear restore target commit" .commit
  match cleared with
  | .ok () => pure ()
  | .error e => do
      ignored .rollback
      throw e

/-- A connection that may not enforce foreign keys is closed, so that it does not
    return to the pool; else it is dropped. -/
def reenableForeignKeys : SqlM (Except BackupError Unit) := do
  let reenabled ← Fallible.attempt
    (sqlCall "re-enable foreign keys" (.execute "PRAGMA foreign_keys = ON"))
  ignored (if reenabled.isOk then .release else .close)
  pure reenabled

def clearRestoreTargetWithoutForeignKeys {δ γ : Type} (descriptors : List (OrmDescriptor δ γ)) :
    SqlM Unit := do
  sqlCall "clear restore target" .acquire
  let suspended ← Fallible.attempt
    (sqlCall "suspend foreign keys" (.execute "PRAGMA foreign_keys = OFF"))
  match suspended with
  | .error e => do
      ignored .release
      throw e
  | .ok () => do
      let cleared ← Fallible.attempt (clearTables descriptors)
      let reenabled ← reenableForeignKeys
      Fallible.ofExcept cleared
      Fallible.ofExcept reenabled

def OrmBackupAdapter.clearRestoreTarget {V δ γ S : Type} (adapter : OrmBackupAdapter V δ γ S)
    (backend : DatabaseBackend) : SqlM Unit := do
  let descriptors ← Fallible.ofExcept adapter.descriptors
  let descriptors := descriptors.mergeSort clearsFirst
  match backend with
  | .sqlite => clearRestoreTargetWithoutForeignKeys descriptors
  | .postgres =>
      sqlCall "clear restore target" (.executeOnPool (truncateSql (descriptors.map (·.tableName))))

/-! ## The texts -/

theorem toList_quoteIdentifier (name : String) :
    (quoteIdentifier name).toList = delimited name.toList := by
  rw [quoteIdentifier, String.toList_ofList, delimited]

theorem deletes_deleteSql (tableName : String) : Deletes (deleteSql tableName) tableName :=
  String.toList_append.trans
    (congrArg ("DELETE FROM ".toList ++ ·) (toList_quoteIdentifier tableName))

theorem toList_join_quoteIdentifier (tableNames : List String) :
    (", ".intercalate (tableNames.map quoteIdentifier)).toList = delimitedNames tableNames := by
  have hquoted : (fun name => delimited name.toList) = String.toList ∘ quoteIdentifier :=
    funext fun name => (toList_quoteIdentifier name).symm
  rw [String.toList_intercalate, List.map_map, delimitedNames, hquoted]

theorem truncates_truncateSql (tableNames : List String) :
    Truncates (truncateSql tableNames) tableNames := by
  have happend : ∀ a b c : String, (a ++ b ++ c).toList = a.toList ++ (b.toList ++ c.toList) := by
    simp
  refine (happend _ _ _).trans ?_
  exact congrArg (fun names => "TRUNCATE TABLE ".toList ++ (names ++ " CASCADE".toList))
    (toList_join_quoteIdentifier tableNames)

/-! ## What the calls do -/

section Runs

variable {ρ δ γ : Type} {engine : Engine ρ} {I : engine.State → Prop}
  {P : Unit → engine.State → Prop} {E : BackupError → engine.State → Prop} {s s' : engine.State}
  {tables working : Tables ρ} {pooled : List (Connection ρ)}
  {descriptors : List (OrmDescriptor δ γ)}

theorem wpE_sqlCall {operation : String} {c : Sql.Call} (hI : I s)
    (hok : ∀ s', engine.Answers c s (.ok ()) s' → I s' ∧ P () s')
    (herr : ∀ text s', engine.Answers c s (.error text) s' →
      I s' ∧ E (databaseError operation text) s') :
    wpE engine.Answers I (sqlCall operation c) P E s := by
  refine ⟨hI, fun r s' hans => ?_⟩
  cases r with
  | ok a => exact hok s' hans
  | error text => exact herr text s' hans

theorem wpE_ignored {c : Sql.Call} (hI : I s)
    (h : ∀ r s', engine.Answers c s r s' → I s' ∧ P () s') :
    wpE engine.Answers I (ignored c) P E s :=
  ⟨hI, fun r s' hans => h r s' hans⟩

/-- A connection is held that does not enforce foreign keys. -/
def suspended (tables : Tables ρ) (pooled : List (Connection ρ)) (transaction : Option (Tables ρ)) :
    Server ρ := ⟨tables, pooled, some ⟨false, transaction⟩⟩

/-- All of the tables have been cleared, or none. -/
def AllOrNothing (names : List String) (before tables : Tables ρ) : Prop :=
  tables = before ∨ tables = clear names before

section Sqlite

variable (hengine : Sqlite engine)
include hengine

/-- **The deletes of the transaction** change its own copy of the tables. -/
theorem wpE_deletes (descriptors : List (OrmDescriptor δ γ))
    (hs : engine.server s = suspended tables pooled (some working)) :
    wpE engine.Answers
      (fun s => ∃ working, engine.server s = suspended tables pooled (some working))
      (forM descriptors fun descriptor =>
        sqlCall ("clear restore target table " ++ descriptor.tableName)
          (.execute (deleteSql descriptor.tableName)))
      (fun _ s => engine.server s = suspended tables pooled
        (some (clear (descriptors.map (·.tableName)) working)))
      (fun _ _ => True) s := by
  induction descriptors generalizing s working with
  | nil =>
    refine ⟨⟨working, hs⟩, hs.trans ?_⟩
    rw [List.map_nil, clear_nil]
  | cons descriptor descriptors ih =>
    rw [List.forM_cons]
    have hdelete : wpE engine.Answers
        (fun s => ∃ working, engine.server s = suspended tables pooled (some working))
        (sqlCall ("clear restore target table " ++ descriptor.tableName)
          (.execute (deleteSql descriptor.tableName)))
        (fun _ s => engine.server s =
          suspended tables pooled (some (clear [descriptor.tableName] working)))
        (fun _ _ => True) s := by
      refine wpE_sqlCall ⟨working, hs⟩ (fun s' hans => ?_) fun text s' hans => ⟨⟨working, ?_⟩, trivial⟩
      · have hs' := hengine.deleteFrom _ _ s s' _ _ _ (deletes_deleteSql _) hs hans
        exact ⟨⟨_, hs'⟩, hs'⟩
      · exact (hengine.failed _ s text s' (Or.inr (Or.inr ⟨_, rfl⟩)) hans).trans hs
    refine wpE.seq hdelete fun _ s' _ hs' => ?_
    refine (ih hs').mono (fun _ s' _ hs' => ?_) fun _ _ _ _ => trivial
    rwa [clear_append] at hs'

/-- **The transaction** clears all tables or none, and is over when it returns. -/
theorem wpE_clearTables {names : List String} (hnames : descriptors.map (·.tableName) = names)
    (hs : engine.server s = suspended tables pooled none) :
    wpE engine.Answers (fun s => AllOrNothing names tables (engine.server s).tables ∧
        (engine.server s).pooled = pooled) (clearTables descriptors)
      (fun _ s => engine.server s = suspended (clear names tables) pooled none)
      (fun _ s => ∃ tables', AllOrNothing names tables tables' ∧
        engine.server s = suspended tables' pooled none) s := by
  have hnothing : AllOrNothing names tables tables := Or.inl rfl
  have hI : ∀ {s : engine.State} {tables' transaction}, AllOrNothing names tables tables' →
      engine.server s = suspended tables' pooled transaction →
      AllOrNothing names tables (engine.server s).tables ∧ (engine.server s).pooled = pooled := by
    intro s tables' transaction htables' hs
    rw [hs]
    exact ⟨htables', rfl⟩
  refine wpE.seq (wpE_sqlCall (P := fun _ s => engine.server s =
    suspended tables pooled (some tables)) (hI hnothing hs) (fun s' hans => ?_)
    fun text s' hans => ?_) ?_
  · have hs' := hengine.begin s s' _ _ _ hs hans
    exact ⟨hI hnothing hs', hs'⟩
  · have hs' := (hengine.failed _ s text s' (Or.inr (Or.inl rfl)) hans).trans hs
    exact ⟨hI hnothing hs', tables, hnothing, hs'⟩
  rintro _ s - hs
  -- at an error the transaction is still open, unless it has been committed
  refine wpE.seq (P := fun r s => (r = .ok () →
      engine.server s = suspended (clear names tables) pooled none) ∧
    ∃ tables' transaction, AllOrNothing names tables tables' ∧
      engine.server s = suspended tables' pooled transaction) (wpE_attempt ?_) ?_
  · refine wpE.seq ((wpE_deletes hengine descriptors hs).relax ?_ ?_) ?_
    · rintro s ⟨working, hs⟩
      exact hI hnothing hs
    · rintro e s ⟨working, hs⟩ _
      exact ⟨nofun, tables, _, hnothing, hs⟩
    rintro _ s - ⟨-, hs⟩
    rw [hnames] at hs
    refine wpE_sqlCall (hI hnothing hs) (fun s' hans => ?_) fun text s' hans => ?_
    · rcases hengine.commit s _ s' _ _ _ _ hs hans with hs' | ⟨⟨e, he⟩, -⟩
      · exact ⟨hI (Or.inr rfl) hs', fun _ => hs', _, _, Or.inr rfl, hs'⟩
      · cases he
    · rcases hengine.commit s _ s' _ _ _ _ hs hans with hs' | ⟨-, hs'⟩
      · exact ⟨hI (Or.inr rfl) hs', nofun, _, _, Or.inr rfl, hs'⟩
      · rw [hs] at hs'
        exact ⟨hI hnothing hs', nofun, tables, _, hnothing, hs'⟩
  rintro r s - ⟨hok, tables', transaction, htables', hs⟩
  cases r with
  | ok a => exact ⟨hI htables' hs, hok rfl⟩
  | error e =>
    refine wpE.seq (wpE_ignored (P := fun _ s => engine.server s = suspended tables' pooled none)
      (hI htables' hs) fun r s' hans => ?_) fun _ s' _ hs' => ?_
    · have hs' := hengine.rollback s r s' _ _ _ _ hs hans
      exact ⟨hI htables' hs', hs'⟩
    · exact ⟨hI htables' hs', tables', htables', hs'⟩

/-- Outside of a transaction foreign keys are switched. -/
theorem wpE_foreignKeys {operation : String} (on : Bool) {before : Bool}
    (hs : engine.server s = ⟨tables, pooled, some ⟨before, none⟩⟩)
    (hI : ∀ s on, engine.server s = ⟨tables, pooled, some ⟨on, none⟩⟩ → I s) :
    wpE engine.Answers I (sqlCall operation (.execute (foreignKeysPragma on)))
      (fun _ s => engine.server s = ⟨tables, pooled, some ⟨on, none⟩⟩)
      (fun _ s => engine.server s = ⟨tables, pooled, some ⟨before, none⟩⟩) s := by
  refine wpE_sqlCall (hI s _ hs) (fun s' hans => ?_) fun text s' hans => ?_
  · have hs' := hengine.foreignKeys on s s' _ _ _ hs hans
    exact ⟨hI s' _ hs', hs'⟩
  · have hs' := (hengine.failed _ s text s' (Or.inr (Or.inr ⟨_, rfl⟩)) hans).trans hs
    exact ⟨hI s' _ hs', hs'⟩

end Sqlite

/-- Every connection in the pool enforces foreign keys, and none has a transaction. -/
def CleanPool (pooled : List (Connection ρ)) : Prop := ∀ connection ∈ pooled, connection = .fresh ρ

theorem CleanPool.draws {after : List (Connection ρ)} (h : CleanPool pooled)
    (hdraws : Draws pooled after) : CleanPool after := fun connection hmem =>
  (hdraws connection hmem).elim id (h connection)

/-- What holds wherever a run stops. -/
def Cleared (names : List String) (before : Tables ρ) (server : Server ρ) : Prop :=
  AllOrNothing names before server.tables ∧ CleanPool server.pooled

section Sqlite

variable (hengine : Sqlite engine)
include hengine

/-- The connection is released only if it enforces foreign keys again. -/
theorem wpE_reenableForeignKeys {names : List String} {before : Tables ρ}
    (htables : AllOrNothing names before tables) (hpooled : CleanPool pooled)
    (hs : engine.server s = suspended tables pooled none) :
    wpE engine.Answers (fun s => Cleared names before (engine.server s)) reenableForeignKeys
      (fun _ s => (engine.server s).held = none ∧ (engine.server s).tables = tables) E s := by
  have hI : ∀ s on, engine.server s = ⟨tables, pooled, some ⟨on, none⟩⟩ →
      Cleared names before (engine.server s) := by
    intro s on hs
    rw [hs]
    exact ⟨htables, hpooled⟩
  refine wpE.seq (P := fun reenabled s => engine.server s =
    ⟨tables, pooled, some ⟨reenabled.isOk, none⟩⟩)
    (wpE_attempt ((wpE_foreignKeys hengine true hs hI).mono ?_ ?_)) ?_
  · exact fun _ _ _ hs => hs
  · exact fun _ _ _ hs => hs
  rintro reenabled s - hs
  refine wpE.seq (wpE_ignored (P := fun _ s => (engine.server s).held = none ∧
    (engine.server s).tables = tables) (hI s _ hs) fun r s' hans => ?_) fun _ _ hs h => ⟨hs, h⟩
  cases reenabled with
  | ok a =>
    obtain ⟨pooled', hdraws, hs'⟩ := hengine.release s r s' _ _ _ hs hans
    rw [hs']
    have hclean : CleanPool (.fresh ρ :: pooled) := List.forall_mem_cons.mpr ⟨rfl, hpooled⟩
    exact ⟨⟨htables, hclean.draws hdraws⟩, rfl, rfl⟩
  | error e =>
    have hs' := hengine.close s r s' _ _ _ hs hans
    rw [hs']
    exact ⟨⟨htables, hpooled⟩, rfl, rfl⟩

/-- **SQLite.**  All tables are cleared or none wherever the run stops, and at its
    end the pool is as clean as it was. -/
theorem wpE_clearRestoreTargetWithoutForeignKeys {names : List String}
    (hnames : descriptors.map (·.tableName) = names) (hheld : (engine.server s).held = none)
    (hpool : CleanPool (engine.server s).pooled) (htables : (engine.server s).tables = tables) :
    wpE engine.Answers (fun s => Cleared names tables (engine.server s))
      (clearRestoreTargetWithoutForeignKeys descriptors)
      (fun _ s => (engine.server s).held = none ∧ (engine.server s).tables = clear names tables)
      (fun _ s => (engine.server s).held = none) s := by
  have hnothing : AllOrNothing names tables tables := Or.inl rfl
  have hstart : Cleared names tables (engine.server s) := ⟨htables ▸ hnothing, hpool⟩
  -- a connection of the pool, or a new one, enforces foreign keys
  refine wpE.seq (wpE_sqlCall (P := fun _ s' => ∃ pooled, CleanPool pooled ∧
    engine.server s' = ⟨tables, pooled, some (.fresh ρ)⟩) hstart (fun s' hans => ?_)
    fun text s' hans => ?_) ?_
  · obtain ⟨connection, pooled, hdraws, hs'⟩ := hengine.acquire s s' hheld hans
    obtain ⟨rfl, hpooled⟩ := List.forall_mem_cons.mp (hpool.draws hdraws)
    rw [htables] at hs'
    refine ⟨?_, pooled, hpooled, hs'⟩
    rw [hs']
    exact ⟨hnothing, hpooled⟩
  · have hs' := hengine.failed _ s text s' (Or.inl rfl) hans
    rw [hs']
    exact ⟨hstart, hheld⟩
  rintro _ s - ⟨pooled, hpooled, hs⟩
  have hI : ∀ s on, engine.server s = ⟨tables, pooled, some ⟨on, none⟩⟩ →
      Cleared names tables (engine.server s) := by
    intro s on hs
    rw [hs]
    exact ⟨hnothing, hpooled⟩
  refine wpE.seq (P := fun r s => engine.server s = ⟨tables, pooled, some ⟨!r.isOk, none⟩⟩)
    (wpE_attempt ((wpE_foreignKeys hengine false hs hI).mono ?_ ?_)) ?_
  · exact fun _ _ _ hs => hs
  · exact fun _ _ _ hs => hs
  rintro r s - hs
  cases r with
  | error e =>
    refine wpE.seq (wpE_ignored (P := fun _ s' => (engine.server s').held = none) (hI s _ hs)
      fun r s' hans => ?_) fun _ s' h hheld => ⟨h, hheld⟩
    obtain ⟨pooled', hdraws, hs'⟩ := hengine.release s r s' _ _ _ hs hans
    rw [hs']
    have hclean : CleanPool (.fresh ρ :: pooled) := List.forall_mem_cons.mpr ⟨rfl, hpooled⟩
    exact ⟨⟨hnothing, hclean.draws hdraws⟩, rfl⟩
  | ok a =>
    refine wpE.seq (P := fun cleared s => ∃ tables', AllOrNothing names tables tables' ∧
      engine.server s = suspended tables' pooled none ∧
      (cleared = .ok () → tables' = clear names tables))
      (wpE_attempt (((wpE_clearTables hengine hnames hs).relax ?_ ?_).mono ?_ fun _ _ _ h => h)) ?_
    · rintro s ⟨htables', hpooled'⟩
      exact ⟨htables', hpooled' ▸ hpooled⟩
    · rintro e s _ ⟨tables', htables', hs⟩
      exact ⟨tables', htables', hs, nofun⟩
    · rintro _ s _ ⟨_, hs⟩
      exact ⟨_, Or.inr rfl, hs, fun _ => rfl⟩
    rintro cleared s - ⟨tables', htables', hs, hcleared⟩
    refine wpE.seq (wpE_reenableForeignKeys hengine htables' hpooled hs) ?_
    rintro reenabled s' hs' ⟨hheld', htables⟩
    cases cleared with
    | error e => exact ⟨hs', hheld'⟩
    | ok a =>
      cases reenabled with
      | error e => exact ⟨hs', hheld'⟩
      | ok b => exact ⟨hs', hheld', htables.trans (hcleared rfl)⟩

end Sqlite

/-- **PostgreSQL.**  One statement, outside of a transaction. -/
theorem wpE_truncate {cascade : String → List String} (hengine : Postgres cascade engine)
    {operation : String} (tableNames : List String) (hheld : (engine.server s).held = none)
    (hpool : CleanPool (engine.server s).pooled) (htables : (engine.server s).tables = tables) :
    wpE engine.Answers (fun s => Cleared (tableNames.flatMap cascade) tables (engine.server s))
      (sqlCall operation (.executeOnPool (truncateSql tableNames)))
      (fun _ s => (engine.server s).held = none ∧
        (engine.server s).tables = clear (tableNames.flatMap cascade) tables)
      (fun _ s => (engine.server s).held = none) s := by
  have hsql := truncates_truncateSql tableNames
  refine wpE_sqlCall ⟨Or.inl htables, hpool⟩ (fun s' hans => ?_) fun text s' hans => ?_
  · by_cases hne : tableNames = []
    · obtain ⟨⟨e, he⟩, -⟩ := hengine.syntaxError _ s _ s' (hne ▸ hsql) (hne ▸ hans)
      cases he
    · obtain ⟨pooled, hdraws, hs' | ⟨⟨e, he⟩, -⟩⟩ := hengine.truncate _ _ s _ s' hne hsql hans
      · rw [hs', htables]
        exact ⟨⟨Or.inr rfl, hpool.draws hdraws⟩, hheld, rfl⟩
      · cases he
  · have hcases : ∃ pooled, Draws (engine.server s).pooled pooled ∧
        (engine.server s' = ⟨clear (tableNames.flatMap cascade) tables, pooled, none⟩ ∨
          engine.server s' = ⟨tables, pooled, none⟩) := by
      rw [← htables, ← hheld]
      by_cases hne : tableNames = []
      · obtain ⟨-, pooled, hdraws, hs'⟩ := hengine.syntaxError _ s _ s' (hne ▸ hsql) hans
        exact ⟨pooled, hdraws, Or.inr hs'⟩
      · obtain ⟨pooled, hdraws, hs'⟩ := hengine.truncate _ _ s _ s' hne hsql hans
        exact ⟨pooled, hdraws, hs'.imp_right And.right⟩
    obtain ⟨pooled, hdraws, hs' | hs'⟩ := hcases
    · rw [hs']
      exact ⟨⟨Or.inr rfl, hpool.draws hdraws⟩, rfl⟩
    · rw [hs']
      exact ⟨⟨Or.inl rfl, hpool.draws hdraws⟩, rfl⟩

/-! ## Runs in which no call fails -/

theorem returns_sqlCall {operation : String} {c : Sql.Call} (h : engine.Answers c s (.ok ()) s') :
    Returns engine.Answers s (sqlCall operation c).run (.ok ()) s' :=
  Reaches.head h (Reaches.refl _ _)

theorem returns_ignored {c : Sql.Call} (h : engine.Answers c s (.ok ()) s') :
    Returns engine.Answers s (ignored c).run (.ok ()) s' :=
  Reaches.head h (Reaches.refl _ _)

section Sqlite

variable (hengine : Sqlite engine) (hserves : Sqlite.Serves engine)
include hengine hserves

/-- Whatever rows refer to each other, the deletes can succeed. -/
theorem exists_returns_deletes (descriptors : List (OrmDescriptor δ γ))
    (hs : engine.server s = suspended tables pooled (some working)) :
    ∃ s' working', engine.server s' = suspended tables pooled (some working') ∧
      Returns engine.Answers s (forM descriptors fun descriptor =>
        sqlCall ("clear restore target table " ++ descriptor.tableName)
          (.execute (deleteSql descriptor.tableName)) : SqlM PUnit).run (.ok ()) s' := by
  induction descriptors generalizing s working with
  | nil => exact ⟨s, working, hs, Reaches.refl _ _⟩
  | cons descriptor descriptors ih =>
    have hsql := deletes_deleteSql descriptor.tableName
    obtain ⟨s₁, hdelete⟩ := hserves.deleteFrom _ _ s _ _ _ hsql hs
    obtain ⟨s', working', hs', hrest⟩ := ih (hengine.deleteFrom _ _ s s₁ _ _ _ hsql hs hdelete)
    rw [List.forM_cons]
    exact ⟨s', working', hs', Fallible.returns_bind (returns_sqlCall hdelete) hrest⟩

theorem exists_returns_clearTables (descriptors : List (OrmDescriptor δ γ))
    (hs : engine.server s = suspended tables pooled none) :
    ∃ s' tables', engine.server s' = suspended tables' pooled none ∧
      Returns engine.Answers s (clearTables descriptors).run (.ok ()) s' := by
  obtain ⟨s₁, hbegin⟩ := hserves.begin s _ _ _ hs
  have hs₁ := hengine.begin s s₁ _ _ _ hs hbegin
  obtain ⟨s₂, working, hs₂, hdeletes⟩ :=
    exists_returns_deletes hengine hserves descriptors hs₁
  obtain ⟨s₃, hcommit⟩ := hserves.commit s₂ _ _ _ hs₂
  have hs₃ : engine.server s₃ = suspended working pooled none := by
    rcases hengine.commit s₂ _ s₃ _ _ _ _ hs₂ hcommit with hs₃ | ⟨⟨e, he⟩, -⟩
    · exact hs₃
    · cases he
  refine ⟨s₃, working, hs₃, Fallible.returns_bind (returns_sqlCall hbegin) ?_⟩
  refine Fallible.returns_bind (Fallible.returns_attempt (Fallible.returns_bind hdeletes
    (returns_sqlCall hcommit))) ?_
  exact Reaches.refl _ _

theorem exists_returns_reenableForeignKeys
    (hs : engine.server s = suspended tables pooled none) :
    ∃ s', Returns engine.Answers s reenableForeignKeys.run (.ok (.ok ())) s' := by
  obtain ⟨s₁, henforce⟩ := hserves.foreignKeys true s _ _ _ hs
  obtain ⟨s', hrelease⟩ :=
    hserves.release s₁ _ _ _ (hengine.foreignKeys true s s₁ _ _ _ hs henforce)
  refine ⟨s', Fallible.returns_bind (Fallible.returns_attempt (returns_sqlCall henforce)) ?_⟩
  exact Fallible.returns_bind (returns_ignored hrelease) (Reaches.refl _ _)

theorem exists_returns_clearRestoreTargetWithoutForeignKeys
    (descriptors : List (OrmDescriptor δ γ)) (hheld : (engine.server s).held = none)
    (hpool : CleanPool (engine.server s).pooled) :
    ∃ s', Returns engine.Answers s
      (clearRestoreTargetWithoutForeignKeys descriptors).run (.ok ()) s' := by
  obtain ⟨s₁, hacquire⟩ := hserves.acquire s hheld
  obtain ⟨connection, pooled, hdraws, hs₁⟩ := hengine.acquire s s₁ hheld hacquire
  obtain ⟨rfl, -⟩ := List.forall_mem_cons.mp (hpool.draws hdraws)
  obtain ⟨s₂, hsuspend⟩ := hserves.foreignKeys false s₁ _ _ _ hs₁
  obtain ⟨s₃, tables, hs₃, hcleared⟩ := exists_returns_clearTables hengine hserves descriptors
    (hengine.foreignKeys false s₁ s₂ _ _ _ hs₁ hsuspend)
  obtain ⟨s', hreenabled⟩ := exists_returns_reenableForeignKeys hengine hserves hs₃
  refine ⟨s', Fallible.returns_bind (returns_sqlCall hacquire) ?_⟩
  apply Fallible.returns_bind (Fallible.returns_attempt (returns_sqlCall hsuspend))
  apply Fallible.returns_bind (Fallible.returns_attempt hcleared)
  apply Fallible.returns_bind hreenabled
  exact Reaches.refl _ _

end Sqlite

/-! ## Both backends -/

/-- What is documented of the database of the backend. -/
def Documented (engine : Engine ρ) (cascade : String → List String) : DatabaseBackend → Prop
  | .sqlite => Sqlite engine
  | .postgres => Postgres cascade engine

/-- No call has to fail. -/
def Serves (engine : Engine ρ) : DatabaseBackend → Prop
  | .sqlite => Sqlite.Serves engine
  | .postgres => Postgres.Serves engine

/-- The tables that are emptied. -/
def clearedTables (cascade : String → List String) (backend : DatabaseBackend)
    (tableNames : List String) : List String :=
  match backend with
  | .sqlite => tableNames
  | .postgres => tableNames.flatMap cascade

/-- The counts of a database that has these tables. -/
def Counts (fetchRowCount : String → Except String (Except String Int)) (tables : Tables ρ) : Prop :=
  ∀ name, fetchRowCount ("SELECT COUNT(*) AS row_count FROM " ++ quoteIdentifier name) =
    .ok (.ok (tables name).length)

variable {V S : Type} {adapter : OrmBackupAdapter V δ γ S} {backend : DatabaseBackend}
  {cascade : String → List String}

/-- A target all of whose tables count no row is empty. -/
theorem tablesAreEmpty_of_counts (h : Counts adapter.database.fetchRowCount tables)
    (descriptors : List (OrmDescriptor δ γ))
    (hempty : ∀ descriptor ∈ descriptors, tables descriptor.tableName = []) :
    adapter.tablesAreEmpty descriptors = .ok true := by
  induction descriptors with
  | nil => rfl
  | cons descriptor descriptors ih =>
    rw [List.forall_mem_cons] at hempty
    rw [OrmBackupAdapter.tablesAreEmpty, h, hempty.1]
    exact ih hempty.2

/-- The order of the tables does not matter. -/
theorem clear_clearedTables_perm {names names' : List String} (h : names.Perm names')
    (tables : Tables ρ) :
    clear (clearedTables cascade backend names) tables =
      clear (clearedTables cascade backend names') tables := by
  apply clear_perm
  cases backend with
  | sqlite => exact h
  | postgres => exact h.flatMap_right _

theorem mem_clearedTables (hengine : Documented engine cascade backend) {names : List String}
    {name : String} (h : name ∈ names) : name ∈ clearedTables cascade backend names := by
  cases backend with
  | sqlite => exact h
  | postgres => exact List.mem_flatMap.mpr ⟨name, h, Postgres.mem_cascade hengine name⟩

theorem wpE_clearRestoreTarget (hengine : Documented engine cascade backend)
    (hdescriptors : adapter.descriptors = .ok descriptors)
    (hheld : (engine.server s).held = none) (hpool : CleanPool (engine.server s).pooled)
    (htables : (engine.server s).tables = tables) :
    wpE engine.Answers
      (fun s => Cleared (clearedTables cascade backend (descriptors.map (·.tableName))) tables
        (engine.server s))
      (adapter.clearRestoreTarget backend)
      (fun _ s => (engine.server s).held = none ∧ (engine.server s).tables =
        clear (clearedTables cascade backend (descriptors.map (·.tableName))) tables)
      (fun _ s => (engine.server s).held = none) s := by
  have hsorted := (descriptors.mergeSort_perm clearsFirst).map (·.tableName)
  simp only [Cleared, AllOrNothing, ← clear_clearedTables_perm hsorted]
  rw [OrmBackupAdapter.clearRestoreTarget, hdescriptors]
  refine wpE.seq (P := fun found s' => descriptors = found ∧ s' = s)
    (wpE_ofExcept.mpr ⟨⟨Or.inl htables, hpool⟩, rfl, rfl⟩) ?_
  rintro _ _ _ ⟨rfl, rfl⟩
  cases backend with
  | sqlite => exact wpE_clearRestoreTargetWithoutForeignKeys hengine rfl hheld hpool htables
  | postgres => exact wpE_truncate hengine _ hheld hpool htables

theorem exists_returns_clearRestoreTarget (hengine : Documented engine cascade backend)
    (hserves : Serves engine backend) (hdescriptors : adapter.descriptors = .ok descriptors)
    (hsome : backend = .postgres → descriptors ≠ []) (hheld : (engine.server s).held = none)
    (hpool : CleanPool (engine.server s).pooled) :
    ∃ s', Returns engine.Answers s (adapter.clearRestoreTarget backend).run (.ok ()) s' := by
  rw [OrmBackupAdapter.clearRestoreTarget, hdescriptors]
  cases backend with
  | sqlite =>
    obtain ⟨s', hret⟩ := exists_returns_clearRestoreTargetWithoutForeignKeys hengine hserves
      (descriptors.mergeSort clearsFirst) hheld hpool
    exact ⟨s', Fallible.returns_bind (Fallible.returns_ofExcept rfl) hret⟩
  | postgres =>
    have hne : (descriptors.mergeSort clearsFirst).map (·.tableName) ≠ [] := by
      rw [Ne, List.map_eq_nil_iff]
      exact fun hnil => hsome rfl (List.Perm.nil_eq (hnil ▸ List.mergeSort_perm _ _)).symm
    obtain ⟨s', htruncate⟩ := hserves _ _ s hne (truncates_truncateSql _)
    exact ⟨s', Fallible.returns_bind (Fallible.returns_ofExcept rfl) (returns_sqlCall htruncate)⟩

end Runs

/-! ## Tables with a row each -/

open Sql.Reference

def rowEntities : List (OrmDescriptor Unit Unit) :=
  [⟨"notes", [], ⟨0, 1, ()⟩⟩, ⟨"us\"ers", [], ⟨0, 0, ()⟩⟩]

/-- An adapter for two of the tables, one with a quotation mark in its name. -/
def twoTables : OrmBackupAdapter Empty Unit Unit Unit where
  database := {
    listBackupEntities := rowEntities
    schemaSnapshot := fun migrationVersion => ⟨"sqlite", migrationVersion, "h", []⟩
    stableSchemaHash := fun _ => "h"
    currentVersion := .ok none
    beginConsistentSnapshot := .ok ()
    exportTableRows := fun _ _ => .ok []
    fetchRowCount := fun _ => .ok (.ok 1)
    restoreBackupRows := fun _ => .ok () }
  migrationVersion := none
  columnPolicyOverrides := []

/-- Every row is referenced. -/
def allReferenced : ForeignKeys Unit := ⟨fun _ _ => True, fun name => [name], by simp⟩

theorem documented_allReferenced (backend : DatabaseBackend) :
    Documented (engine allReferenced) allReferenced.cascade backend ∧
      Serves (engine allReferenced) backend := by
  cases backend with
  | sqlite => exact ⟨sqlite_engine _, serves_engine _⟩
  | postgres => exact ⟨postgres_engine _, postgres_serves_engine _⟩

def oneRowEach : Server Unit := ⟨fun _ => [()], [], none⟩

/-- The tables are cleared, and the others are not. -/
def ClearsTwoTables (backend : DatabaseBackend) : Prop :=
  ∃ s' : Server Unit, Returns (Answers allReferenced) oneRowEach
    (twoTables.clearRestoreTarget backend).run (.ok ()) s' ∧
    s'.tables "notes" = [] ∧ s'.tables "us\"ers" = [] ∧ s'.tables "users" = [()] ∧
    s'.held = none ∧ CleanPool s'.pooled

end GraphqlOrmBackup
