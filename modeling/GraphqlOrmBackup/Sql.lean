import GraphqlOrmBackup.Interaction.Fallible

/-!
# SQL connections

A database behind a pool of connections, as one client of it sees it.  The engine
is a parameter: what SQLite and PostgreSQL, and the driver that they are used
through, document of the statements by which tables are cleared is assumed of it,
by name.
-/

namespace Sql

/-! ## What is seen of a database -/

/-- The rows of each table. -/
abbrev Tables (ρ : Type) := String → List ρ

def clear {ρ : Type} (names : List String) (tables : Tables ρ) : Tables ρ := fun name =>
  if name ∈ names then [] else tables name

/-- Whether foreign keys are enforced, and the tables as an open transaction has
    them. -/
structure Connection (ρ : Type) where
  foreignKeys : Bool
  transaction : Option (Tables ρ)

/-- A connection that a pool opens. -/
def Connection.fresh (ρ : Type) : Connection ρ := ⟨true, none⟩

/-- The committed tables, the connections that the pool may hand out, and the one
    that is held. -/
structure Server (ρ : Type) where
  tables : Tables ρ
  pooled : List (Connection ρ)
  held : Option (Connection ρ)

/-! ## A client of a pool -/

/-- The calls of a client that holds at most one connection.  A transaction that is
    dropped is rolled back, and a connection that is dropped is released. -/
inductive Call where
  | acquire
  | execute (sql : String)
  | begin
  | commit
  | rollback
  | release
  | close
  | executeOnPool (sql : String)

abbrev Call.Response (_ : Call) : Type := Except String Unit

/-- A database and the driver: the states they can be in, what is seen of these, and
    how calls are answered. -/
structure Engine (ρ : Type) where
  State : Type
  server : State → Server ρ
  Answers : (c : Call) → State → c.Response → State → Prop

/-! ## Texts -/

/-- A delimited identifier: quotation marks in it are doubled. -/
def delimited (name : List Char) : List Char :=
  '"' :: (name.flatMap fun c => if c = '"' then ['"', '"'] else [c]) ++ ['"']

def delimitedNames (names : List String) : List Char :=
  ", ".toList.intercalate (names.map fun name => delimited name.toList)

def foreignKeysPragma : Bool → String
  | true => "PRAGMA foreign_keys = ON"
  | false => "PRAGMA foreign_keys = OFF"

/-- `DELETE` without a condition. -/
def Deletes (sql name : String) : Prop :=
  sql.toList = "DELETE FROM ".toList ++ delimited name.toList

/-- `TRUNCATE` of several tables. -/
def Truncates (sql : String) (names : List String) : Prop :=
  sql.toList = "TRUNCATE TABLE ".toList ++ (delimitedNames names ++ " CASCADE".toList)

/-! ## What is documented -/

/-- A pool may open connections, and close those that it has. -/
def Draws {ρ : Type} (before after : List (Connection ρ)) : Prop :=
  ∀ connection ∈ after, connection = .fresh ρ ∨ connection ∈ before

/-- What is documented of SQLite and of its driver, for tables without triggers.
    Nobody else uses the database. -/
structure Sqlite {ρ : Type} (engine : Engine ρ) : Prop where
  /-- A call that fails has no effect, unless it is a commit. -/
  failed : ∀ c s e s', c = .acquire ∨ c = .begin ∨ (∃ sql, c = .execute sql) →
    engine.Answers c s (.error e) s' → engine.server s' = engine.server s
  /-- What is acquired is a connection of the pool, or a new one. -/
  acquire : ∀ s s', (engine.server s).held = none → engine.Answers .acquire s (.ok ()) s' →
    ∃ connection pooled, Draws (engine.server s).pooled (connection :: pooled) ∧
      engine.server s' = ⟨(engine.server s).tables, pooled, some connection⟩
  /-- A connection that is dropped returns to the pool, or is closed. -/
  release : ∀ s r s' tables pooled connection,
    engine.server s = ⟨tables, pooled, some connection⟩ → engine.Answers .release s r s' →
    ∃ pooled', Draws (connection :: pooled) pooled' ∧ engine.server s' = ⟨tables, pooled', none⟩
  /-- A connection that is detached and closed does not return. -/
  close : ∀ s r s' tables pooled connection,
    engine.server s = ⟨tables, pooled, some connection⟩ → engine.Answers .close s r s' →
    engine.server s' = ⟨tables, pooled, none⟩
  /-- `PRAGMA foreign_keys` switches the connection, outside of a transaction. -/
  foreignKeys : ∀ on s s' tables pooled before,
    engine.server s = ⟨tables, pooled, some ⟨before, none⟩⟩ →
    engine.Answers (.execute (foreignKeysPragma on)) s (.ok ()) s' →
    engine.server s' = ⟨tables, pooled, some ⟨on, none⟩⟩
  /-- A transaction starts from the committed tables. -/
  begin : ∀ s s' tables pooled on, engine.server s = ⟨tables, pooled, some ⟨on, none⟩⟩ →
    engine.Answers .begin s (.ok ()) s' →
    engine.server s' = ⟨tables, pooled, some ⟨on, some tables⟩⟩
  /-- `DELETE FROM` deletes the rows of the table in the transaction, and no others
      where foreign keys are not enforced. -/
  deleteFrom : ∀ sql name s s' tables pooled working, Deletes sql name →
    engine.server s = ⟨tables, pooled, some ⟨false, some working⟩⟩ →
    engine.Answers (.execute sql) s (.ok ()) s' →
    engine.server s' = ⟨tables, pooled, some ⟨false, some (clear [name] working)⟩⟩
  /-- A commit is atomic.  One that fails may have taken effect. -/
  commit : ∀ s r s' tables pooled on working,
    engine.server s = ⟨tables, pooled, some ⟨on, some working⟩⟩ → engine.Answers .commit s r s' →
    engine.server s' = ⟨working, pooled, some ⟨on, none⟩⟩ ∨
      (∃ e, r = .error e) ∧ engine.server s' = engine.server s
  /-- A transaction that is dropped is rolled back. -/
  rollback : ∀ s r s' tables pooled on transaction,
    engine.server s = ⟨tables, pooled, some ⟨on, transaction⟩⟩ → engine.Answers .rollback s r s' →
    engine.server s' = ⟨tables, pooled, some ⟨on, none⟩⟩

/-- No call of these has to fail; where foreign keys are not enforced, neither has a
    `DELETE FROM`. -/
structure Sqlite.Serves {ρ : Type} (engine : Engine ρ) : Prop where
  acquire : ∀ s, (engine.server s).held = none → ∃ s', engine.Answers .acquire s (.ok ()) s'
  release : ∀ s tables pooled connection, engine.server s = ⟨tables, pooled, some connection⟩ →
    ∃ s', engine.Answers .release s (.ok ()) s'
  foreignKeys : ∀ on s tables pooled before,
    engine.server s = ⟨tables, pooled, some ⟨before, none⟩⟩ →
    ∃ s', engine.Answers (.execute (foreignKeysPragma on)) s (.ok ()) s'
  begin : ∀ s tables pooled on, engine.server s = ⟨tables, pooled, some ⟨on, none⟩⟩ →
    ∃ s', engine.Answers .begin s (.ok ()) s'
  deleteFrom : ∀ sql name s tables pooled working, Deletes sql name →
    engine.server s = ⟨tables, pooled, some ⟨false, some working⟩⟩ →
    ∃ s', engine.Answers (.execute sql) s (.ok ()) s'
  commit : ∀ s tables pooled working,
    engine.server s = ⟨tables, pooled, some ⟨false, some working⟩⟩ →
    ∃ s', engine.Answers .commit s (.ok ()) s'

/-- What is documented of PostgreSQL, for tables without triggers: a truncation is
    atomic, and empties the tables that it names and those that refer to them. -/
structure Postgres {ρ : Type} (cascade : String → List String) (engine : Engine ρ) : Prop where
  mem_cascade : ∀ name, name ∈ cascade name
  truncate : ∀ sql names s r s', names ≠ [] → Truncates sql names →
    engine.Answers (.executeOnPool sql) s r s' → ∃ pooled, Draws (engine.server s).pooled pooled ∧
      (engine.server s' =
          ⟨clear (names.flatMap cascade) (engine.server s).tables, pooled, (engine.server s).held⟩ ∨
        (∃ e, r = .error e) ∧
          engine.server s' = ⟨(engine.server s).tables, pooled, (engine.server s).held⟩)
  /-- An empty list of tables is an error of syntax. -/
  syntaxError : ∀ sql s r s', Truncates sql [] → engine.Answers (.executeOnPool sql) s r s' →
    (∃ e, r = .error e) ∧ ∃ pooled, Draws (engine.server s).pooled pooled ∧
      engine.server s' = ⟨(engine.server s).tables, pooled, (engine.server s).held⟩

def Postgres.Serves {ρ : Type} (engine : Engine ρ) : Prop :=
  ∀ sql names s, names ≠ [] → Truncates sql names →
    ∃ s', engine.Answers (.executeOnPool sql) s (.ok ()) s'

/-! ## Cleared tables -/

theorem clear_nil {ρ : Type} (tables : Tables ρ) : clear [] tables = tables := by
  funext name
  simp [clear]

theorem clear_append {ρ : Type} (names names' : List String) (tables : Tables ρ) :
    clear names' (clear names tables) = clear (names ++ names') tables := by
  funext name
  simp only [clear, List.mem_append]
  split
  · simp [*]
  · simp [*]

theorem clear_perm {ρ : Type} {names names' : List String} (h : names.Perm names')
    (tables : Tables ρ) : clear names tables = clear names' tables := by
  funext name
  simp only [clear, h.mem_iff]

end Sql
