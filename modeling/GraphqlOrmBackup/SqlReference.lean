import GraphqlOrmBackup.Sql

/-!
# A reference database

A database that does what is documented of SQLite and of PostgreSQL, as far as
tables are cleared: it reads the statements back from their texts, enforces
foreign keys or not for each connection, and keeps a copy of the tables for a
transaction, which replaces them when it is committed.
-/

namespace Sql.Reference

/-! ## Statements as text -/

inductive Statement where
  | foreignKeys (on : Bool)
  | deleteFrom (tableName : String)
  | truncate (tableNames : List String)
deriving DecidableEq

/-- The name up to the quotation mark that ends it, and the rest. -/
def readUntilQuote : List Char → Option (List Char × List Char)
  | [] => none
  | '"' :: '"' :: rest => (readUntilQuote rest).map fun (name, rest) => ('"' :: name, rest)
  | '"' :: rest => some ([], rest)
  | c :: rest => (readUntilQuote rest).map fun (name, rest) => (c :: name, rest)

def readIdentifier : List Char → Option (String × List Char)
  | '"' :: rest => (readUntilQuote rest).map fun (name, rest) => (String.ofList name, rest)
  | _ => none

/-- Identifiers between commas, up to the word `CASCADE`; `fuel` bounds their
    number. -/
def readNames : Nat → List Char → Option (List String)
  | 0, _ => none
  | fuel + 1, text => do
      let (name, rest) ← readIdentifier text
      match rest with
      | ',' :: ' ' :: rest => (readNames fuel rest).map fun names => name :: names
      | rest => if rest = " CASCADE".toList then some [name] else none

/-- The text after a keyword. -/
def after? (keyword : String) (text : List Char) : Option (List Char) :=
  if keyword.toList.isPrefixOf text then some (text.drop keyword.toList.length) else none

def parsePragma (text : List Char) : Option Statement :=
  if text = "OFF".toList then some (.foreignKeys false)
  else if text = "ON".toList then some (.foreignKeys true)
  else none

def parseDelete (text : List Char) : Option Statement := do
  let (name, rest) ← readIdentifier text
  if rest = [] then some (.deleteFrom name) else none

def parseTruncate (text : List Char) : Option Statement :=
  (readNames text.length text).map .truncate

def parse (sql : String) : Option Statement :=
  match after? "PRAGMA foreign_keys = " sql.toList, after? "DELETE FROM " sql.toList,
    after? "TRUNCATE TABLE " sql.toList with
  | some text, _, _ => parsePragma text
  | none, some text, _ => parseDelete text
  | none, none, some text => parseTruncate text
  | none, none, none => none

/-- The name is read back, whatever characters it has. -/
theorem readUntilQuote_delimited (name rest : List Char) (hrest : rest.head? ≠ some '"') :
    readUntilQuote ((name.flatMap fun c => if c = '"' then ['"', '"'] else [c]) ++ '"' :: rest) =
      some (name, rest) := by
  induction name with
  | nil =>
    cases rest with
    | nil => rfl
    | cons c rest =>
      have hc : c ≠ '"' := fun h => hrest (h ▸ rfl)
      simp [readUntilQuote, hc]
  | cons c name ih =>
    by_cases hc : c = '"'
    · simp [hc, readUntilQuote, ih]
    · simp [hc, readUntilQuote, ih]

theorem readIdentifier_delimited (name : String) (rest : List Char)
    (hrest : rest.head? ≠ some '"') :
    readIdentifier (delimited name.toList ++ rest) = some (name, rest) := by
  have hread := readUntilQuote_delimited name.toList rest hrest
  simp only [delimited, List.cons_append, List.append_assoc, List.nil_append, readIdentifier, hread]
  simp

theorem delimitedNames_cons_cons (name next : String) (names : List String) :
    delimitedNames (name :: next :: names) =
      delimited name.toList ++ ',' :: ' ' :: delimitedNames (next :: names) := by
  simp [delimitedNames]

/-- The names are read back from the text between the keywords. -/
theorem readNames_delimitedNames {names : List String} (hne : names ≠ []) {fuel : Nat}
    (hfuel : names.length ≤ fuel) :
    readNames fuel (delimitedNames names ++ " CASCADE".toList) = some names := by
  induction names generalizing fuel with
  | nil => exact absurd rfl hne
  | cons name names ih =>
    obtain ⟨fuel, rfl⟩ := Nat.exists_eq_add_one_of_ne_zero (Nat.ne_zero_of_lt hfuel)
    cases names with
    | nil =>
      rw [delimitedNames, List.map_singleton, List.intercalate_singleton, readNames,
        readIdentifier_delimited name _ (by decide)]
      rfl
    | cons next names =>
      have hrest := ih (List.cons_ne_nil _ _) (Nat.le_of_succ_le_succ hfuel)
      rw [delimitedNames_cons_cons, List.append_assoc, readNames,
        readIdentifier_delimited name _ (by simp)]
      change (readNames fuel (delimitedNames (next :: names) ++ " CASCADE".toList)).map _ = _
      rw [hrest]
      rfl

theorem length_le_delimitedNames (names : List String) :
    names.length ≤ (delimitedNames names).length := by
  induction names with
  | nil => exact Nat.zero_le _
  | cons name names ih =>
    cases names with
    | nil => simp [delimitedNames, delimited]
    | cons next names =>
      rw [delimitedNames_cons_cons, List.length_append]
      simp only [List.length_cons] at ih ⊢
      omega

theorem after?_append (keyword : String) (rest : List Char) :
    after? keyword (keyword.toList ++ rest) = some rest := by
  rw [after?, if_pos (List.isPrefixOf_iff_prefix.mpr (List.prefix_append _ _)),
    List.drop_left]

/-- **What is quoted is what is named**, in the text that deletes from a table. -/
theorem parse_delete {sql name : String} (h : Deletes sql name) :
    parse sql = some (.deleteFrom name) := by
  rw [Deletes] at h
  have hpragma : after? "PRAGMA foreign_keys = " sql.toList = none := by
    rw [h]
    rfl
  have hdelete : after? "DELETE FROM " sql.toList = some (delimited name.toList) :=
    h ▸ after?_append _ _
  have hread := readIdentifier_delimited name [] (by decide)
  rw [List.append_nil] at hread
  simp only [parse, hpragma, hdelete, parseDelete, hread]
  rfl

/-- And in the text that truncates a list of tables. -/
theorem parse_truncate {sql : String} {names : List String} (hne : names ≠ [])
    (h : Truncates sql names) : parse sql = some (.truncate names) := by
  rw [Truncates] at h
  have hpragma : after? "PRAGMA foreign_keys = " sql.toList = none := by
    rw [h]
    rfl
  have hdelete : after? "DELETE FROM " sql.toList = none := by
    rw [h]
    rfl
  have htruncate : after? "TRUNCATE TABLE " sql.toList =
      some (delimitedNames names ++ " CASCADE".toList) := h ▸ after?_append _ _
  have hfuel : names.length ≤ (delimitedNames names ++ " CASCADE".toList).length := by
    rw [List.length_append]
    exact Nat.le_add_right_of_le (length_le_delimitedNames names)
  simp only [parse, hpragma, hdelete, htruncate, parseTruncate, readNames_delimitedNames hne hfuel]
  rfl

/-- An empty list of tables is an error of syntax. -/
theorem parse_truncate_nil {sql : String} (h : Truncates sql []) : parse sql = none := by
  obtain rfl : sql = "TRUNCATE TABLE  CASCADE" := String.toList_inj.mp h
  decide

theorem parse_foreignKeys (on : Bool) :
    parse (foreignKeysPragma on) = some (.foreignKeys on) := by
  cases on <;> decide

/-! ## Answers -/

/-- The foreign keys: whether other rows refer to rows of a table, and the tables
    that its truncation reaches. -/
structure ForeignKeys (ρ : Type) where
  referenced : Tables ρ → String → Prop
  cascade : String → List String
  mem_cascade : ∀ name, name ∈ cascade name

/-- What a statement that succeeds does.  Foreign keys cannot be switched inside of
    a transaction: the statement that does so is ignored there. -/
inductive Executes {ρ : Type} (keys : ForeignKeys ρ) :
    Statement → Connection ρ → Tables ρ → Connection ρ → Tables ρ → Prop where
  | foreignKeys {on : Bool} {connection : Connection ρ} {tables : Tables ρ}
      (hidle : connection.transaction = none) :
      Executes keys (.foreignKeys on) connection tables { connection with foreignKeys := on } tables
  | ignored {on : Bool} {connection : Connection ρ} {tables working : Tables ρ}
      (hopen : connection.transaction = some working) :
      Executes keys (.foreignKeys on) connection tables connection tables
  | deleteFrom {name : String} {connection : Connection ρ} {tables working : Tables ρ}
      (hopen : connection.transaction = some working)
      (hfree : connection.foreignKeys = true → ¬ keys.referenced working name) :
      Executes keys (.deleteFrom name) connection tables
        { connection with transaction := some (clear [name] working) } tables
  | truncate {names : List String} {connection : Connection ρ} {tables : Tables ρ}
      (hidle : connection.transaction = none) :
      Executes keys (.truncate names) connection tables connection
        (clear (names.flatMap keys.cascade) tables)

/-- A commit of the open transaction. -/
def Commits {ρ : Type} (s s' : Server ρ) : Prop :=
  ∃ connection working, s.held = some connection ∧ connection.transaction = some working ∧
    s' = { s with tables := working, held := some { connection with transaction := none } }

/-- A statement on a connection of the pool. -/
def ExecutesOnPool {ρ : Type} (keys : ForeignKeys ρ) (sql : String) (s s' : Server ρ) : Prop :=
  ∃ statement connection tables, parse sql = some statement ∧
    Executes keys statement (.fresh ρ) s.tables connection tables ∧ s' = { s with tables }

/-- A call that fails has no effect; only of a commit, and of a statement that the
    pool executes, the effect may be there nevertheless. -/
def Answers {ρ : Type} (keys : ForeignKeys ρ) :
    (c : Call) → Server ρ → c.Response → Server ρ → Prop
  | .acquire, s, .ok (), s' => s.held = none ∧ ∃ connection rest,
      (s.pooled = connection :: rest ∨ connection = .fresh ρ ∧ s.pooled = rest) ∧
      s' = { s with pooled := rest, held := some connection }
  | .execute sql, s, .ok (), s' => ∃ statement connection connection' tables,
      parse sql = some statement ∧ s.held = some connection ∧
      Executes keys statement connection s.tables connection' tables ∧
      s' = { s with tables, held := some connection' }
  | .begin, s, .ok (), s' => ∃ connection, s.held = some connection ∧
      connection.transaction = none ∧
      s' = { s with held := some { connection with transaction := some s.tables } }
  | .commit, s, .ok (), s' => Commits s s'
  | .commit, s, .error _, s' => s' = s ∨ Commits s s'
  | .rollback, s, r, s' => r = .ok () ∧ ∃ connection, s.held = some connection ∧
      s' = { s with held := some { connection with transaction := none } }
  | .release, s, r, s' => r = .ok () ∧ ∃ connection, s.held = some connection ∧
      s' = { s with pooled := connection :: s.pooled, held := none }
  | .close, s, _, s' => s' = { s with held := none }
  | .executeOnPool sql, s, .ok (), s' => ExecutesOnPool keys sql s s'
  | .executeOnPool sql, s, .error _, s' => s' = s ∨ ExecutesOnPool keys sql s s'
  | _, s, .error _, s' => s' = s

/-- The reference database; all of it is seen. -/
def engine {ρ : Type} (keys : ForeignKeys ρ) : Engine ρ := ⟨Server ρ, id, Answers keys⟩

/-! ## It does what is documented -/

section Documented

variable {ρ : Type} (keys : ForeignKeys ρ)

theorem draws_refl (pooled : List (Connection ρ)) : Draws pooled pooled := fun _ hmem => Or.inr hmem

theorem sqlite_engine : Sqlite (engine keys) where
  failed c s e s' hc hans := by
    rcases hc with rfl | rfl | ⟨sql, rfl⟩
    · exact hans
    · exact hans
    · exact hans
  acquire s s' hheld hans := by
    obtain ⟨-, connection, rest, hconnection, rfl⟩ := hans
    refine ⟨connection, rest, fun other hmem => ?_, rfl⟩
    rcases hconnection with hpooled | ⟨rfl, rfl⟩
    · exact Or.inr (hpooled ▸ hmem)
    · exact List.mem_cons.mp hmem
  release s r s' tables pooled connection hs hans := by
    subst hs
    obtain ⟨-, connection', hheld, rfl⟩ := hans
    obtain rfl := Option.some.inj hheld
    exact ⟨_, draws_refl _, rfl⟩
  close s r s' tables pooled connection hs hans := by
    subst hs
    exact hans
  foreignKeys on s s' tables pooled before hs hans := by
    subst hs
    obtain ⟨statement, connection, connection', tables', hparse, hheld, hexecutes, rfl⟩ := hans
    obtain rfl := Option.some.inj ((parse_foreignKeys on).symm.trans hparse)
    obtain rfl := Option.some.inj hheld
    cases hexecutes with
    | foreignKeys _ => rfl
    | ignored hopen => cases hopen
  begin s s' tables pooled on hs hans := by
    subst hs
    obtain ⟨connection, hheld, -, rfl⟩ := hans
    obtain rfl := Option.some.inj hheld
    rfl
  deleteFrom sql name s s' tables pooled working hsql hs hans := by
    subst hs
    obtain ⟨statement, connection, connection', tables', hparse, hheld, hexecutes, rfl⟩ := hans
    obtain rfl := Option.some.inj ((parse_delete hsql).symm.trans hparse)
    obtain rfl := Option.some.inj hheld
    cases hexecutes with
    | deleteFrom hopen _ =>
      obtain rfl := Option.some.inj hopen
      rfl
  commit s r s' tables pooled on working hs hans := by
    subst hs
    have hcommits : ∀ s', Commits ⟨tables, pooled, some ⟨on, some working⟩⟩ s' →
        s' = ⟨working, pooled, some ⟨on, none⟩⟩ := by
      rintro s' ⟨connection, working', hheld, hopen, rfl⟩
      obtain rfl := Option.some.inj hheld
      obtain rfl := Option.some.inj hopen
      rfl
    cases r with
    | ok a => exact Or.inl (hcommits s' hans)
    | error e => exact hans.symm.imp (hcommits s') fun h => ⟨⟨e, rfl⟩, h⟩
  rollback s r s' tables pooled on transaction hs hans := by
    subst hs
    obtain ⟨-, connection, hheld, rfl⟩ := hans
    obtain rfl := Option.some.inj hheld
    rfl

theorem serves_engine : Sqlite.Serves (engine keys) where
  acquire s hheld := ⟨_, hheld, .fresh ρ, s.pooled, Or.inr ⟨rfl, rfl⟩, rfl⟩
  release _ _ _ connection hs := ⟨_, rfl, connection, congrArg Server.held hs, rfl⟩
  foreignKeys on _ _ _ _ hs :=
    ⟨_, _, _, _, _, parse_foreignKeys on, congrArg Server.held hs, .foreignKeys rfl, rfl⟩
  begin _ _ _ _ hs := ⟨_, _, congrArg Server.held hs, rfl, rfl⟩
  deleteFrom _ _ _ _ _ _ hsql hs :=
    ⟨_, _, _, _, _, parse_delete hsql, congrArg Server.held hs, .deleteFrom rfl nofun, rfl⟩
  commit _ _ _ _ hs := ⟨_, _, _, congrArg Server.held hs, rfl, rfl⟩

theorem postgres_engine : Postgres keys.cascade (engine keys) where
  mem_cascade := keys.mem_cascade
  truncate sql names s r s' hne hsql hans := by
    have hexecutes : ∀ s', ExecutesOnPool keys sql s s' →
        s' = ⟨clear (names.flatMap keys.cascade) s.tables, s.pooled, s.held⟩ := by
      rintro s' ⟨statement, connection, tables, hparse, hexecutes, rfl⟩
      obtain rfl := Option.some.inj ((parse_truncate hne hsql).symm.trans hparse)
      cases hexecutes with
      | truncate _ => rfl
    refine ⟨s.pooled, draws_refl _, ?_⟩
    cases r with
    | ok a => exact Or.inl (hexecutes s' hans)
    | error e => exact hans.symm.imp (hexecutes s') fun h => ⟨⟨e, rfl⟩, h⟩
  syntaxError sql s r s' hsql hans := by
    have hexecutes : ∀ s', ¬ ExecutesOnPool keys sql s s' := by
      rintro s' ⟨statement, connection, tables, hparse, -⟩
      rw [parse_truncate_nil hsql] at hparse
      cases hparse
    cases r with
    | ok a => exact absurd hans (hexecutes s')
    | error e =>
      refine ⟨⟨e, rfl⟩, s.pooled, draws_refl _, ?_⟩
      exact hans.resolve_right (hexecutes s')

theorem postgres_serves_engine : Postgres.Serves (engine keys) := fun _ _ _ hne hsql =>
  ⟨_, _, _, _, parse_truncate hne hsql, .truncate rfl, rfl⟩

end Documented

end Sql.Reference
