import GraphqlOrmBackup.Json.RoundTrip

/-!
# One document, one value

A value without floats is written like no other value, whatever its integers
and however deeply it is nested.  A text that is followed by something that does
not continue it determines what it is the text of.
-/

namespace Json

/-! ## Numbers -/

/-- The text of `a` is the text of nothing else, also when something follows it
    that does not continue it. -/
def Determines {α : Type} (write : α → List Char) (a : α) : Prop :=
  ∀ a' rest rest', Ends rest → Ends rest' → write a ++ rest = write a' ++ rest' →
    a = a' ∧ rest = rest'

/-- The text of a number determines its parts. -/
theorem lexeme_append_inj {n n' : Number} {rest rest' : List Char} (hrest : Ends rest)
    (hrest' : Ends rest') (h : n.write ++ rest = n'.write ++ rest') :
    n.lexeme = n'.lexeme ∧ rest = rest' := by
  have hparse := parseLexeme_write (isDigit_fraction_lexeme n) hrest
  have hparse' := parseLexeme_write (isDigit_fraction_lexeme n') hrest'
  rw [Number.write, Number.write] at h
  rw [h, hparse'] at hparse
  obtain ⟨hlexeme, hrests⟩ := Prod.mk.inj (Option.some.inj hparse)
  exact ⟨hlexeme.symm, hrests.symm⟩

/-- A float is written with a point or with an exponent. -/
theorem lexeme_float (x : Binary64) :
    (Number.float x).lexeme.fraction ≠ [] ∨ (Number.float x).lexeme.exponent ≠ none := by
  simp only [Number.lexeme, Lexeme.ofDecimal]
  split_ifs with hlarge hpoint hsmall
  · exact Or.inl (List.cons_ne_nil _ _)
  · refine Or.inl fun hdrop => ?_
    have hle := List.drop_eq_nil_iff.mp hdrop
    omega
  · refine Or.inl fun happend => ?_
    exact absurd (List.append_eq_nil_iff.mp happend).2 Nat.toDigits_ne_nil
  · exact Or.inr (Option.some_ne_none _)

/-- The text of an integer is the text of no other number. -/
theorem determines_int (n : Int) : Determines Number.write (.int n) := by
  intro n' rest rest' hrest hrest' h
  obtain ⟨hlexeme, hrests⟩ := lexeme_append_inj hrest hrest' h
  refine ⟨?_, hrests⟩
  cases n' with
  | int m =>
    have hsign : n < 0 ↔ m < 0 := decide_eq_decide.mp (congrArg Lexeme.negative hlexeme)
    have habs : n.natAbs = m.natAbs := congrArg Lexeme.whole hlexeme
    rw [show n = m by omega]
  | float x =>
    rcases lexeme_float x with hfraction | hexponent
    · exact absurd (congrArg Lexeme.fraction hlexeme).symm hfraction
    · exact absurd (congrArg Lexeme.exponent hlexeme).symm hexponent

/-! ## Strings -/

theorem writeString_append_inj {s s' : String} {rest rest' : List Char}
    (h : writeString s ++ rest = writeString s' ++ rest') : s = s' ∧ rest = rest' := by
  obtain ⟨text, htext, hchars⟩ := parseString_writeString s rest
  obtain ⟨text', htext', hchars'⟩ := parseString_writeString s' rest'
  obtain rfl := (List.cons.inj (htext.symm.trans (h.trans htext'))).2
  obtain ⟨hlist, hrests⟩ := Prod.mk.inj (Option.some.inj (hchars.symm.trans hchars'))
  exact ⟨String.toList_inj.mp hlist, hrests⟩

/-! ## Containers -/

section

variable {α : Type} {write : α → List Char} {last : Char} {newLine close rest rest' : List Char}

theorem IsLast.ne_comma_cons (h : IsLast last) (hclose : AllSpace close) {tail : List Char} :
    close ++ last :: rest ≠ ',' :: tail := by
  cases close with
  | nil =>
    intro heq
    exact h.ne_comma (List.cons.inj heq).1.symm
  | cons c close =>
    intro heq
    obtain rfl := (List.cons.inj heq).1
    exact absurd (hclose ',' List.mem_cons_self) (by decide)

/-- The lines of a container, up to its end. -/
theorem joinLines_append_inj (hlast : IsLast last) (hclose : AllSpace close) {a a' : α}
    {items items' : List α} (h : ∀ b ∈ a :: items, Determines write b)
    (heq : joinLines newLine ((a :: items).map write) ++ (close ++ last :: rest) =
      joinLines newLine ((a' :: items').map write) ++ (close ++ last :: rest')) :
    a :: items = a' :: items' ∧ rest = rest' := by
  have hends : ∀ rest, Ends (close ++ last :: rest) := hlast.ends hclose
  have hcomma : ∀ rest, Ends (',' :: rest) := fun rest => ends_cons (by decide)
  induction items generalizing a a' items' with
  | nil =>
    rw [List.forall_mem_singleton] at h
    cases items' with
    | nil =>
      simp only [List.map_cons, List.map_nil, joinLines, List.append_assoc,
        List.append_cancel_left_eq] at heq
      obtain ⟨rfl, htail⟩ := h a' _ _ (hends rest) (hends rest') heq
      exact ⟨rfl, (List.cons.inj (List.append_cancel_left htail)).2⟩
    | cons b' items' =>
      simp only [List.map_cons, List.map_nil, joinLines, List.append_assoc, List.cons_append,
        List.append_cancel_left_eq] at heq
      exact absurd (h a' _ _ (hends rest) (hcomma _) heq).2 (hlast.ne_comma_cons hclose)
  | cons b items ih =>
    rw [List.forall_mem_cons] at h
    cases items' with
    | nil =>
      simp only [List.map_cons, List.map_nil, joinLines, List.append_assoc, List.cons_append,
        List.append_cancel_left_eq] at heq
      exact absurd (h.1 a' _ _ (hcomma _) (hends rest') heq).2.symm (hlast.ne_comma_cons hclose)
    | cons b' items' =>
      simp only [List.map_cons, joinLines, List.append_assoc, List.cons_append,
        List.append_cancel_left_eq] at heq
      obtain ⟨rfl, htail⟩ := h.1 a' _ _ (hcomma _) (hcomma _) heq
      obtain ⟨hitems, hrests⟩ := ih h.2 (List.cons.inj htail).2
      exact ⟨congrArg (a :: ·) hitems, hrests⟩

/-- An empty container is not written as one with items. -/
theorem last_cons_ne_joinLines (hlast : IsLast last) (hnew : AllSpace newLine) {text : List Char}
    (hstarts : Starts text) (texts : List (List Char)) (tail : List Char) :
    last :: rest ≠ joinLines newLine (text :: texts) ++ tail := by
  rcases hstarts with ⟨c, text, rfl, hspace, hbracket, hbrace⟩
  obtain ⟨tail', hjoin⟩ := exists_joinLines newLine (c :: text) texts
  intro heq
  have hskip := congrArg skipSpace heq
  rw [hjoin, List.append_assoc, List.cons_append, List.cons_append, skipSpace_append hnew hspace,
    skipSpace_cons hlast.notMem_spaces] at hskip
  obtain rfl := (List.cons.inj hskip).1
  rcases hlast with rfl | rfl
  · exact hbracket rfl
  · exact hbrace rfl

/-- A container determines its items if they do. -/
theorem container_append_inj (hlast : IsLast last) (style : Style) (level : Nat) (first : Char)
    (hstarts : ∀ a, Starts (write a)) {items items' : List α}
    (h : ∀ a ∈ items, Determines write a)
    (heq : style.container level first last (items.map write) ++ rest =
      style.container level first last (items'.map write) ++ rest') :
    items = items' ∧ rest = rest' := by
  have hnew := allSpace_newLine style (level + 1)
  have hclose := allSpace_newLine style level
  cases items with
  | nil =>
    cases items' with
    | nil => exact ⟨rfl, (List.cons.inj (List.cons.inj heq).2).2⟩
    | cons a' items' =>
      simp only [Style.container, List.map_cons, List.map_nil, List.cons_append, List.append_assoc,
        List.cons.injEq, true_and] at heq
      exact absurd heq (last_cons_ne_joinLines hlast hnew (hstarts a') _ _)
  | cons a items =>
    cases items' with
    | nil =>
      simp only [Style.container, List.map_cons, List.map_nil, List.cons_append, List.append_assoc,
        List.cons.injEq, true_and] at heq
      exact absurd heq.symm (last_cons_ne_joinLines hlast hnew (hstarts a) _ _)
    | cons a' items' =>
      apply joinLines_append_inj hlast hclose h
      simpa [Style.container] using heq

end

/-! ## Values -/

/-- The kind of a value, which the first character of its document shows. -/
inductive Kind where
  | null
  | bool (value : Bool)
  | number
  | string
  | array
  | object
deriving DecidableEq

def Value.kind : Value → Kind
  | .null => .null
  | .bool b => .bool b
  | .number _ => .number
  | .string _ => .string
  | .array _ => .array
  | .object _ => .object

def kindOf (c : Char) : Option Kind :=
  if c = '-' ∨ c.isDigit = true then some .number
  else match c with
    | 'n' => some .null
    | 't' => some (.bool true)
    | 'f' => some (.bool false)
    | '"' => some .string
    | '[' => some .array
    | '{' => some .object
    | _ => none

theorem exists_head_container (style : Style) (level : Nat) (first last : Char)
    (texts : List (List Char)) : ∃ tail, style.container level first last texts = first :: tail := by
  cases texts with
  | nil => exact ⟨_, rfl⟩
  | cons text texts => exact ⟨_, rfl⟩

theorem exists_kindOf_write (style : Style) (level : Nat) (value : Value) :
    ∃ c tail, value.write style level = c :: tail ∧ kindOf c = some value.kind := by
  cases value with
  | null => exact ⟨'n', _, rfl, rfl⟩
  | bool b =>
    cases b with
    | true => exact ⟨'t', _, rfl, rfl⟩
    | false => exact ⟨'f', _, rfl, rfl⟩
  | number n =>
    obtain ⟨c, tail, htext, hc⟩ := exists_head_write n
    exact ⟨c, tail, htext, if_pos hc⟩
  | string s => exact ⟨'"', _, rfl, rfl⟩
  | array items =>
    obtain ⟨tail, htail⟩ :=
      exists_head_container style level '[' ']' (writeItems style (level + 1) items)
    exact ⟨'[', tail, htail, rfl⟩
  | object fields =>
    obtain ⟨tail, htail⟩ :=
      exists_head_container style level '{' '}' (writeFields style (level + 1) fields)
    exact ⟨'{', tail, htail, rfl⟩

theorem starts_write (style : Style) (level : Nat) (value : Value) :
    Starts (value.write style level) := by
  obtain ⟨c, tail, htext, hkind⟩ := exists_kindOf_write style level value
  have hnone : ∀ d ∈ ']' :: '}' :: spaces, kindOf d = none := by simp [spaces, kindOf]
  have hc : c ∉ ']' :: '}' :: spaces := by
    intro hmem
    rw [hnone c hmem] at hkind
    cases hkind
  simp only [List.mem_cons, not_or] at hc
  exact ⟨c, tail, htext, hc.2.2, hc.1, hc.2.1⟩

theorem kind_eq_of_write {style : Style} {level : Nat} {value value' : Value}
    {rest rest' : List Char}
    (h : value.write style level ++ rest = value'.write style level ++ rest') :
    value.kind = value'.kind := by
  obtain ⟨c, tail, htext, hkind⟩ := exists_kindOf_write style level value
  obtain ⟨c', tail', htext', hkind'⟩ := exists_kindOf_write style level value'
  rw [htext, htext'] at h
  obtain rfl := (List.cons.inj h).1
  exact Option.some.inj (hkind.symm.trans hkind')

theorem writeItems_eq_map (style : Style) (level : Nat) (items : List Value) :
    writeItems style level items = items.map (Value.write style level) := by
  induction items with
  | nil => rfl
  | cons item items ih => rw [writeItems, ih, List.map_cons]

def writeField (style : Style) (level : Nat) (field : String × Value) : List Char :=
  writeString field.1 ++ (style.colon ++ field.2.write style level)

theorem writeFields_eq_map (style : Style) (level : Nat) (fields : List (String × Value)) :
    writeFields style level fields = fields.map (writeField style level) := by
  induction fields with
  | nil => rfl
  | cons field fields ih => rw [writeFields, ih, List.map_cons, writeField, List.append_assoc]

theorem determines_field {style : Style} {level : Nat} {field : String × Value}
    (h : Determines (Value.write style level) field.2) :
    Determines (writeField style level) field := by
  intro field' rest rest' hrest hrest' heq
  simp only [writeField, List.append_assoc] at heq
  obtain ⟨hname, htail⟩ := writeString_append_inj heq
  obtain ⟨hvalue, hrests⟩ := h field'.2 rest rest' hrest hrest' (List.append_cancel_left htail)
  exact ⟨Prod.ext hname hvalue, hrests⟩

theorem starts_writeField (style : Style) (level : Nat) (field : String × Value) :
    Starts (writeField style level field) :=
  ⟨'"', _, rfl, by decide, by decide, by decide⟩

mutual

theorem determines_write (style : Style) (level : Nat) : ∀ value : Value, value.floats = [] →
    Determines (Value.write style level) value
  | .null => by
      intro _ value' rest rest' _ _ heq
      have hkind := kind_eq_of_write heq
      cases value' with
      | null => exact ⟨rfl, List.append_cancel_left heq⟩
      | _ => cases hkind
  | .bool b => by
      intro _ value' rest rest' _ _ heq
      have hkind := kind_eq_of_write heq
      cases value' with
      | bool b' =>
        cases hkind
        exact ⟨rfl, List.append_cancel_left heq⟩
      | _ => cases hkind
  | .number (.int n) => by
      intro _ value' rest rest' hrest hrest' heq
      have hkind := kind_eq_of_write heq
      cases value' with
      | number n' =>
        obtain ⟨rfl, hrests⟩ := determines_int n n' rest rest' hrest hrest' heq
        exact ⟨rfl, hrests⟩
      | _ => cases hkind
  | .number (.float x) => fun hfloats => absurd hfloats (List.cons_ne_nil x [])
  | .string s => by
      intro _ value' rest rest' _ _ heq
      have hkind := kind_eq_of_write heq
      cases value' with
      | string s' =>
        obtain ⟨rfl, hrests⟩ := writeString_append_inj heq
        exact ⟨rfl, hrests⟩
      | _ => cases hkind
  | .array items => by
      intro hfloats value' rest rest' _ _ heq
      have hkind := kind_eq_of_write heq
      cases value' with
      | array items' =>
        simp only [Value.write, writeItems_eq_map] at heq
        obtain ⟨rfl, hrests⟩ := container_append_inj (Or.inl rfl) style level '['
          (starts_write style (level + 1)) (determines_items style (level + 1) items hfloats) heq
        exact ⟨rfl, hrests⟩
      | _ => cases hkind
  | .object fields => by
      intro hfloats value' rest rest' _ _ heq
      have hkind := kind_eq_of_write heq
      cases value' with
      | object fields' =>
        simp only [Value.write, writeFields_eq_map] at heq
        obtain ⟨rfl, hrests⟩ := container_append_inj (Or.inr rfl) style level '{'
          (starts_writeField style (level + 1))
          (determines_fields style (level + 1) fields hfloats) heq
        exact ⟨rfl, hrests⟩
      | _ => cases hkind

theorem determines_items (style : Style) (level : Nat) : ∀ items : List Value,
    floatsItems items = [] → ∀ value ∈ items, Determines (Value.write style level) value
  | [] => by simp
  | item :: items => fun hfloats => List.forall_mem_cons.mpr
      ⟨determines_write style level item (List.append_eq_nil_iff.mp hfloats).1,
        determines_items style level items (List.append_eq_nil_iff.mp hfloats).2⟩

theorem determines_fields (style : Style) (level : Nat) : ∀ fields : List (String × Value),
    floatsFields fields = [] → ∀ field ∈ fields, Determines (writeField style level) field
  | [] => by simp
  | (name, value) :: fields => fun hfloats => List.forall_mem_cons.mpr
      ⟨determines_field (determines_write style level value (List.append_eq_nil_iff.mp hfloats).1),
        determines_fields style level fields (List.append_eq_nil_iff.mp hfloats).2⟩

end

/-- **A value without floats has a document of its own.** -/
theorem eq_of_write_eq {style : Style} {level : Nat} {value value' : Value}
    (hfloats : value.floats = []) (h : value.write style level = value'.write style level) :
    value = value' := by
  have hends : Ends [] := by
    intro c hc
    cases hc
  exact (determines_write style level value hfloats value' [] [] hends hends (by rw [h])).1

end Json
