import GraphqlOrmBackup.Json.Parse
import Mathlib.Data.List.Forall2

/-!
# JSON round trip

The parser reads back every document the writer writes, in either style, up to
the depth it is given, provided its integers are of 64 bits and its floats are
read back.
-/

namespace Json

/-! ## Strings -/

theorem find?_shortEscapes {c : Char} {short : Char × Char}
    (h : shortEscapes.find? (fun short => short.2 = c) = some short) :
    short.2 = c ∧ unescape short.1 = some c ∧ short.1 ≠ 'u' := by
  have hmem := List.mem_of_find?_eq_some h
  have hall : ∀ short ∈ shortEscapes, unescape short.1 = some short.2 ∧ short.1 ≠ 'u' := by decide
  have hc : short.2 = c := by simpa using List.find?_some h
  exact ⟨hc, hc ▸ hall short hmem⟩

theorem hex4_byte {n : Nat} (h : n < 256) :
    hex4 '0' '0' (Hex.digit (n / 16)) (Hex.digit (n % 16)) = some n := by
  have hzero : Hex.value? '0' = some 0 := by decide
  simp only [hex4, hzero, Hex.value?_digit (show n / 16 < 16 by omega),
    Hex.value?_digit (show n % 16 < 16 by omega), Option.bind_eq_bind, Option.bind_some]
  congr 1
  omega

theorem parseChars_short {short c : Char} (hunescape : unescape short = some c)
    (hu : short ≠ 'u') (rest : List Char) :
    parseChars ('\\' :: short :: rest) = prepend c (parseChars rest) := by
  rw [parseChars, hunescape]
  exact fun a b c d rest' heq => absurd heq hu

theorem parseChars_unicode {c : Char} (h : c.toNat < 32) (rest : List Char) :
    parseChars ('\\' :: 'u' :: '0' :: '0' :: (Hex.byte (UInt8.ofNat c.toNat) ++ rest)) =
      prepend c (parseChars rest) := by
  have hbyte : (UInt8.ofNat c.toNat).toNat = c.toNat := by
    simp
    omega
  rw [Hex.byte, hbyte]
  change parseChars ('\\' :: 'u' :: '0' :: '0' :: Hex.digit (c.toNat / 16) ::
    Hex.digit (c.toNat % 16) :: rest) = _
  rw [parseChars, hex4_byte (by omega)]
  simp only [Char.ofNat_toNat]
  rw [if_pos (Or.inl (by omega))]

theorem parseChars_plain {c : Char} (hquote : c ≠ '"') (hbackslash : c ≠ '\\')
    (h : ¬ c.toNat < 32) (rest : List Char) :
    parseChars (c :: rest) = prepend c (parseChars rest) := by
  rw [parseChars, if_neg h]
  · exact fun heq => absurd heq hquote
  · intro a b c d rest' heq
    exact absurd heq hbackslash
  · intro c' rest' heq
    exact absurd heq hbackslash

theorem parseChars_escape (c : Char) (rest : List Char) :
    parseChars (escape c ++ rest) = prepend c (parseChars rest) := by
  rw [escape]
  cases hfind : shortEscapes.find? (fun short => short.2 = c) with
  | some short =>
    obtain ⟨-, hunescape, hu⟩ := find?_shortEscapes hfind
    exact parseChars_short hunescape hu rest
  | none =>
    have hnot : ∀ short ∈ shortEscapes, short.2 ≠ c := by
      simpa using List.find?_eq_none.mp hfind
    by_cases h : c.toNat < 32
    · rw [if_pos h]
      exact parseChars_unicode h rest
    · rw [if_neg h]
      refine parseChars_plain (fun heq => ?_) (fun heq => ?_) h rest
      · exact hnot ('"', '"') (by decide) heq.symm
      · exact hnot ('\\', '\\') (by decide) heq.symm

theorem parseChars_flatMap_escape (cs rest : List Char) :
    parseChars (cs.flatMap escape ++ '"' :: rest) = some (cs, rest) := by
  induction cs with
  | nil => rw [List.flatMap_nil, List.nil_append, parseChars]
  | cons c cs ih =>
    rw [List.flatMap_cons, List.append_assoc, parseChars_escape, ih]
    rfl

theorem parseString_writeString (s : String) (rest : List Char) :
    ∃ text, writeString s ++ rest = '"' :: text ∧ parseChars text = some (s.toList, rest) := by
  refine ⟨s.toList.flatMap escape ++ '"' :: rest, ?_, parseChars_flatMap_escape _ _⟩
  simp [writeString]

/-! ## Numbers -/

/-- What follows a number does not continue it. -/
def Ends (rest : List Char) : Prop := ∀ c ∈ rest.head?, ¬ c.isDigit ∧ c ∉ ['.', 'e', 'E']

/-- What follows digits does not continue them. -/
def NoDigit (rest : List Char) : Prop := ∀ c ∈ rest.head?, ¬ c.isDigit

theorem Ends.noDigit {rest : List Char} (h : Ends rest) : NoDigit rest := fun c hc => (h c hc).1

theorem takeWhile_digits {digits rest : List Char} (hdigits : ∀ c ∈ digits, c.isDigit = true)
    (hrest : NoDigit rest) : (digits ++ rest).takeWhile Char.isDigit = digits ∧
      (digits ++ rest).dropWhile Char.isDigit = rest := by
  induction digits with
  | nil =>
    cases rest with
    | nil => exact ⟨rfl, rfl⟩
    | cons c rest =>
      have hc := hrest c rfl
      exact ⟨List.takeWhile_cons_of_neg hc, List.dropWhile_cons_of_neg hc⟩
  | cons c digits ih =>
    rw [List.forall_mem_cons] at hdigits
    obtain ⟨htake, hdrop⟩ := ih hdigits.2
    exact ⟨(List.takeWhile_cons_of_pos hdigits.1).trans (congrArg (c :: ·) htake),
      (List.dropWhile_cons_of_pos hdigits.1).trans hdrop⟩

/-- Only zero starts with the digit zero. -/
theorem decimalNat_of_head_zero {n : Nat} (h : (Text.decimalNat n).head? = some '0') :
    Text.decimalNat n = ['0'] := by
  induction n using Nat.strongRecOn with
  | ind n ih =>
    rw [Text.decimalNat] at h ⊢
    by_cases hn : n < 10
    · rw [Nat.toDigits_of_lt_base hn] at h ⊢
      exact congrArg (fun c => [c]) (Option.some.inj h)
    · rw [Nat.toDigits_of_base_le (by decide) (by omega)] at h
      have hhead : (Text.decimalNat (n / 10)).head? = some '0' := by
        rwa [List.head?_append_of_ne_nil _ Nat.toDigits_ne_nil] at h
      have hzero := congrArg Text.natOfDigits? (ih (n / 10) (by omega) hhead)
      rw [Text.natOfDigits?_decimalNat] at hzero
      have : n / 10 = 0 := Option.some.inj (hzero.trans (by decide))
      omega

theorem parseNat_decimalNat (n : Nat) {rest : List Char} (hrest : NoDigit rest) :
    parseNat (Text.decimalNat n ++ rest) = some (n, rest) := by
  obtain ⟨htake, hdrop⟩ := takeWhile_digits
    (fun c hc => Text.isDigit_of_mem_decimalNat (n := n) hc) hrest
  simp only [parseNat, htake, hdrop, Text.natOfDigits?_decimalNat]
  rw [if_neg fun h => h.2 (decimalNat_of_head_zero h.1)]
  rfl

theorem signOf_decimal (n : Int) (rest : List Char) :
    signOf (Text.decimal n ++ rest) = (decide (n < 0), Text.decimalNat n.natAbs ++ rest) := by
  cases n with
  | negSucc n =>
    rw [decide_eq_true (Int.negSucc_lt_zero n)]
    rfl
  | ofNat n =>
    obtain ⟨c, cs, hcs, hc⟩ := Text.exists_head_decimalNat n
    rw [Text.decimal, Int.ofNat_eq_natCast, Int.natAbs_natCast, hcs, List.cons_append, signOf]
    · simp
    · rintro _ heq
      obtain rfl := (List.cons.inj heq).1
      exact absurd hc (by decide)
    · rintro _ heq
      obtain rfl := (List.cons.inj heq).1
      exact absurd hc (by decide)

def writeExponent (exponent : Option Int) : List Char :=
  exponent.elim [] fun n => 'e' :: Text.decimal n

theorem parseExponent_write (exponent : Option Int) {rest : List Char} (hrest : Ends rest) :
    parseExponent (writeExponent exponent ++ rest) = some (exponent, rest) := by
  cases exponent with
  | none =>
    cases rest with
    | nil => rfl
    | cons c rest =>
      have hc := (hrest c rfl).2
      simp only [List.mem_cons, List.not_mem_nil, or_false, not_or] at hc
      exact if_neg (not_or.mpr ⟨hc.2.1, hc.2.2⟩)
  | some n =>
    obtain ⟨htake, hdrop⟩ := takeWhile_digits
      (fun c hc => Text.isDigit_of_mem_decimalNat (n := n.natAbs) hc) hrest.noDigit
    simp only [writeExponent, Option.elim_some, List.cons_append, parseExponent, true_or, if_true,
      signOf_decimal, htake, hdrop, Text.natOfDigits?_decimalNat, Option.map_some,
      decide_eq_true_eq]
    split
    · next hneg => rw [show -(n.natAbs : Int) = n by omega]
    · next hneg => rw [show (n.natAbs : Int) = n by omega]

/-- What follows a number without a point does not continue it with digits. -/
def NoPoint (rest : List Char) : Prop := NoDigit rest ∧ rest.head? ≠ some '.'

theorem noPoint_exponent (exponent : Option Int) {rest : List Char} (hrest : Ends rest) :
    NoPoint (writeExponent exponent ++ rest) := by
  cases exponent with
  | none =>
    refine ⟨hrest.noDigit, fun hhead => ?_⟩
    exact (hrest '.' hhead).2 (by decide)
  | some n =>
    refine ⟨?_, by simp [writeExponent]⟩
    rintro c ⟨⟩
    decide

def writeFraction (fraction : List Char) : List Char :=
  if fraction = [] then [] else '.' :: fraction

theorem parseFraction_write {fraction rest : List Char}
    (hdigits : ∀ c ∈ fraction, c.isDigit = true) (hrest : NoPoint rest) :
    parseFraction (writeFraction fraction ++ rest) = some (fraction, rest) := by
  rw [writeFraction]
  split
  · next hnil =>
    rw [hnil, List.nil_append, parseFraction]
    rintro cs rfl
    exact hrest.2 rfl
  · next hne =>
    obtain ⟨htake, hdrop⟩ := takeWhile_digits hdigits hrest.1
    simp only [List.cons_append, parseFraction, htake, hdrop, if_neg hne]

theorem noDigit_fraction (fraction : List Char) {rest : List Char} (hrest : NoPoint rest) :
    NoDigit (writeFraction fraction ++ rest) := by
  rw [writeFraction]
  split
  · exact hrest.1
  · rintro c ⟨⟩
    decide

theorem Lexeme.write_append (l : Lexeme) (rest : List Char) :
    l.write ++ rest = (if l.negative then ['-'] else []) ++ (Text.decimalNat l.whole ++
      (writeFraction l.fraction ++ (writeExponent l.exponent ++ rest))) := by
  simp only [Lexeme.write, List.append_assoc]
  rfl

theorem head?_decimalNat_ne_minus (n : Nat) (rest : List Char) :
    (Text.decimalNat n ++ rest).head? ≠ some '-' := by
  obtain ⟨c, cs, hcs, hc⟩ := Text.exists_head_decimalNat n
  rw [hcs]
  rintro ⟨⟩
  exact absurd hc (by decide)

/-- The parts of a number are read from its text. -/
theorem parseLexeme_write {l : Lexeme} (hdigits : ∀ c ∈ l.fraction, c.isDigit = true)
    {rest : List Char} (hrest : Ends rest) : parseLexeme (l.write ++ rest) = some (l, rest) := by
  have hpoint := noPoint_exponent l.exponent hrest
  have hwhole := parseNat_decimalNat l.whole (noDigit_fraction l.fraction hpoint)
  have hfraction := parseFraction_write hdigits hpoint
  have hexponent := parseExponent_write l.exponent hrest
  rw [Lexeme.write_append, parseLexeme]
  rcases l with ⟨negative, whole, fraction, exponent⟩
  cases negative with
  | true =>
    simp only [if_true, List.singleton_append, List.head?_cons, List.tail_cons, hwhole,
      Option.bind_eq_bind, Option.bind_some, hfraction, hexponent, decide_true]
  | false =>
    have hhead := head?_decimalNat_ne_minus whole
      (writeFraction fraction ++ (writeExponent exponent ++ rest))
    simp only [Bool.false_eq_true, if_false, List.nil_append, hwhole,
      Option.bind_eq_bind, Option.bind_some, hfraction, hexponent, hhead, decide_false]

theorem isDigit_fraction_ofDecimal (negative : Bool) (digits : Nat) (exponent : Int) :
    ∀ c ∈ (Lexeme.ofDecimal negative digits exponent).fraction, c.isDigit = true := by
  have htext : ∀ n, ∀ c ∈ (Text.decimalNat digits).drop n, c.isDigit = true := fun n c hc =>
    Text.isDigit_of_mem_decimalNat (List.mem_of_mem_drop hc)
  simp only [Lexeme.ofDecimal]
  split_ifs
  · exact List.forall_mem_singleton.mpr (by decide)
  · exact htext _
  · refine List.forall_mem_append.mpr ⟨fun c hc => ?_, htext 0⟩
    rw [List.eq_of_mem_replicate hc]
    decide
  · exact htext 1

theorem isDigit_fraction_lexeme (n : Number) : ∀ c ∈ n.lexeme.fraction, c.isDigit = true := by
  cases n with
  | int n => exact nofun
  | float x => exact isDigit_fraction_ofDecimal _ _ _

/-- **A number that is read back is read from its text**, whatever follows. -/
theorem parseNumber_write {n : Number} (h : n.ReadsBack) {rest : List Char} (hrest : Ends rest) :
    parseNumber (n.write ++ rest) = some (n, rest) := by
  rw [Number.write, parseNumber, parseLexeme_write (isDigit_fraction_lexeme n) hrest,
    Option.bind_eq_bind, Option.bind_some]
  exact Option.map_eq_some_iff.mpr ⟨n, h, rfl⟩

/-- An integer of 64 bits, signed or unsigned, or a float. -/
def Number.is64 : Number → Bool
  | .int n => -2 ^ 63 ≤ n ∧ n < 2 ^ 64
  | .float _ => true

theorem readsBack_int {n : Int} (h : (Number.int n).is64 = true) : (Number.int n).ReadsBack := by
  obtain ⟨hlow, hhigh⟩ := of_decide_eq_true h
  have hrange : n.natAbs < 2 ^ 64 ∧
      (decide (n < 0) = true → 0 < n.natAbs ∧ n.natAbs ≤ 2 ^ 63) := by
    rw [decide_eq_true_eq]
    omega
  refine (if_pos ⟨rfl, rfl, hrange⟩).trans ?_
  by_cases hneg : n < 0
  · simp only [Number.lexeme, hneg, decide_true, if_true]
    congr 2
    omega
  · simp only [Number.lexeme, hneg, decide_false, Bool.false_eq_true, if_false]
    congr 2
    omega

/-! ## Containers -/

def AllSpace (space : List Char) : Prop := ∀ c ∈ space, c ∈ spaces

theorem skipSpace_cons {rest : List Char} {c : Char} (hc : c ∉ spaces) :
    skipSpace (c :: rest) = c :: rest :=
  List.dropWhile_cons_of_neg (by simpa using hc)

theorem skipSpace_append {space rest : List Char} {c : Char} (hspace : AllSpace space)
    (hc : c ∉ spaces) : skipSpace (space ++ c :: rest) = c :: rest := by
  induction space with
  | nil => exact skipSpace_cons hc
  | cons d space ih =>
    rw [AllSpace, List.forall_mem_cons] at hspace
    exact (List.dropWhile_cons_of_pos (by simpa using hspace.1)).trans (ih hspace.2)

theorem ends_cons {rest : List Char} {c : Char} (hc : ¬ c.isDigit ∧ c ∉ ['.', 'e', 'E']) :
    Ends (c :: rest) := by
  rintro d ⟨⟩
  exact hc

theorem ends_append {space rest : List Char} {c : Char} (hspace : AllSpace space)
    (hc : ¬ c.isDigit ∧ c ∉ ['.', 'e', 'E']) : Ends (space ++ c :: rest) := by
  have hspaces : (spaces.all fun d => ¬ d.isDigit ∧ d ∉ ['.', 'e', 'E']) = true := by decide
  cases space with
  | nil => exact ends_cons hc
  | cons d space =>
    rintro e ⟨⟩
    exact of_decide_eq_true (List.all_eq_true.mp hspaces d (hspace d List.mem_cons_self))

/-- The text starts an item, and not the end of a container. -/
def Starts (text : List Char) : Prop :=
  ∃ c rest, text = c :: rest ∧ c ∉ spaces ∧ c ≠ ']' ∧ c ≠ '}'

/-- The parser reads the text of `x`, whatever follows it. -/
structure Reads {α : Type} (p : Parser α) (text : List Char) (x : α) : Prop where
  starts : Starts text
  parse : ∀ space rest, AllSpace space → Ends rest → p (space ++ (text ++ rest)) = some (x, rest)

/-- The last characters of containers. -/
def IsLast (last : Char) : Prop := last = ']' ∨ last = '}'

section

variable {α : Type} {last : Char} {item : Parser α} {newLine close : List Char}

theorem IsLast.notMem_spaces (h : IsLast last) : last ∉ spaces := by
  rcases h with rfl | rfl <;> decide

theorem IsLast.ends (h : IsLast last) (hclose : AllSpace close) (rest : List Char) :
    Ends (close ++ last :: rest) :=
  ends_append hclose (by rcases h with rfl | rfl <;> decide)

theorem IsLast.ne_comma (h : IsLast last) : ',' ≠ last := by
  rcases h with rfl | rfl <;> decide

theorem parseItems_joinLines (hlast : IsLast last) (hnew : AllSpace newLine)
    (hclose : AllSpace close) {text : List Char} {texts : List (List Char)} {x : α} {xs : List α}
    (h : List.Forall₂ (Reads item) (text :: texts) (x :: xs)) {n : Nat} (hn : texts.length < n)
    (rest : List Char) :
    parseItems last item n (joinLines newLine (text :: texts) ++ (close ++ last :: rest)) =
      some (x :: xs, rest) := by
  induction texts generalizing text x xs n with
  | nil =>
    rcases List.forall₂_cons.mp h with ⟨hread, hnil⟩
    cases hnil
    obtain ⟨m, rfl⟩ := Nat.exists_eq_succ_of_ne_zero (Nat.ne_zero_of_lt hn)
    have hitem := hread.parse newLine (close ++ last :: rest) hnew (hlast.ends hclose rest)
    rw [joinLines, List.append_assoc, parseItems, hitem]
    simp only [Option.bind_eq_bind, Option.bind_some, skipSpace_append hclose hlast.notMem_spaces,
      if_pos]
  | cons text' texts ih =>
    rcases List.forall₂_cons.mp h with ⟨hread, hrest⟩
    cases hrest with
    | cons hread' hrest =>
      obtain ⟨m, rfl⟩ := Nat.exists_eq_succ_of_ne_zero (Nat.ne_zero_of_lt hn)
      have hitem := hread.parse newLine
        (',' :: (joinLines newLine (text' :: texts) ++ (close ++ last :: rest))) hnew
        (ends_cons (by decide))
      have hcomma : skipSpace
          (',' :: (joinLines newLine (text' :: texts) ++ (close ++ last :: rest))) =
          ',' :: (joinLines newLine (text' :: texts) ++ (close ++ last :: rest)) :=
        skipSpace_cons (by decide)
      rw [joinLines, List.append_assoc, List.append_assoc, List.cons_append, parseItems, hitem]
      · simp only [Option.bind_eq_bind, Option.bind_some, hcomma, if_neg hlast.ne_comma, if_pos]
        rw [ih (.cons hread' hrest) (by simpa using hn)]
        rfl
      · simp

theorem length_lt_joinLines (newLine text : List Char) (texts : List (List Char)) :
    texts.length ≤ (joinLines newLine (text :: texts)).length := by
  induction texts generalizing text with
  | nil => exact Nat.zero_le _
  | cons text' texts ih =>
    have := ih text'
    simp only [joinLines, List.length_append, List.length_cons]
    omega

theorem exists_joinLines (newLine text : List Char) (texts : List (List Char)) :
    ∃ tail, joinLines newLine (text :: texts) = newLine ++ (text ++ tail) := by
  cases texts with
  | nil => exact ⟨[], by simp [joinLines]⟩
  | cons text' texts => exact ⟨',' :: joinLines newLine (text' :: texts), by simp [joinLines]⟩

theorem allSpace_newLine (style : Style) (level : Nat) : AllSpace (style.newLine level) := by
  cases style with
  | compact => exact nofun
  | pretty =>
    rw [Style.newLine, AllSpace, List.forall_mem_cons]
    exact ⟨by decide, fun c hc => List.eq_of_mem_replicate hc ▸ by decide⟩

/-- A container is read back if its items are. -/
theorem parseContainer_container (hlast : IsLast last) (style : Style) (level : Nat) (first : Char)
    {texts : List (List Char)} {xs : List α} (h : List.Forall₂ (Reads item) texts xs)
    (rest : List Char) :
    ∃ body, style.container level first last texts ++ rest = first :: body ∧
      parseContainer last item body = some (xs, rest) := by
  cases h with
  | nil =>
    have hskip : skipSpace (last :: rest) = last :: rest :=
      skipSpace_cons hlast.notMem_spaces
    exact ⟨last :: rest, rfl, by simp [parseContainer, hskip]⟩
  | @cons text x texts xs hread hrest =>
    have hnew := allSpace_newLine style (level + 1)
    have hclose := allSpace_newLine style level
    refine ⟨joinLines (style.newLine (level + 1)) (text :: texts) ++
      (style.newLine level ++ last :: rest), by simp [Style.container], ?_⟩
    obtain ⟨c, tail, rfl, hspace, hbracket, hbrace⟩ := hread.starts
    obtain ⟨tail', hjoin⟩ := exists_joinLines (style.newLine (level + 1)) (c :: tail) texts
    have hne : c ≠ last := by rcases hlast with rfl | rfl <;> assumption
    have hskip : skipSpace (joinLines (style.newLine (level + 1)) ((c :: tail) :: texts) ++
        (style.newLine level ++ last :: rest)) =
        c :: (tail ++ tail' ++ (style.newLine level ++ last :: rest)) := by
      rw [hjoin, List.append_assoc]
      exact (skipSpace_append hnew hspace).trans (by simp)
    simp only [parseContainer, hskip, if_neg hne]
    refine parseItems_joinLines hlast hnew hclose (.cons hread hrest) ?_ rest
    have := length_lt_joinLines (style.newLine (level + 1)) (c :: tail) texts
    simp only [List.length_append, List.length_cons]
    omega

end

/-! ## Values -/

mutual

/-- All integers of the value are of 64 bits. -/
def Value.is64 : Value → Bool
  | .number n => n.is64
  | .array items => is64Items items
  | .object fields => is64Fields fields
  | _ => true

def is64Items : List Value → Bool
  | [] => true
  | item :: items => item.is64 && is64Items items

def is64Fields : List (String × Value) → Bool
  | [] => true
  | (_, value) :: fields => value.is64 && is64Fields fields

end

section

variable {p : Parser Value} {style : Style} {level : Nat}

theorem reads_items {items : List Value}
    (h : ∀ value ∈ items, Reads p (value.write style level) value) :
    List.Forall₂ (Reads p) (writeItems style level items) items := by
  induction items with
  | nil => exact .nil
  | cons item items ih =>
    rw [List.forall_mem_cons] at h
    exact .cons h.1 (ih h.2)

theorem allSpace_colon (style : Style) : ∃ space, style.colon = ':' :: space ∧ AllSpace space := by
  cases style with
  | compact => exact ⟨[], rfl, nofun⟩
  | pretty => exact ⟨[' '], rfl, by simp [AllSpace, spaces]⟩

theorem reads_field {name : String} {value : Value} (h : Reads p (value.write style level) value) :
    Reads (parseField p) (writeString name ++ style.colon ++ value.write style level)
      (name, value) := by
  obtain ⟨space', hcolon, hspace'⟩ := allSpace_colon style
  refine ⟨⟨'"', _, rfl, by decide, by decide, by decide⟩, fun space rest hspace hrest => ?_⟩
  obtain ⟨text, htext, hchars⟩ := parseString_writeString name
    (':' :: (space' ++ (value.write style level ++ rest)))
  have hskip : skipSpace (space ++ '"' :: text) = '"' :: text := skipSpace_append hspace (by decide)
  have hskip' : skipSpace (':' :: (space' ++ (value.write style level ++ rest))) =
      ':' :: (space' ++ (value.write style level ++ rest)) :=
    skipSpace_cons (by decide)
  have happend : writeString name ++ style.colon ++ value.write style level ++ rest =
      '"' :: text := by
    rw [hcolon, ← htext]
    simp
  simp only [happend, parseField, hskip, hchars, Option.bind_eq_bind, Option.bind_some, hskip',
    h.parse space' rest hspace' hrest, Option.map_some, String.ofList_toList]

theorem reads_fields {fields : List (String × Value)}
    (h : ∀ field ∈ fields, Reads p (field.2.write style level) field.2) :
    List.Forall₂ (Reads (parseField p)) (writeFields style level fields) fields := by
  induction fields with
  | nil => exact .nil
  | cons field fields ih =>
    rw [List.forall_mem_cons] at h
    exact .cons (reads_field h.1) (ih h.2)

end

theorem parseValue_scalar {limit : Nat} {space rest : List Char} {c : Char}
    (hspace : AllSpace space) (hc : c ∉ spaces) (hbracket : c ≠ '[') (hbrace : c ≠ '{') :
    parseValue limit (space ++ c :: rest) = parseScalar (c :: rest) := by
  cases limit with
  | zero => rw [parseValue, skipSpace_append hspace hc]
  | succ limit =>
    rw [parseValue, skipSpace_append hspace hc]
    split
    · next heq => exact absurd (List.cons.inj heq).1 hbracket
    · next heq => exact absurd (List.cons.inj heq).1 hbrace
    · rfl

/-- A scalar is read back if it is read back where it starts. -/
theorem reads_scalar {limit : Nat} {text : List Char} {value : Value}
    (hstart : ∃ c tail, text = c :: tail ∧ c ∉ '[' :: '{' :: ']' :: '}' :: spaces)
    (h : ∀ rest, Ends rest → parseScalar (text ++ rest) = some (value, rest)) :
    Reads (parseValue limit) text value := by
  rcases hstart with ⟨c, tail, rfl, hc⟩
  simp only [List.mem_cons, not_or] at hc
  rcases hc with ⟨hbracket, hbrace, hbracket', hbrace', hspaces⟩
  refine ⟨⟨c, tail, rfl, hspaces, hbracket', hbrace'⟩, fun space rest hspace hrest => ?_⟩
  exact (parseValue_scalar hspace hspaces hbracket hbrace).trans (h rest hrest)

theorem exists_head_write (n : Number) :
    ∃ c tail, n.write = c :: tail ∧ (c = '-' ∨ c.isDigit = true) := by
  have hwrite := Lexeme.write_append n.lexeme []
  rw [List.append_nil] at hwrite
  cases hnegative : n.lexeme.negative with
  | true => exact ⟨'-', _, by rw [Number.write, hwrite, hnegative]; rfl, Or.inl rfl⟩
  | false =>
    obtain ⟨c, cs, hcs, hc⟩ := Text.exists_head_decimalNat n.lexeme.whole
    exact ⟨c, _, by rw [Number.write, hwrite, hnegative, hcs]; rfl, Or.inr hc⟩

theorem parseScalar_number {c : Char} (hc : c = '-' ∨ c.isDigit = true) (rest : List Char) :
    parseScalar (c :: rest) =
      (parseNumber (c :: rest)).map fun (n, rest) => (.number n, rest) := by
  have hne : c ∉ ['n', 't', 'f', '"'] := by
    intro hmem
    rcases hc with rfl | hc
    · exact absurd hmem (by decide)
    · have hall : (['n', 't', 'f', '"'].all fun d => ¬ d.isDigit) = true := by decide
      exact of_decide_eq_true (List.all_eq_true.mp hall c hmem) hc
  rw [parseScalar]
  all_goals
    intro rest' heq
    obtain rfl := (List.cons.inj heq).1
    exact hne (by decide)

theorem reads_number {limit : Nat} {n : Number} (h : n.ReadsBack) :
    Reads (parseValue limit) n.write (.number n) := by
  obtain ⟨c, tail, heq, hc⟩ := exists_head_write n
  refine reads_scalar ⟨c, tail, heq, ?_⟩ fun rest hrest => ?_
  · rcases hc with rfl | hc
    · decide
    · have hall : (('[' :: '{' :: ']' :: '}' :: spaces).all fun d => ¬ d.isDigit) = true := by
        decide
      exact fun hmem => of_decide_eq_true (List.all_eq_true.mp hall c hmem) hc
  · have hparse := parseNumber_write h hrest
    rw [heq, List.cons_append] at hparse ⊢
    rw [parseScalar_number hc, hparse]
    rfl

theorem reads_string {limit : Nat} (s : String) :
    Reads (parseValue limit) (writeString s) (.string s) := by
  refine reads_scalar ⟨'"', _, rfl, by decide⟩ fun rest hrest => ?_
  obtain ⟨text, htext, hchars⟩ := parseString_writeString s rest
  rw [htext, parseScalar, hchars]
  simp

theorem depthItems_le_iff {items : List Value} {limit : Nat} :
    depthItems items ≤ limit ↔ ∀ value ∈ items, value.depth ≤ limit := by
  induction items with
  | nil => simp [depthItems]
  | cons item items ih => rw [depthItems, Nat.max_le, ih, List.forall_mem_cons]

theorem depthFields_le_iff {fields : List (String × Value)} {limit : Nat} :
    depthFields fields ≤ limit ↔ ∀ field ∈ fields, field.2.depth ≤ limit := by
  induction fields with
  | nil => simp [depthFields]
  | cons field fields ih => rw [depthFields, Nat.max_le, ih, List.forall_mem_cons]

theorem is64Items_iff {items : List Value} :
    is64Items items = true ↔ ∀ value ∈ items, value.is64 = true := by
  induction items with
  | nil => simp [is64Items]
  | cons item items ih => rw [is64Items, Bool.and_eq_true, ih, List.forall_mem_cons]

theorem is64Fields_iff {fields : List (String × Value)} :
    is64Fields fields = true ↔ ∀ field ∈ fields, field.2.is64 = true := by
  induction fields with
  | nil => simp [is64Fields]
  | cons field fields ih => rw [is64Fields, Bool.and_eq_true, ih, List.forall_mem_cons]

theorem mem_floatsItems {items : List Value} {x : Binary64} :
    x ∈ floatsItems items ↔ ∃ value ∈ items, x ∈ value.floats := by
  induction items with
  | nil => simp [floatsItems]
  | cons item items ih => simp only [floatsItems, List.mem_append, ih, List.exists_mem_cons_iff]

theorem mem_floatsFields {fields : List (String × Value)} {x : Binary64} :
    x ∈ floatsFields fields ↔ ∃ field ∈ fields, x ∈ field.2.floats := by
  induction fields with
  | nil => simp [floatsFields]
  | cons field fields ih => simp only [floatsFields, List.mem_append, ih, List.exists_mem_cons_iff]

/-- The floats of the value are read back. -/
def Value.ReadsFloats (value : Value) : Prop :=
  ∀ x ∈ value.floats, (Number.float x).ReadsBack

theorem Value.ReadsFloats.number {n : Number} (h : (Value.number n).ReadsFloats)
    (h64 : n.is64 = true) : n.ReadsBack := by
  cases n with
  | int n => exact readsBack_int h64
  | float x => exact h x List.mem_cons_self

theorem Value.ReadsFloats.item {items : List Value} (h : (Value.array items).ReadsFloats)
    {value : Value} (hmem : value ∈ items) : value.ReadsFloats := fun x hx =>
  h x (mem_floatsItems.mpr ⟨value, hmem, hx⟩)

theorem Value.ReadsFloats.field {fields : List (String × Value)}
    (h : (Value.object fields).ReadsFloats) {field : String × Value} (hmem : field ∈ fields) :
    field.2.ReadsFloats := fun x hx => h x (mem_floatsFields.mpr ⟨field, hmem, hx⟩)

/-- **Values are read back**, by induction on the number of containers that may
    be nested. -/
theorem reads_write (style : Style) {limit : Nat} {value : Value} (level : Nat)
    (hdepth : value.depth ≤ limit) (h64 : value.is64 = true) (hfloats : value.ReadsFloats) :
    Reads (parseValue limit) (value.write style level) value := by
  induction limit generalizing value level with
  | zero =>
    cases value with
    | null => exact reads_scalar ⟨'n', _, rfl, by decide⟩ fun _ _ => rfl
    | bool b => cases b <;> exact reads_scalar ⟨_, _, rfl, by decide⟩ fun _ _ => rfl
    | number n => exact reads_number (hfloats.number h64)
    | string s => exact reads_string s
    | array items => exact absurd hdepth (Nat.not_succ_le_zero _)
    | object fields => exact absurd hdepth (Nat.not_succ_le_zero _)
  | succ limit ih =>
    cases value with
    | null => exact reads_scalar ⟨'n', _, rfl, by decide⟩ fun _ _ => rfl
    | bool b => cases b <;> exact reads_scalar ⟨_, _, rfl, by decide⟩ fun _ _ => rfl
    | number n => exact reads_number (hfloats.number h64)
    | string s => exact reads_string s
    | array items =>
      have hitems : List.Forall₂ (Reads (parseValue limit)) (writeItems style (level + 1) items)
          items :=
        reads_items fun value hmem => ih (level + 1)
          (depthItems_le_iff.mp (Nat.le_of_succ_le_succ hdepth) value hmem)
          (is64Items_iff.mp h64 value hmem) (hfloats.item hmem)
      refine ⟨?_, fun space rest hspace hrest => ?_⟩
      · obtain ⟨body, hbody, _⟩ := parseContainer_container (Or.inl rfl) style level '[' hitems []
        rw [List.append_nil] at hbody
        exact ⟨'[', body, hbody, by decide, by decide, by decide⟩
      · obtain ⟨body, hbody, hparse⟩ :=
          parseContainer_container (Or.inl rfl) style level '[' hitems rest
        rw [Value.write, hbody, parseValue, skipSpace_append hspace (by decide)]
        change (parseContainer ']' (parseValue limit) body).map _ = _
        rw [hparse]
        rfl
    | object fields =>
      have hfields : List.Forall₂ (Reads (parseField (parseValue limit)))
          (writeFields style (level + 1) fields) fields :=
        reads_fields fun field hmem => ih (level + 1)
          (depthFields_le_iff.mp (Nat.le_of_succ_le_succ hdepth) field hmem)
          (is64Fields_iff.mp h64 field hmem) (hfloats.field hmem)
      refine ⟨?_, fun space rest hspace hrest => ?_⟩
      · obtain ⟨body, hbody, _⟩ := parseContainer_container (Or.inr rfl) style level '{' hfields []
        rw [List.append_nil] at hbody
        exact ⟨'{', body, hbody, by decide, by decide, by decide⟩
      · obtain ⟨body, hbody, hparse⟩ :=
          parseContainer_container (Or.inr rfl) style level '{' hfields rest
        rw [Value.write, hbody, parseValue, skipSpace_append hspace (by decide)]
        change (parseContainer '}' (parseField (parseValue limit)) body).map _ = _
        rw [hparse]
        rfl

/-- **Documents are read back.** -/
theorem parse_write (style : Style) {limit : Nat} {value : Value} (hdepth : value.depth ≤ limit)
    (h64 : value.is64 = true) (hfloats : value.ReadsFloats) :
    parse limit (value.write style 0) = some value := by
  have hread := (reads_write style 0 hdepth h64 hfloats).parse [] [] nofun nofun
  rw [List.nil_append, List.append_nil] at hread
  rw [parse, hread]
  rfl

end Json
