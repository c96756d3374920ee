import GraphqlOrmBackup.Json.Write

/-!
# Reading JSON

A parser for documents of a bounded depth.
-/

namespace Json

/-- A parser of the beginning of a text. -/
abbrev Parser (α : Type) := List Char → Option (α × List Char)

def spaces : List Char := [' ', '\n', '\t', '\r']

def skipSpace (cs : List Char) : List Char := cs.dropWhile (· ∈ spaces)

/-! ## Strings -/

def unescape (c : Char) : Option Char :=
  if c = '/' then some '/' else (shortEscapes.find? fun short => short.1 = c).map (·.2)

def hex4 (a b c d : Char) : Option Nat := do
  let a ← Hex.value? a
  let b ← Hex.value? b
  let c ← Hex.value? c
  let d ← Hex.value? d
  some (((16 * a + b) * 16 + c) * 16 + d)

/-- The scalar value of a pair of surrogates. -/
def surrogates (high low : Nat) : Option Char :=
  if 0xd800 ≤ high ∧ high < 0xdc00 ∧ 0xdc00 ≤ low ∧ low < 0xe000 then
    some (Char.ofNat (0x10000 + (high - 0xd800) * 0x400 + (low - 0xdc00)))
  else none

def prepend (c : Char) (read : Option (List Char × List Char)) : Option (List Char × List Char) :=
  read.map fun (cs, rest) => (c :: cs, rest)

/-- The characters up to the closing quotation mark. -/
def parseChars : Parser (List Char)
  | '"' :: rest => some ([], rest)
  | '\\' :: 'u' :: a :: b :: c :: d :: rest =>
      match hex4 a b c d with
      | none => none
      | some n =>
          if n < 0xd800 ∨ 0xe000 ≤ n then prepend (Char.ofNat n) (parseChars rest)
          else match rest with
            | '\\' :: 'u' :: e :: f :: g :: h :: rest =>
                match (hex4 e f g h).bind (surrogates n) with
                | some c => prepend c (parseChars rest)
                | none => none
            | _ => none
  | '\\' :: c :: rest =>
      match unescape c with
      | some c => prepend c (parseChars rest)
      | none => none
  | c :: rest => if c.toNat < 32 then none else prepend c (parseChars rest)
  | [] => none

/-! ## Numbers -/

/-- Digits without a leading zero. -/
def parseNat : Parser Nat := fun cs =>
  let digits := cs.takeWhile Char.isDigit
  if digits.head? = some '0' ∧ digits ≠ ['0'] then none
  else (Text.natOfDigits? digits).map fun n => (n, cs.dropWhile Char.isDigit)

/-- The digits after a point, if there is one. -/
def parseFraction : Parser (List Char)
  | '.' :: cs =>
      let digits := cs.takeWhile Char.isDigit
      if digits = [] then none else some (digits, cs.dropWhile Char.isDigit)
  | cs => some ([], cs)

def signOf : List Char → Bool × List Char
  | '-' :: cs => (true, cs)
  | '+' :: cs => (false, cs)
  | cs => (false, cs)

/-- What follows the letter of an exponent, if there is one. -/
def parseExponent : Parser (Option Int)
  | c :: cs =>
      if c = 'e' ∨ c = 'E' then
        let (negative, cs) := signOf cs
        (Text.natOfDigits? (cs.takeWhile Char.isDigit)).map fun (n : Nat) =>
          (some (if negative then -(n : Int) else n), cs.dropWhile Char.isDigit)
      else some (none, c :: cs)
  | [] => some (none, [])

def parseLexeme : Parser Lexeme := fun cs => do
  let (whole, rest) ← parseNat (if cs.head? = some '-' then cs.tail else cs)
  let (fraction, rest) ← parseFraction rest
  let (exponent, rest) ← parseExponent rest
  some (⟨cs.head? = some '-', whole, fraction, exponent⟩, rest)

def parseNumber : Parser Number := fun cs => do
  let (l, rest) ← parseLexeme cs
  l.number.map fun n => (n, rest)

/-! ## Values -/

/-- Items separated by commas up to the closing bracket. -/
def parseItems (last : Char) (item : Parser α) : Nat → Parser (List α)
  | 0, _ => none
  | n + 1, cs => do
      let (x, cs) ← item cs
      match skipSpace cs with
      | c :: rest =>
          if c = last then some ([x], rest)
          else if c = ',' then (parseItems last item n rest).map fun (xs, rest) => (x :: xs, rest)
          else none
      | [] => none

/-- The rest of a container after its opening bracket. -/
def parseContainer (last : Char) (item : Parser α) : Parser (List α) := fun cs =>
  match skipSpace cs with
  | [] => none
  | c :: rest => if c = last then some ([], rest) else parseItems last item cs.length cs

def parseField (value : Parser α) : Parser (String × α) := fun cs =>
  match skipSpace cs with
  | '"' :: rest => do
      let (name, rest) ← parseChars rest
      match skipSpace rest with
      | ':' :: rest => (value rest).map fun (x, rest) => ((String.ofList name, x), rest)
      | _ => none
  | _ => none

def parseScalar : Parser Value
  | 'n' :: 'u' :: 'l' :: 'l' :: rest => some (.null, rest)
  | 't' :: 'r' :: 'u' :: 'e' :: rest => some (.bool true, rest)
  | 'f' :: 'a' :: 'l' :: 's' :: 'e' :: rest => some (.bool false, rest)
  | '"' :: rest => (parseChars rest).map fun (cs, rest) => (.string (String.ofList cs), rest)
  | cs => (parseNumber cs).map fun (n, rest) => (.number n, rest)

/-- A value in which at most `limit` containers are nested. -/
def parseValue : Nat → Parser Value
  | 0, cs => parseScalar (skipSpace cs)
  | limit + 1, cs =>
      match skipSpace cs with
      | '[' :: rest =>
          (parseContainer ']' (parseValue limit) rest).map fun (items, rest) => (.array items, rest)
      | '{' :: rest =>
          (parseContainer '}' (parseField (parseValue limit)) rest).map fun (fields, rest) =>
            (.object fields, rest)
      | cs => parseScalar cs

/-- A document: a value and nothing after it. -/
def parse (limit : Nat) (cs : List Char) : Option Value :=
  match parseValue limit cs with
  | some (value, rest) => if skipSpace rest = [] then some value else none
  | none => none

example : (parse 2 " [ 1 , \x7b \"a\" : \"\\u00e9\\n\" \x7d ] ".toList).isSome = true := by
  decide +kernel
example : (parse 1 "[[]]".toList).isSome = false := by decide +kernel

end Json
