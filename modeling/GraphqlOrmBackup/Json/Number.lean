import GraphqlOrmBackup.Binary64

/-!
# Numbers of JSON

A number is an integer or a float.  Floats are written by their shortest
decimals.  They are read with the arithmetic of floats, which rounds more than
once, so that a decimal is not always read as the float nearest to it.
-/

namespace Json

inductive Number where
  | int (value : Int)
  | float (value : Binary64)
deriving DecidableEq, Repr

/-- The parts of the text of a number: whether a minus sign comes first, the
    integer before the point, the digits after it, and the exponent. -/
structure Lexeme where
  negative : Bool
  whole : Nat
  fraction : List Char
  exponent : Option Int
deriving DecidableEq, Repr

def Lexeme.write (l : Lexeme) : List Char :=
  (if l.negative then ['-'] else []) ++ Text.decimalNat l.whole ++
    (if l.fraction = [] then [] else '.' :: l.fraction) ++
    l.exponent.elim [] fun exponent => 'e' :: Text.decimal exponent

/-! ## Writing -/

/-- The layout of the decimal `digits * 10 ^ exponent`: with a point if it is
    neither large nor small, otherwise with an exponent. -/
def Lexeme.ofDecimal (negative : Bool) (digits : Nat) (exponent : Int) : Lexeme :=
  let text := Text.decimalNat digits
  let point := text.length + exponent
  if 0 ≤ exponent ∧ point ≤ 16 then ⟨negative, digits * 10 ^ exponent.toNat, ['0'], none⟩
  else if 0 < point ∧ point ≤ 16 then
    ⟨negative, digits / 10 ^ (-exponent).toNat, text.drop point.toNat, none⟩
  else if -5 < point ∧ point ≤ 0 then
    ⟨negative, 0, List.replicate (-point).toNat '0' ++ text, none⟩
  else ⟨negative, digits / 10 ^ (text.length - 1), text.drop 1, some (point - 1)⟩

def Number.lexeme : Number → Lexeme
  | .int n => ⟨n < 0, n.natAbs, [], none⟩
  | .float x => Lexeme.ofDecimal x.negative x.shortest.1 x.shortest.2

def Number.write (n : Number) : List Char := n.lexeme.write

/-! ## Reading -/

/-- The leading digits that fit 64 bits, and how many are left out. -/
def leading (whole : Nat) : Nat × Int :=
  if whole < 2 ^ 64 then (whole, 0)
  else
    let (significand, dropped) := leading (whole / 10)
    (significand, dropped + 1)
termination_by whole
decreasing_by omega

/-- Digits after the point are added as long as the significand fits 64 bits. -/
def addFraction (significand : Nat) (exponent : Int) : List Char → Nat × Int
  | [] => (significand, exponent)
  | c :: cs =>
      if significand * 10 + (c.toNat - 48) < 2 ^ 64 then
        addFraction (significand * 10 + (c.toNat - 48)) (exponent - 1) cs
      else (significand, exponent)

def powerOfTen (n : Nat) : Option Binary64 := Binary64.ofNat (10 ^ n)

/-- So many divisions by the greatest power of ten. -/
def divideOften : Nat → Binary64 → Option Binary64
  | 0, x => some x
  | n + 1, x => if x.significand = 0 then some x else do
      divideOften n (← x.div (← powerOfTen 308))

/-- `significand * 10 ^ exponent`, computed with floats. -/
def fromParts (significand : Nat) (exponent : Int) : Option Binary64 := do
  let x ← Binary64.ofNat significand
  if 308 < exponent then
    if x.significand = 0 then some x else none
  else if 0 ≤ exponent then x.mul (← powerOfTen exponent.toNat)
  else
    let n := ((-exponent).toNat - 1) / 308
    (← divideOften n x).div (← powerOfTen ((-exponent).toNat - 308 * n))

def Lexeme.float (l : Lexeme) : Option Binary64 := do
  let (significand, exponent) := leading l.whole
  let (significand, exponent) := addFraction significand exponent l.fraction
  let x ← fromParts significand (exponent + l.exponent.getD 0)
  some { x with negative := l.negative }

/-- Integers of 64 bits are read as such, and everything else as floats. -/
def Lexeme.number (l : Lexeme) : Option Number :=
  if l.fraction = [] ∧ l.exponent = none ∧ l.whole < 2 ^ 64 ∧
      (l.negative = true → 0 < l.whole ∧ l.whole ≤ 2 ^ 63) then
    some (.int (if l.negative then -l.whole else l.whole))
  else l.float.map .float

/-- The number is what is read from its text. -/
def Number.ReadsBack (n : Number) : Prop := n.lexeme.number = some n

instance (n : Number) : Decidable n.ReadsBack := inferInstanceAs (Decidable (_ = _))

end Json
