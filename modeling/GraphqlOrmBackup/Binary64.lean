import GraphqlOrmBackup.Text
import Mathlib.Algebra.Group.Int.Defs
import Mathlib.Algebra.Group.Nat.Defs

/-!
# Binary floats of 64 bits

Finite floats, quotients rounded to the nearest of them, and the shortest
decimal that is rounded to a float.
-/

/-- The finite float `± significand * 2 ^ exponent`.  The significand fills its
    53 bits, unless the exponent is the least one. -/
structure Binary64 where
  negative : Bool
  significand : Nat
  exponent : Int
  canonical : significand < 2 ^ 53 ∧ -1074 ≤ exponent ∧ exponent ≤ 971 ∧
    (2 ^ 52 ≤ significand ∨ exponent = -1074)
deriving DecidableEq, Repr

namespace Binary64

def ofParts? (negative : Bool) (significand : Nat) (exponent : Int) : Option Binary64 :=
  if h : significand < 2 ^ 53 ∧ -1074 ≤ exponent ∧ exponent ≤ 971 ∧
      (2 ^ 52 ≤ significand ∨ exponent = -1074) then
    some ⟨negative, significand, exponent, h⟩
  else none

/-- The magnitude of a float is `numerator / denominator`. -/
def numerator (x : Binary64) : Nat := x.significand * 2 ^ x.exponent.toNat

def denominator (x : Binary64) : Nat := 2 ^ (-x.exponent).toNat

/-! ## Rounding -/

/-- The integer nearest to `n / d`, the even one of two. -/
def roundDiv (n d : Nat) : Nat :=
  if 2 * (n % d) < d ∨ 2 * (n % d) = d ∧ n / d % 2 = 0 then n / d else n / d + 1

/-- `n / d` in units of `2 ^ exponent`, as a quotient. -/
def inUnits (n d : Nat) (exponent : Int) : Nat × Nat :=
  (n * 2 ^ (-exponent).toNat, d * 2 ^ exponent.toNat)

/-- The exponent at which `n / d` has 53 bits, if it is not too small. -/
def exponentOf (n d : Nat) : Int :=
  if n = 0 then -1074
  else
    let guess := max (-1074) ((n.log2 : Int) - d.log2 - 53)
    let (n, d) := inUnits n d guess
    if n / d < 2 ^ 53 then guess else guess + 1

/-- The float nearest to `n / d`, the even one of two.  Where it is beyond the
    greatest float, it is infinite, and there is none. -/
def nearest (negative : Bool) (n d : Nat) : Option Binary64 :=
  let exponent := exponentOf n d
  let (n, d) := inUnits n d exponent
  let significand := roundDiv n d
  if significand = 2 ^ 53 then ofParts? negative (2 ^ 52) (exponent + 1)
  else ofParts? negative significand exponent

def mul (x y : Binary64) : Option Binary64 :=
  nearest (x.negative != y.negative) (x.numerator * y.numerator) (x.denominator * y.denominator)

/-- The quotient by a float other than zero. -/
def div (x y : Binary64) : Option Binary64 :=
  nearest (x.negative != y.negative) (x.numerator * y.denominator) (x.denominator * y.numerator)

def ofNat (n : Nat) : Option Binary64 := nearest false n 1

/-! ## Decimals -/

/-- `n / d` in units of `10 ^ exponent`, as a quotient. -/
def inTens (n d : Nat) (exponent : Int) : Nat × Nat :=
  (n * 10 ^ (-exponent).toNat, d * 10 ^ exponent.toNat)

/-- The float nearest to the decimal `digits * 10 ^ exponent`. -/
def ofDecimal (negative : Bool) (digits : Nat) (exponent : Int) : Option Binary64 :=
  let (n, d) := inTens digits 1 (-exponent)
  nearest negative n d

/-- A power of ten above the magnitude of the float. -/
def magnitude (x : Binary64) : Int :=
  if x.denominator ≤ x.numerator then (Text.decimalNat (x.numerator / x.denominator)).length
  else 1 - (Text.decimalNat (x.denominator / x.numerator)).length

/-- The two decimals with this exponent around the float, the nearer one first. -/
def neighbours (x : Binary64) (exponent : Int) : List Nat :=
  let (n, d) := inTens x.numerator x.denominator exponent
  if roundDiv n d = n / d then [n / d, n / d + 1] else [n / d + 1, n / d]

/-- The first decimal that is rounded to the float, with one digit more each
    time.  Seventeen digits are enough for every float. -/
def searchShortest (x : Binary64) : Nat → Int → Nat × Int
  | 0, exponent => ((x.neighbours exponent).headD 0, exponent)
  | n + 1, exponent =>
      match (x.neighbours exponent).find? fun digits =>
          ofDecimal x.negative digits exponent = some x with
      | some digits => (digits, exponent)
      | none => searchShortest x n (exponent - 1)

/-- The digits and the exponent of the shortest decimal that is rounded to the
    float. -/
def shortest (x : Binary64) : Nat × Int :=
  if x.significand = 0 then (0, 0) else searchShortest x 17 x.magnitude

example : (nearest false 1 3).map shortest = some (3333333333333333, -16) := by decide +kernel
example : (nearest true 5 (10 ^ 324)).map shortest = some (5, -324) := by decide +kernel

end Binary64
