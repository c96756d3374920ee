import Mathlib.Data.List.Basic

/-!
# Text

UTF-8 text as a list of bytes, and decimal integers.
-/

namespace Text

/-! ## UTF-8 -/

def utf8 (cs : List Char) : List UInt8 := cs.flatMap String.utf8EncodeChar

/-- The characters of valid UTF-8 text. -/
def fromUtf8? (bytes : List UInt8) : Option (List Char) :=
  (ByteArray.mk bytes.toArray).utf8Decode?.map Array.toList

@[simp] theorem fromUtf8?_utf8 (cs : List Char) : fromUtf8? (utf8 cs) = some cs := by
  have h : ByteArray.mk (utf8 cs).toArray = cs.utf8Encode := by
    rw [List.utf8Encode, ← utf8]
    exact ByteArray.ext List.data_toByteArray.symm
  rw [fromUtf8?, h, List.utf8Decode?_utf8Encode]
  rfl

theorem utf8_injective : Function.Injective utf8 := by
  intro cs cs' heq
  have h := fromUtf8?_utf8 cs
  rw [heq, fromUtf8?_utf8] at h
  exact (Option.some.inj h).symm

/-! ## Decimal integers -/

def decimalNat (n : Nat) : List Char := Nat.toDigits 10 n

def decimal : Int → List Char
  | .ofNat n => decimalNat n
  | .negSucc n => '-' :: decimalNat (n + 1)

/-- A non-empty string of digits. -/
def natOfDigits? (cs : List Char) : Option Nat :=
  if cs ≠ [] ∧ cs.all Char.isDigit then some (Nat.ofDigitChars 10 cs 0) else none

/-- Digits after an optional sign. -/
def intOfDigits? : List Char → Option Int
  | '-' :: cs => (natOfDigits? cs).map fun n => -n
  | '+' :: cs => (natOfDigits? cs).map fun n => n
  | cs => (natOfDigits? cs).map fun n => n

@[simp] theorem natOfDigits?_decimalNat (n : Nat) : natOfDigits? (decimalNat n) = some n := by
  have hdigits : (Nat.toDigits 10 n).all Char.isDigit = true :=
    List.all_eq_true.mpr fun c hc => Nat.isDigit_of_mem_toDigits (by decide) (by decide) hc
  rw [natOfDigits?, decimalNat, if_pos ⟨Nat.toDigits_ne_nil, hdigits⟩,
    Nat.ofDigitChars_ten_toDigits]

theorem isDigit_of_mem_decimalNat {c : Char} {n : Nat} (h : c ∈ decimalNat n) : c.isDigit :=
  Nat.isDigit_of_mem_toDigits (by decide) (by decide) h

theorem exists_head_decimalNat (n : Nat) :
    ∃ c tail, decimalNat n = c :: tail ∧ c.isDigit = true := by
  cases hcs : decimalNat n with
  | nil => exact absurd hcs Nat.toDigits_ne_nil
  | cons c cs => exact ⟨c, cs, rfl, isDigit_of_mem_decimalNat (hcs ▸ List.mem_cons_self)⟩

@[simp] theorem intOfDigits?_decimal (n : Int) : intOfDigits? (decimal n) = some n := by
  cases n with
  | negSucc n => simp [decimal, intOfDigits?, Int.negSucc_eq]
  | ofNat n =>
    obtain ⟨c, cs, hcs, hc⟩ := exists_head_decimalNat n
    have hback := natOfDigits?_decimalNat n
    rw [hcs] at hback
    rw [decimal, hcs, intOfDigits?]
    · simp [hback]
    · rintro _ ⟨⟩
      exact absurd hc (by decide)
    · rintro _ ⟨⟩
      exact absurd hc (by decide)

example : decimal (-120) = "-120".toList := by decide
example : intOfDigits? "+7".toList = some 7 := by decide

end Text
