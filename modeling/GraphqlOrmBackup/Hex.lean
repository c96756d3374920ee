import Mathlib.Data.List.Basic

/-!
# Hexadecimal text of bytes

`{:x}` of a byte array: two lower-case digits a byte, as used for SHA-256 sums
and for the text form of a UUID.
-/

namespace Hex

def digits : List Char :=
  ['0', '1', '2', '3', '4', '5', '6', '7', '8', '9', 'a', 'b', 'c', 'd', 'e', 'f']

def digit (n : Nat) : Char := digits.getD n '0'

/-- The value of a hexadecimal digit of either case. -/
def value? (c : Char) : Option Nat :=
  if '0' ≤ c ∧ c ≤ '9' then some (c.toNat - '0'.toNat)
  else if 'a' ≤ c ∧ c ≤ 'f' then some (c.toNat - 'a'.toNat + 10)
  else if 'A' ≤ c ∧ c ≤ 'F' then some (c.toNat - 'A'.toNat + 10)
  else none

def byte (b : UInt8) : List Char := [digit (b.toNat / 16), digit (b.toNat % 16)]

def encode (bytes : List UInt8) : List Char := bytes.flatMap byte

def decode? : List Char → Option (List UInt8)
  | [] => some []
  | hi :: lo :: rest => do
      let x ← value? hi
      let y ← value? lo
      let bytes ← decode? rest
      some (UInt8.ofNat (16 * x + y) :: bytes)
  | [_] => none

theorem digit_mem {n : Nat} (h : n < 16) : digit n ∈ digits := by
  revert n
  decide

@[simp] theorem value?_digit {n : Nat} (h : n < 16) : value? (digit n) = some n := by
  revert n
  decide

/-- Of the two digits of a value the lower-case one is written. -/
theorem digit_of_value? {c : Char} {n : Nat} (h : value? c = some n)
    (hlower : ¬ ('A' ≤ c ∧ c ≤ 'F')) : digit n = c := by
  have hdecimal : ∀ m < 58, 48 ≤ m → digit (m - 48) = Char.ofNat m := by decide
  have hletter : ∀ m < 103, 97 ≤ m → digit (m - 97 + 10) = Char.ofNat m := by decide
  have hle : ∀ a b : Char, a ≤ b ↔ a.toNat ≤ b.toNat := fun _ _ => Iff.rfl
  rw [value?] at h
  split at h
  · next hrange =>
    rw [hle, hle] at hrange
    cases h
    exact (hdecimal c.toNat (Nat.lt_succ_of_le hrange.2) hrange.1).trans (Char.ofNat_toNat c)
  · split at h
    · next hrange =>
      rw [hle, hle] at hrange
      cases h
      exact (hletter c.toNat (Nat.lt_succ_of_le hrange.2) hrange.1).trans (Char.ofNat_toNat c)
    · cases h

theorem value?_lt {c : Char} {n : Nat} (h : value? c = some n) : n < 16 := by
  have hle : ∀ a b : Char, a ≤ b ↔ a.toNat ≤ b.toNat := fun _ _ => Iff.rfl
  rw [value?] at h
  split at h
  · next hrange =>
    rw [hle, hle] at hrange
    cases h
    have h9 : '9'.toNat = 57 := rfl
    have h0 : '0'.toNat = 48 := rfl
    omega
  · split at h
    · next hrange =>
      rw [hle, hle] at hrange
      cases h
      have hf : 'f'.toNat = 102 := rfl
      have ha : 'a'.toNat = 97 := rfl
      omega
    · split at h
      · next hrange =>
        rw [hle, hle] at hrange
        cases h
        have hf : 'F'.toNat = 70 := rfl
        have ha : 'A'.toNat = 65 := rfl
        omega
      · cases h

theorem mem_encode {c : Char} {bytes : List UInt8} (h : c ∈ encode bytes) : c ∈ digits := by
  rcases List.mem_flatMap.mp h with ⟨b, _, hc⟩
  have hb : b.toNat < 256 := b.toNat_lt
  rcases List.mem_cons.mp hc with rfl | hc
  · exact digit_mem (by omega)
  · rw [List.mem_singleton] at hc
    subst hc
    exact digit_mem (by omega)

@[simp] theorem length_encode (bytes : List UInt8) :
    (encode bytes).length = 2 * bytes.length := by
  induction bytes with
  | nil => rfl
  | cons b bytes ih =>
    rw [encode, List.flatMap_cons, List.length_append, ← encode, ih]
    simp [byte]
    omega

@[simp] theorem decode?_encode (bytes : List UInt8) : decode? (encode bytes) = some bytes := by
  induction bytes with
  | nil => rfl
  | cons b bytes ih =>
    have hb : b.toNat < 256 := b.toNat_lt
    have hval : UInt8.ofNat (16 * (b.toNat / 16) + b.toNat % 16) = b := by
      rw [Nat.div_add_mod]
      exact UInt8.ofNat_toNat
    have hcons : encode (b :: bytes) =
        digit (b.toNat / 16) :: digit (b.toNat % 16) :: encode bytes := rfl
    rw [hcons, decode?, value?_digit (by omega), value?_digit (by omega), ih]
    exact congrArg (fun x => some (x :: bytes)) hval

theorem encode_injective : Function.Injective encode := by
  intro left right heq
  have h := decode?_encode left
  rw [heq, decode?_encode] at h
  exact (Option.some.inj h).symm

theorem slash_notMem_encode (bytes : List UInt8) : '/' ∉ encode bytes := fun h =>
  absurd (mem_encode h) (by decide)

/-- Text without upper-case letters is what is written for its bytes. -/
theorem encode_of_decode? {cs : List Char} {bytes : List UInt8} (h : decode? cs = some bytes)
    (hlower : ∀ c ∈ cs, ¬ ('A' ≤ c ∧ c ≤ 'F')) : encode bytes = cs := by
  fun_induction decode? cs generalizing bytes with
  | case1 =>
    cases h
    rfl
  | case2 hi lo rest ih =>
    rcases Option.bind_eq_some_iff.mp h with ⟨x, hx, h⟩
    rcases Option.bind_eq_some_iff.mp h with ⟨y, hy, h⟩
    rcases Option.bind_eq_some_iff.mp h with ⟨bytes', hbytes', heq⟩
    cases heq
    simp only [List.forall_mem_cons] at hlower
    have hx16 := value?_lt hx
    have hy16 := value?_lt hy
    have hnat : (UInt8.ofNat (16 * x + y)).toNat = 16 * x + y := by
      rw [UInt8.toNat_ofNat']
      omega
    have hbyte : byte (UInt8.ofNat (16 * x + y)) = [hi, lo] := by
      rw [byte, hnat, show (16 * x + y) / 16 = x by omega, show (16 * x + y) % 16 = y by omega,
        digit_of_value? hx hlower.1, digit_of_value? hy hlower.2.1]
    rw [encode, List.flatMap_cons, hbyte, ← encode, ih hbytes' hlower.2.2]
    rfl
  | case3 c => cases h

end Hex
