import GraphqlOrmBackup.Hex
import Mathlib.Algebra.Group.Nat.Defs

/-!
# SHA-256

The hash function of FIPS 180-4, on lists of bytes.
-/

namespace Sha256

/-! ## Words -/

def rotr (x n : UInt32) : UInt32 := (x >>> n) ||| (x <<< (32 - n))

def ch (x y z : UInt32) : UInt32 := (x &&& y) ^^^ (~~~x &&& z)

def maj (x y z : UInt32) : UInt32 := (x &&& y) ^^^ (x &&& z) ^^^ (y &&& z)

def bigSigma0 (x : UInt32) : UInt32 := rotr x 2 ^^^ rotr x 13 ^^^ rotr x 22

def bigSigma1 (x : UInt32) : UInt32 := rotr x 6 ^^^ rotr x 11 ^^^ rotr x 25

def smallSigma0 (x : UInt32) : UInt32 := rotr x 7 ^^^ rotr x 18 ^^^ (x >>> 3)

def smallSigma1 (x : UInt32) : UInt32 := rotr x 17 ^^^ rotr x 19 ^^^ (x >>> 10)

/-- The first 32 bits of the fractional parts of the cube roots of the first 64
    primes. -/
def roundConstants : List UInt32 :=
  [0x428a2f98, 0x71374491, 0xb5c0fbcf, 0xe9b5dba5, 0x3956c25b, 0x59f111f1, 0x923f82a4, 0xab1c5ed5,
   0xd807aa98, 0x12835b01, 0x243185be, 0x550c7dc3, 0x72be5d74, 0x80deb1fe, 0x9bdc06a7, 0xc19bf174,
   0xe49b69c1, 0xefbe4786, 0x0fc19dc6, 0x240ca1cc, 0x2de92c6f, 0x4a7484aa, 0x5cb0a9dc, 0x76f988da,
   0x983e5152, 0xa831c66d, 0xb00327c8, 0xbf597fc7, 0xc6e00bf3, 0xd5a79147, 0x06ca6351, 0x14292967,
   0x27b70a85, 0x2e1b2138, 0x4d2c6dfc, 0x53380d13, 0x650a7354, 0x766a0abb, 0x81c2c92e, 0x92722c85,
   0xa2bfe8a1, 0xa81a664b, 0xc24b8b70, 0xc76c51a3, 0xd192e819, 0xd6990624, 0xf40e3585, 0x106aa070,
   0x19a4c116, 0x1e376c08, 0x2748774c, 0x34b0bcb5, 0x391c0cb3, 0x4ed8aa4a, 0x5b9cca4f, 0x682e6ff3,
   0x748f82ee, 0x78a5636f, 0x84c87814, 0x8cc70208, 0x90befffa, 0xa4506ceb, 0xbef9a3f7, 0xc67178f2]

/-! ## The padded message -/

def wordBytes (x : UInt32) : List UInt8 :=
  [(x >>> 24).toUInt8, (x >>> 16).toUInt8, (x >>> 8).toUInt8, x.toUInt8]

/-- The big-endian words of a list of bytes. -/
def toWords : List UInt8 → List UInt32
  | a :: b :: c :: d :: rest =>
      (a.toUInt32 <<< 24 ||| b.toUInt32 <<< 16 ||| c.toUInt32 <<< 8 ||| d.toUInt32) :: toWords rest
  | _ => []

/-- The message, a one bit, zeros up to 56 bytes modulo 64, and the length in
    bits. -/
def pad (message : List UInt8) : List UInt32 :=
  let bits := 8 * message.length
  toWords (message ++ 0x80 :: List.replicate ((119 - message.length % 64) % 64) 0) ++
    [UInt32.ofNat (bits / 2 ^ 32), UInt32.ofNat bits]

def blocks : Nat → List UInt32 → List (List UInt32)
  | 0, _ => []
  | n + 1, words => words.take 16 :: blocks n (words.drop 16)

/-! ## Compression -/

structure State where
  a : UInt32
  b : UInt32
  c : UInt32
  d : UInt32
  e : UInt32
  f : UInt32
  g : UInt32
  h : UInt32

def State.initial : State :=
  ⟨0x6a09e667, 0xbb67ae85, 0x3c6ef372, 0xa54ff53a, 0x510e527f, 0x9b05688c, 0x1f83d9ab, 0x5be0cd19⟩

/-- `n` further words of the schedule, the last word first. -/
def extend : Nat → List UInt32 → List UInt32
  | 0, words => words
  | n + 1, words => extend n <|
      (smallSigma1 (words.getD 1 0) + words.getD 6 0 + smallSigma0 (words.getD 14 0) +
        words.getD 15 0) :: words

def schedule (block : List UInt32) : List UInt32 := (extend 48 block.reverse).reverse

def State.round (s : State) (constant word : UInt32) : State :=
  let t₁ := s.h + bigSigma1 s.e + ch s.e s.f s.g + constant + word
  let t₂ := bigSigma0 s.a + maj s.a s.b s.c
  ⟨t₁ + t₂, s.a, s.b, s.c, s.d + t₁, s.e, s.f, s.g⟩

def State.add (s t : State) : State :=
  ⟨s.a + t.a, s.b + t.b, s.c + t.c, s.d + t.d, s.e + t.e, s.f + t.f, s.g + t.g, s.h + t.h⟩

def State.compress (s : State) (block : List UInt32) : State :=
  ((roundConstants.zip (schedule block)).foldl (fun t round => t.round round.1 round.2) s).add s

def State.bytes (s : State) : List UInt8 :=
  wordBytes s.a ++ wordBytes s.b ++ wordBytes s.c ++ wordBytes s.d ++ wordBytes s.e ++
    wordBytes s.f ++ wordBytes s.g ++ wordBytes s.h

def digest (message : List UInt8) : Vector UInt8 32 :=
  let words := pad message
  let final := (blocks (words.length / 16) words).foldl State.compress State.initial
  ⟨final.bytes.toArray, rfl⟩

example : Hex.encode (digest []).toList =
    "e3b0c44298fc1c149afbf4c8996fb92427ae41e4649b934ca495991b7852b855".toList := by
  decide +kernel

end Sha256
