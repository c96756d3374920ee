import GraphqlOrmBackup.Hex
import Mathlib.Data.List.Lex

/-!
# UUIDs

The part of the `uuid` crate the program uses: a UUID is its sixteen bytes,
`Display` writes the lower-case hyphenated form, `parse_str` reads the simple,
hyphenated, braced and URN forms in either case, and `cmp` compares the bytes.
-/

namespace GraphqlOrmBackup

structure Uuid where
  bytes : Vector UInt8 16
deriving DecidableEq

namespace Uuid

def ofBytes? (bytes : List UInt8) : Option Uuid :=
  if h : bytes.length = 16 then some ⟨⟨bytes.toArray, by simpa using h⟩⟩ else none

/-- The 32 digits of the simple form with hyphens after the 8th, 12th, 16th
    and 20th. -/
def hyphenate (d : List Char) : List Char :=
  d.take 8 ++ '-' :: ((d.drop 8).take 4 ++ '-' :: ((d.drop 12).take 4 ++
    '-' :: ((d.drop 16).take 4 ++ '-' :: d.drop 20)))

def toChars (id : Uuid) : List Char := hyphenate (Hex.encode id.bytes.toList)

instance : ToString Uuid where
  toString id := String.ofList id.toChars

def parseSimple (s : List Char) : Option Uuid := do
  let bytes ← Hex.decode? s
  ofBytes? bytes

def parseHyphenated (s : List Char) : Option Uuid :=
  if s[8]? = some '-' ∧ s[13]? = some '-' ∧ s[18]? = some '-' ∧ s[23]? = some '-' then
    parseSimple (s.take 8 ++ (s.drop 9).take 4 ++ (s.drop 14).take 4 ++
      (s.drop 19).take 4 ++ s.drop 24)
  else none

/-- `Uuid::parse_str`.  The crate compares byte lengths; an input with a
    multi-byte character is refused by both, as it is no hexadecimal digit. -/
def parseStr (s : List Char) : Option Uuid :=
  if s.length = 32 then parseSimple s
  else if s.length = 36 then parseHyphenated s
  else if s.length = 38 ∧ s.head? = some '{' ∧ s.getLast? = some '}' then
    parseHyphenated ((s.drop 1).take 36)
  else if s.length = 45 ∧ s.take 9 = "urn:uuid:".toList then parseHyphenated (s.drop 9)
  else none

/-- The key of the derived `Ord`: the bytes in order. -/
def ordKey (id : Uuid) : List Nat := id.bytes.toList.map UInt8.toNat

theorem ordKey_injective : Function.Injective ordKey := by
  intro left right heq
  have hbytes : left.bytes.toList = right.bytes.toList :=
    (List.map_injective_iff.mpr fun _ _ h => UInt8.toNat_inj.mp h) heq
  cases left
  cases right
  simpa using Vector.toList_inj.mp hbytes

theorem ofBytes?_bytes (id : Uuid) : ofBytes? id.bytes.toList = some id := by
  rcases id with ⟨⟨arr, harr⟩⟩
  simp [ofBytes?, harr]

theorem length_hyphenate {d : List Char} (h : d.length = 32) : (hyphenate d).length = 36 := by
  simp [hyphenate, h]

@[simp] theorem length_toChars (id : Uuid) : id.toChars.length = 36 :=
  length_hyphenate (by simp)

@[simp] theorem toList_toString (id : Uuid) : (toString id).toList = id.toChars :=
  String.toList_ofList

theorem mem_hyphenate {c : Char} {d : List Char} (h : c ∈ hyphenate d) : c = '-' ∨ c ∈ d := by
  have hsub : ∀ n m, c ∈ (d.drop n).take m → c ∈ d := fun n m h =>
    List.mem_of_mem_drop (List.mem_of_mem_take h)
  simp only [hyphenate, List.mem_append, List.mem_cons] at h
  rcases h with h | h | h | h | h | h | h | h | h
  · exact Or.inr (List.mem_of_mem_take h)
  · exact Or.inl h
  · exact Or.inr (hsub 8 4 h)
  · exact Or.inl h
  · exact Or.inr (hsub 12 4 h)
  · exact Or.inl h
  · exact Or.inr (hsub 16 4 h)
  · exact Or.inl h
  · exact Or.inr (List.mem_of_mem_drop h)

/-- The text form is lower-case digits and hyphens. -/
theorem mem_toChars {c : Char} {id : Uuid} (h : c ∈ id.toChars) : c = '-' ∨ c ∈ Hex.digits :=
  (mem_hyphenate h).imp_right Hex.mem_encode

theorem slash_notMem_toChars (id : Uuid) : '/' ∉ id.toChars := fun h =>
  absurd (mem_toChars h) (by decide)

theorem lower_of_mem_toChars {c : Char} {id : Uuid} (h : c ∈ id.toChars) :
    ¬ ('A' ≤ c ∧ c ≤ 'F') := by
  have hcode : ∀ c ∈ '-' :: Hex.digits, c.toNat < 'A'.toNat ∨ 'F'.toNat < c.toNat := by
    simp [Hex.digits]
  rintro ⟨hge, hle⟩
  have hge : 'A'.toNat ≤ c.toNat := hge
  have hle : c.toNat ≤ 'F'.toNat := hle
  have hc := hcode c (List.mem_cons.mpr (mem_toChars h))
  omega

/-- Taking the hyphens out again gives the digits back. -/
theorem parseHyphenated_hyphenate {d : List Char} (h : d.length = 32) :
    parseHyphenated (hyphenate d) = parseSimple d := by
  match d, h with
  | [a0, a1, a2, a3, a4, a5, a6, a7, b0, b1, b2, b3, c0, c1, c2, c3, d0, d1, d2, d3,
      e0, e1, e2, e3, e4, e5, e6, e7, e8, e9, e10, e11], _ => rfl

@[simp] theorem parseStr_toChars (id : Uuid) : parseStr id.toChars = some id := by
  have hsimple : parseSimple (Hex.encode id.bytes.toList) = some id := by
    simp [parseSimple, ofBytes?_bytes]
  rw [parseStr, if_neg (by simp), if_pos (by simp), toChars,
    parseHyphenated_hyphenate (by simp), hsimple]

theorem toChars_injective : Function.Injective toChars := by
  intro left right heq
  have h := parseStr_toChars left
  rw [heq, parseStr_toChars] at h
  exact (Option.some.inj h).symm

theorem toList_bytes_of_parseSimple {s : List Char} {id : Uuid} (h : parseSimple s = some id) :
    Hex.decode? s = some id.bytes.toList := by
  rcases Option.bind_eq_some_iff.mp h with ⟨bytes, hbytes, hid⟩
  rw [ofBytes?] at hid
  split at hid
  · cases hid
    simpa using hbytes
  · cases hid

/-- Putting the hyphens in again gives the text back. -/
theorem hyphenate_unhyphenated {s : List Char} (hlength : s.length = 36)
    (hyphens : s[8]? = some '-' ∧ s[13]? = some '-' ∧ s[18]? = some '-' ∧ s[23]? = some '-') :
    hyphenate (s.take 8 ++ (s.drop 9).take 4 ++ (s.drop 14).take 4 ++ (s.drop 19).take 4 ++
      s.drop 24) = s := by
  match s, hlength, hyphens with
  | a0 :: a1 :: a2 :: a3 :: a4 :: a5 :: a6 :: a7 :: [h0, b0, b1, b2, b3, h1, c0, c1, c2, c3,
      h2, d0, d1, d2, d3, h3, e0, e1, e2, e3, e4, e5, e6, e7, e8, e9, e10, e11], _, hyphens =>
    simp only [List.getElem?_cons_succ, List.getElem?_cons_zero, Option.some.injEq] at hyphens
    obtain ⟨rfl, rfl, rfl, rfl⟩ := hyphens
    rfl

theorem exists_of_parseHyphenated {s : List Char} {id : Uuid} (hlength : s.length = 36)
    (h : parseHyphenated s = some id) :
    ∃ d, hyphenate d = s ∧ parseSimple d = some id ∧ d ⊆ s := by
  rw [parseHyphenated] at h
  split at h
  · next hyphens =>
    refine ⟨_, ?_, h, ?_⟩
    · exact hyphenate_unhyphenated hlength hyphens
    · intro c hc
      simp only [List.mem_append] at hc
      rcases hc with (((hc | hc) | hc) | hc) | hc
      · exact List.mem_of_mem_take hc
      · exact List.mem_of_mem_drop (List.mem_of_mem_take hc)
      · exact List.mem_of_mem_drop (List.mem_of_mem_take hc)
      · exact List.mem_of_mem_drop (List.mem_of_mem_take hc)
      · exact List.mem_of_mem_drop hc
  · cases h

/-- **The one text that is written** among those that are read: the hyphenated
    form in lower case. -/
theorem toChars_eq_iff {s : List Char} {id : Uuid} (h : parseStr s = some id) :
    id.toChars = s ↔ s.length = 36 ∧ ∀ c ∈ s, ¬ ('A' ≤ c ∧ c ≤ 'F') := by
  constructor
  · intro heq
    rw [← heq]
    exact ⟨length_toChars id, fun c => lower_of_mem_toChars⟩
  · intro hform
    rcases hform with ⟨hlength, hlower⟩
    rw [parseStr, if_neg (by omega), if_pos hlength] at h
    obtain ⟨d, hyphenated, hsimple, hsub⟩ := exists_of_parseHyphenated hlength h
    have hdigits : Hex.encode id.bytes.toList = d :=
      Hex.encode_of_decode? (toList_bytes_of_parseSimple hsimple) fun c hc => hlower c (hsub hc)
    rw [toChars, hdigits, hyphenated]

end Uuid

end GraphqlOrmBackup
