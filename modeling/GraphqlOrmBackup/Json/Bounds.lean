import GraphqlOrmBackup.Json.Map
import GraphqlOrmBackup.Json.RoundTrip

/-!
# Bounds of JSON documents

A parsed value is nested as deeply as the parser was allowed to go, at most.
A compact document is one line.
-/

namespace Json

/-! ## Depth -/

section

variable {α : Type} {last : Char} {item : Parser α} {P : α → Prop}

/-- What holds of every item that is read holds of the items of a container. -/
theorem forall_parseItems (h : ∀ cs x rest, item cs = some (x, rest) → P x) {n : Nat}
    {cs rest : List Char} {xs : List α} (hparse : parseItems last item n cs = some (xs, rest)) :
    ∀ x ∈ xs, P x := by
  induction n generalizing cs xs with
  | zero => cases hparse
  | succ n ih =>
    simp only [parseItems, Option.bind_eq_bind, Option.bind_eq_some_iff] at hparse
    rcases hparse with ⟨⟨x, cs'⟩, hitem, hparse⟩
    have hx := h cs x cs' hitem
    split at hparse
    · split at hparse
      · cases hparse
        exact List.forall_mem_singleton.mpr hx
      · split at hparse
        · rcases Option.map_eq_some_iff.mp hparse with ⟨⟨xs', rest'⟩, hrest, heq⟩
          cases heq
          exact List.forall_mem_cons.mpr ⟨hx, ih hrest⟩
        · cases hparse
    · cases hparse

theorem forall_parseContainer (h : ∀ cs x rest, item cs = some (x, rest) → P x)
    {cs rest : List Char} {xs : List α} (hparse : parseContainer last item cs = some (xs, rest)) :
    ∀ x ∈ xs, P x := by
  rw [parseContainer] at hparse
  split at hparse
  · cases hparse
  · split at hparse
    · cases hparse
      simp
    · exact forall_parseItems h hparse

theorem forall_parseField {value : Parser α} (h : ∀ cs x rest, value cs = some (x, rest) → P x) :
    ∀ cs field rest, parseField value cs = some (field, rest) → P field.2 := by
  intro cs field rest hparse
  rw [parseField] at hparse
  split at hparse
  · simp only [Option.bind_eq_bind, Option.bind_eq_some_iff] at hparse
    rcases hparse with ⟨⟨name, cs'⟩, _, hparse⟩
    split at hparse
    · rcases Option.map_eq_some_iff.mp hparse with ⟨⟨x, rest'⟩, hvalue, heq⟩
      cases heq
      exact h _ _ _ hvalue
    · cases hparse
  · cases hparse

end

theorem depth_of_parseScalar {cs rest : List Char} {value : Value}
    (h : parseScalar cs = some (value, rest)) : value.depth = 0 := by
  rw [parseScalar.eq_def] at h
  split at h
  · cases h
    rfl
  · cases h
    rfl
  · cases h
    rfl
  · rcases Option.map_eq_some_iff.mp h with ⟨_, _, heq⟩
    cases heq
    rfl
  · rcases Option.map_eq_some_iff.mp h with ⟨_, _, heq⟩
    cases heq
    rfl

theorem depth_le_of_parseValue {limit : Nat} : ∀ cs value rest,
    parseValue limit cs = some (value, rest) → value.depth ≤ limit := by
  induction limit with
  | zero =>
    intro cs value rest h
    exact Nat.le_of_eq (depth_of_parseScalar h)
  | succ limit ih =>
    intro cs value rest h
    rw [parseValue] at h
    split at h
    · rcases Option.map_eq_some_iff.mp h with ⟨⟨items, rest'⟩, hitems, heq⟩
      cases heq
      exact Nat.succ_le_succ (depthItems_le_iff.mpr (forall_parseContainer ih hitems))
    · rcases Option.map_eq_some_iff.mp h with ⟨⟨fields, rest'⟩, hfields, heq⟩
      cases heq
      exact Nat.succ_le_succ
        (depthFields_le_iff.mpr (forall_parseContainer (forall_parseField ih) hfields))
    · exact Nat.le_trans (Nat.le_of_eq (depth_of_parseScalar h)) (Nat.zero_le _)

/-- **What is parsed is not nested more deeply than the limit.** -/
theorem depth_le_of_parse {limit : Nat} {cs : List Char} {value : Value}
    (h : parse limit cs = some value) : value.depth ≤ limit := by
  rw [parse] at h
  split at h
  · next hvalue =>
    split at h
    · cases h
      exact depth_le_of_parseValue _ _ _ hvalue
    · cases h
  · cases h

mutual

/-- Collecting the fields of objects nests nothing deeper. -/
theorem Value.depth_collect_le : ∀ value : Value, value.collect.depth ≤ value.depth
  | .null | .bool _ | .number _ | .string _ => Nat.le_refl _
  | .array items => Nat.succ_le_succ (depthItems_collect_le items)
  | .object fields => Nat.succ_le_succ (depthFields_le_iff.mpr fun _ hmem =>
      depthFields_le_iff.mp (depthFields_collect_le fields) _ (mem_collectFields hmem))

theorem depthItems_collect_le :
    ∀ items : List Value, depthItems (collectItems items) ≤ depthItems items
  | [] => Nat.le_refl _
  | item :: items => by
    have hitem := item.depth_collect_le
    have hitems := depthItems_collect_le items
    rw [collectItems, depthItems, depthItems]
    omega

theorem depthFields_collect_le :
    ∀ fields : List (String × Value), depthFields (collectValues fields) ≤ depthFields fields
  | [] => Nat.le_refl _
  | (_, value) :: fields => by
    have hvalue := value.depth_collect_le
    have hfields := depthFields_collect_le fields
    rw [collectValues, depthFields, depthFields]
    omega

end

theorem Map.depth_read_le (fields : List (String × Value)) :
    depthFields (Map.read fields).document ≤ depthFields fields := by
  refine depthFields_le_iff.mpr fun field hmem => ?_
  obtain ⟨value, hvalue, hfield⟩ := Map.mem_document_read hmem
  rw [hfield]
  exact Nat.le_trans value.depth_collect_le (depthFields_le_iff.mp (Nat.le_refl _) _ hvalue)

/-! ## Compact documents -/

theorem newLine_notMem_escape (c : Char) : '\n' ∉ escape c := by
  have hshort : ∀ short ∈ shortEscapes, short.1 ≠ '\n' := by decide
  rw [escape]
  cases hfind : shortEscapes.find? (fun short => short.2 = c) with
  | some short =>
    have := hshort short (List.mem_of_find?_eq_some hfind)
    simp [this.symm]
  | none =>
    have hnot : '\n' ≠ c := by
      have hall := List.find?_eq_none.mp hfind ('n', '\n') (by decide)
      simpa using hall
    by_cases h : c.toNat < 32
    · have hdigits : '\n' ∉ Hex.byte (UInt8.ofNat c.toNat) := by
        intro hmem
        have hmem' : '\n' ∈ Hex.encode [UInt8.ofNat c.toNat] := by simpa [Hex.encode] using hmem
        exact absurd (Hex.mem_encode hmem') (by decide)
      simp [if_pos h, hdigits]
    · simp [if_neg h, hnot]

theorem newLine_notMem_writeString (s : String) : '\n' ∉ writeString s := by
  have hchars : '\n' ∉ s.toList.flatMap escape := fun hmem => by
    rcases List.mem_flatMap.mp hmem with ⟨c, _, hc⟩
    exact newLine_notMem_escape c hc
  simp [writeString, hchars]

theorem newLine_notMem_decimalNat (n : Nat) : '\n' ∉ Text.decimalNat n := fun hmem =>
  absurd (Text.isDigit_of_mem_decimalNat hmem) (by decide)

theorem newLine_notMem_decimal (n : Int) : '\n' ∉ Text.decimal n := by
  cases n with
  | ofNat n => exact newLine_notMem_decimalNat n
  | negSucc n => simp [Text.decimal, newLine_notMem_decimalNat]

theorem newLine_notMem_number (n : Number) : '\n' ∉ n.write := by
  have hfraction : '\n' ∉ n.lexeme.fraction := fun hmem =>
    absurd (isDigit_fraction_lexeme n _ hmem) (by decide)
  have hsign : '\n' ∉ if n.lexeme.negative then ['-'] else [] := by
    split <;> simp
  have hpoint : '\n' ∉ if n.lexeme.fraction = [] then [] else '.' :: n.lexeme.fraction := by
    split
    · simp
    · simp [hfraction]
  rw [Number.write, Lexeme.write]
  cases n.lexeme.exponent with
  | none => simp [newLine_notMem_decimalNat, hsign, hpoint]
  | some e => simp [newLine_notMem_decimalNat, newLine_notMem_decimal, hsign, hpoint]

theorem newLine_notMem_joinLines {texts : List (List Char)} (h : ∀ text ∈ texts, '\n' ∉ text) :
    '\n' ∉ joinLines [] texts := by
  induction texts with
  | nil => simp [joinLines]
  | cons text texts ih =>
    rw [List.forall_mem_cons] at h
    cases texts with
    | nil => simpa [joinLines] using h.1
    | cons text' texts => simp [joinLines, h.1, ih h.2]

theorem newLine_notMem_container {level : Nat} {first last : Char} {texts : List (List Char)}
    (hfirst : '\n' ≠ first) (hlast : '\n' ≠ last) (h : ∀ text ∈ texts, '\n' ∉ text) :
    '\n' ∉ Style.compact.container level first last texts := by
  have hjoin := newLine_notMem_joinLines h
  cases texts with
  | nil => simp [Style.container, hfirst, hlast]
  | cons text texts => simp [Style.container, Style.newLine, hfirst, hlast, hjoin]

mutual

theorem newLine_notMem_write (level : Nat) : ∀ value : Value, '\n' ∉ value.write .compact level
  | .null => show '\n' ∉ "null".toList by decide
  | .bool true => show '\n' ∉ "true".toList by decide
  | .bool false => show '\n' ∉ "false".toList by decide
  | .number n => newLine_notMem_number n
  | .string s => newLine_notMem_writeString s
  | .array items => newLine_notMem_container (by decide) (by decide)
      (newLine_notMem_writeItems (level + 1) items)
  | .object fields => newLine_notMem_container (by decide) (by decide)
      (newLine_notMem_writeFields (level + 1) fields)

theorem newLine_notMem_writeItems (level : Nat) : ∀ items : List Value,
    ∀ text ∈ writeItems .compact level items, '\n' ∉ text
  | [] => nofun
  | item :: items => List.forall_mem_cons.mpr
      ⟨newLine_notMem_write level item, newLine_notMem_writeItems level items⟩

theorem newLine_notMem_writeFields (level : Nat) : ∀ fields : List (String × Value),
    ∀ text ∈ writeFields .compact level fields, '\n' ∉ text
  | [] => nofun
  | (name, value) :: fields => List.forall_mem_cons.mpr ⟨by
      simp [Style.colon, newLine_notMem_writeString, newLine_notMem_write level value],
      newLine_notMem_writeFields level fields⟩

end

end Json
