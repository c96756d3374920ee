import GraphqlOrmBackup.Environment

/-!
# How deep a payload may nest

The writer of a payload takes values of any depth; the reader takes documents
up to the recursion limit of `serde_json`.  A payload that is written is read
back exactly if all its entries are within that limit.
-/

namespace GraphqlOrmBackup

open Interaction Json

/-- An entry that is parsed has been read from one of the lines. -/
theorem exists_of_parseJsonl {T : Type} [DeserializeJson T] {payload : Bytes} {entries : List T}
    (h : parseJsonl payload = .ok entries) {entry : T} (hmem : entry ∈ entries) :
    ∃ line ∈ payloadLines payload, DeserializeJson.fromSlice line = .ok entry := by
  rw [parseJsonl, mapM'_eq_ok] at h
  rcases forall₂_mem_right h entry hmem with ⟨line, hline, hparse⟩
  exact ⟨line, hline, mapError_eq_ok.mp hparse⟩

/-- A payload that is written is read back if and only if each of its entries is
    one that the reader takes. -/
theorem parseJsonl_of_serializeJsonlEntries_iff {T : Type} [Zstd] [SerializeJson T]
    [DeserializeJson T] (hzstd : ZstdLossless) {Taken : T → Prop} {entries : List T} {bytes : Bytes}
    (hread : ∀ entry ∈ entries, Taken entry → ReadsBack entry)
    (htaken : ∀ doc (entry : T), DeserializeJson.fromSlice doc = .ok entry → Taken entry)
    (h : serializeJsonlEntries entries = .ok bytes) :
    (decompressPayload bytes >>= parseJsonl) = Except.ok entries ↔
      ∀ entry ∈ entries, Taken entry := by
  constructor
  · intro hback entry hmem
    rcases bind_eq_ok.mp hback with ⟨payload, -, hparse⟩
    rcases exists_of_parseJsonl hparse hmem with ⟨line, -, hline⟩
    exact htaken line entry hline
  · intro hall
    exact parseJsonl_of_serializeJsonlEntries hzstd
      (fun entry hmem => hread entry hmem (hall entry hmem)) h

/-- **Payloads are read back** if and only if no row and no change is nested
    beyond the recursion limit. -/
theorem payloads_read_back_iff [Crates] (hzstd : ZstdLossless) (hrows : RowsReadBack)
    (hchanges : ChangesReadBack) :
    (∀ (rows : List BackupRow) bytes, (∀ row ∈ rows, row.ReadsFloats) →
      serializeJsonlEntries rows = .ok bytes →
      ((decompressPayload bytes >>= parseJsonl) = Except.ok rows ↔
        ∀ row ∈ rows, row.depth ≤ Crates.recursionLimit)) ∧
    (∀ (changes : List BackupChangeExport) bytes,
      (∀ change ∈ changes, ∀ row, change.row = some row → row.ReadsFloats) →
      serializeJsonlEntries changes = .ok bytes →
      ((decompressPayload bytes >>= parseJsonl) = Except.ok changes ↔
        ∀ change ∈ changes, change.depth ≤ Crates.recursionLimit)) := by
  constructor
  · intro rows bytes hfloats h
    have hread : ∀ row ∈ rows, row.depth ≤ Crates.recursionLimit → ReadsBack row := by
      intro row hmem hdepth
      exact hrows.readsBack row ⟨hdepth, hfloats row hmem⟩
    exact parseJsonl_of_serializeJsonlEntries_iff hzstd hread hrows.depth_le h
  · intro changes bytes hfloats h
    have hread : ∀ change ∈ changes, change.depth ≤ Crates.recursionLimit → ReadsBack change := by
      intro change hmem hdepth
      exact hchanges.readsBack change ⟨hdepth, hfloats change hmem⟩
    exact parseJsonl_of_serializeJsonlEntries_iff hzstd hread hchanges.depth_le h

/-! ## A row that is nested too deeply -/

section Deep

open Reference

/-- A list in a list, so many times. -/
def nested : Nat → Value
  | 0 => .array []
  | n + 1 => .array [nested n]

/-- A note with a column that nests 129 lists. -/
def deepNote : BackupRow where
  tableName := "notes"
  primaryKey := "2"
  rowHash := "x"
  values := Map.empty.insert "tags" (.read (nested 128))

def deepPayload : Bytes := (serializeJsonlEntries [deepNote]).toOption.getD []

theorem serializeJsonlEntries_deepNote : serializeJsonlEntries [deepNote] = .ok deepPayload :=
  serializeJsonlEntries_of_isOk (by decide +kernel)

theorem payloads_read_back_iff_notes :
    (decompressPayload notesPayload >>= parseJsonl) = Except.ok [note] ∧
    (decompressPayload deepPayload >>= parseJsonl) ≠ Except.ok [deepNote] := by
  obtain ⟨hback, -⟩ := payloads_read_back_iff cratesReadBack.zstd rowsReadBack changesReadBack
  have hnote : note.ReadsFloats := readsFloats_of_nil rfl
  have hdeep : deepNote.ReadsFloats := readsFloats_of_nil (by decide +kernel)
  constructor
  · refine (hback [note] notesPayload (List.forall_mem_singleton.mpr hnote)
      serializeTableExport_notes).mpr ?_
    rw [List.forall_mem_singleton]
    decide
  · rw [ne_eq, hback [deepNote] deepPayload (List.forall_mem_singleton.mpr hdeep)
      serializeJsonlEntries_deepNote, List.forall_mem_singleton]
    decide +kernel

/-- The note is written, and is not what is read. -/
theorem deep_note_is_not_read_back :
    serializeJsonlEntries [deepNote] = .ok deepPayload ∧
    (decompressPayload deepPayload >>= parseJsonl) ≠ Except.ok [deepNote] := by
  refine ⟨serializeJsonlEntries_deepNote, ?_⟩
  intro hback
  rcases bind_eq_ok.mp hback with ⟨payload, -, hparse⟩
  rcases exists_of_parseJsonl hparse List.mem_cons_self with ⟨line, -, hline⟩
  have hdepth : ¬ deepNote.depth ≤ Crates.recursionLimit := by decide +kernel
  exact hdepth (rowsReadBack.depth_le line deepNote hline)

end Deep

end GraphqlOrmBackup
