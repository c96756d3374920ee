import GraphqlOrmBackup.Backup

/-!
# Writing payloads

The loops that write one payload a table leave everything outside the
directory of their snapshot alone, and the entries they return describe the
blobs that are stored.
-/

namespace GraphqlOrmBackup

open Interaction

variable [Crates]

/-- What a run has written lies in the snapshot's directory, and its manifest is
    not among it. -/
structure WritesPayloads (snapshotId : Uuid) (w w' : World) : Prop where
  lookup : ∀ key, ¬ InSnapshotDir snapshotId key → w'.store.lookup key = w.store.lookup key
  puts : ∃ new, w'.puts = w.puts ++ new ∧ snapshotManifestKey snapshotId ∉ new

/-- The entry describes the stored payload of `entries`. -/
structure Describes {T : Type} [SerializeJson T] (s : Store) (key name : String)
    (entries : List T) (entry : TableBackupEntry) : Prop where
  tableName : entry.tableName = name
  rowCount : entry.rowCount = entries.length
  contentKey : entry.contentKey = key
  stored : ∃ bytes, serializeJsonlEntries entries = .ok bytes ∧
    s.lookup key = some bytes ∧ entry.sha256Hex = sha256Hex bytes

section

variable {T : Type} [SerializeJson T] {host : Host} {snapshotId : Uuid} {w w₁ w' : World}
  {key name : String} {entries : List T} {entry : TableBackupEntry}

omit [Crates] in
theorem WritesPayloads.refl (snapshotId : Uuid) (w : World) : WritesPayloads snapshotId w w :=
  ⟨fun _ _ => rfl, [], by simp, List.not_mem_nil⟩

omit [Crates] in
theorem WritesPayloads.put (h : WritesPayloads snapshotId w w₁)
    (hdir : InSnapshotDir snapshotId key) (hne : key ≠ snapshotManifestKey snapshotId)
    (body : Bytes) : WritesPayloads snapshotId w (w₁.put key body) := by
  rcases h with ⟨hlookup, new, hputs, hnew⟩
  refine ⟨fun key' hkey' => ?_, new ++ [key], ?_, ?_⟩
  · rw [World.put_store, Store.lookup_putBlob_of_ne]
    · exact hlookup key' hkey'
    · rintro rfl
      exact hkey' hdir
  · rw [World.put_puts, hputs, List.append_assoc]
  · rw [List.mem_append, List.mem_singleton, not_or]
    exact ⟨hnew, Ne.symm hne⟩

theorem Describes.mono {s s' : Store} (h : Describes s key name entries entry)
    (hkeep : s'.lookup key = s.lookup key) : Describes s' key name entries entry := by
  obtain ⟨bytes, hbytes, hlookup, hsha⟩ := h.stored
  exact ⟨h.tableName, h.rowCount, h.contentKey, bytes, hbytes, hkeep.trans hlookup, hsha⟩

theorem Describes.holdsBlob {s : Store} (h : Describes s key name entries entry) :
    HoldsBlob s entry.contentKey entry.sha256Hex := by
  obtain ⟨bytes, _, hlookup, hsha⟩ := h.stored
  exact ⟨bytes, h.contentKey ▸ hlookup, hsha.symm⟩

/-- One payload. -/
theorem wpE_writePayload {I : World → Prop} (hI : I w) (hput : ∀ body, I (w.put key body)) :
    wpE host.MayFail I (writePayload key name entries)
      (fun entry w' => (∃ body, w' = w.put key body) ∧ Describes w'.store key name entries entry)
      (fun _ _ => True) w := by
  refine wpE.seq (P := fun bytes w' => serializeJsonlEntries entries = .ok bytes ∧ w' = w)
    (wpE_ofExcept.mpr ⟨hI, ?_⟩) ?_
  · cases hbytes : serializeJsonlEntries entries with
    | ok bytes => exact ⟨rfl, rfl⟩
    | error e => trivial
  · rintro bytes w' - ⟨hbytes, rfl⟩
    apply wpE.seq (P := fun _ w'' => w'' = w'.put key bytes)
      (wpE_putBlob hI (fun _ _ _ => trivial) (hput bytes) rfl)
    rintro _ w'' hI' rfl
    exact ⟨hI', ⟨bytes, rfl⟩, rfl, rfl, rfl, bytes, hbytes, Store.lookup_putBlob_self _ _ _, rfl⟩

/-- **A loop of payload writes.**  If its keys differ, no payload replaces
    another one. -/
theorem wpE_writePayloads {γ : Type} {l : List γ} {key name : γ → String} {entries : γ → List T}
    (hdir : ∀ x, InSnapshotDir snapshotId (key x))
    (hne : ∀ x, key x ≠ snapshotManifestKey snapshotId) :
    wpE host.MayFail (WritesPayloads snapshotId w)
      (l.mapM' fun x => writePayload (key x) (name x) (entries x))
      (fun written w' => (l.map key).Nodup → List.Forall₂ (fun x entry =>
        Describes w'.store (key x) (name x) (entries x) entry) l written)
      (fun _ _ => True) w := by
  have hloop := wpE_mapM' (H := host.MayFail) (I := WritesPayloads snapshotId w)
    (E := fun _ _ => True) (f := fun x => writePayload (key x) (name x) (entries x))
    (P := fun written rest w' => ∃ done, l = done ++ rest ∧ ((l.map key).Nodup →
      List.Forall₂ (fun x entry => Describes w'.store (key x) (name x) (entries x) entry)
        done written))
    l [] ⟨[], rfl, fun _ => List.Forall₂.nil⟩ (WritesPayloads.refl _ _) ?_
  · refine hloop.mono ?_ fun _ _ _ _ => trivial
    rintro written w' - ⟨done, hdone, hwritten⟩
    rw [List.append_nil] at hdone
    exact hdone ▸ hwritten
  · rintro x written rest w' - hI ⟨done, rfl, hwritten⟩
    refine (wpE_writePayload hI fun body => hI.put (hdir x) (hne x) body).mono ?_
      fun _ _ _ _ => trivial
    rintro entry w'' - ⟨⟨body, rfl⟩, hentry⟩
    refine ⟨done ++ [x], by simp, fun hnodup => ?_⟩
    have hwritten := hwritten hnodup
    rw [List.map_append, List.map_cons] at hnodup
    have hold : ∀ y ∈ done, key y ≠ key x := fun y hy =>
      (List.nodup_append.mp hnodup).2.2 _ (List.mem_map_of_mem hy) _ List.mem_cons_self
    refine List.rel_append ?_ (List.Forall₂.cons hentry List.Forall₂.nil)
    refine ((List.forall₂_and_left _ _).mpr ⟨hold, hwritten⟩).imp fun y e ⟨hne, hdesc⟩ => ?_
    exact hdesc.mono (Store.lookup_putBlob_of_ne _ _ hne)

/-! ## Reading written payloads -/

/-- A described payload is loaded back. -/
theorem Describes.load [DeserializeJson T] (hzstd : ZstdLossless) {s : Store}
    {manifest : BackupSnapshotManifest} (h : Describes s key name entries entry)
    (hread : ∀ entry ∈ entries, ReadsBack entry)
    (hformat : manifest.database.exportFormat = DATABASE_EXPORT_FORMAT)
    (hcompression : manifest.database.compression = .zstd) :
    loadJsonlEntries s manifest entry = .ok entries := by
  obtain ⟨bytes, hbytes, hlookup, _⟩ := h.stored
  exact loadJsonlEntries_eq_ok hzstd hread hformat hcompression (h.contentKey ▸ hlookup) hbytes

theorem loadTableExports_of_describes (hzstd : ZstdLossless) {γ : Type} {l : List γ}
    {key name : γ → String} {rows : γ → List BackupRow} {s : Store}
    {manifest : BackupSnapshotManifest}
    (h : List.Forall₂ (fun x entry => Describes s (key x) (name x) (rows x) entry) l
      manifest.database.tables)
    (hread : ∀ x ∈ l, ∀ row ∈ rows x, ReadsBack row)
    (hformat : manifest.database.exportFormat = DATABASE_EXPORT_FORMAT)
    (hcompression : manifest.database.compression = .zstd) :
    loadTableExports s manifest = .ok (l.map fun x => ⟨name x, rows x⟩) := by
  rw [loadTableExports, mapM'_eq_ok]
  refine List.Forall₂.flip (List.forall₂_map_left_iff.mpr ?_)
  refine ((List.forall₂_and_left _ _).mpr ⟨hread, h⟩).imp fun x entry ⟨hx, hdesc⟩ => ?_
  refine bind_eq_ok.mpr ⟨rows x, hdesc.load hzstd hx hformat hcompression, ?_⟩
  rw [hdesc.tableName]
  rfl

theorem loadChangeExports_of_describes (hzstd : ZstdLossless) {γ : Type} {l : List γ}
    {key name : γ → String} {changes : γ → List BackupChangeExport} {s : Store}
    {manifest : BackupSnapshotManifest}
    (h : List.Forall₂ (fun x entry => Describes s (key x) (name x) (changes x) entry) l
      manifest.database.changes)
    (hread : ∀ x ∈ l, ∀ change ∈ changes x, ReadsBack change)
    (hformat : manifest.database.exportFormat = DATABASE_EXPORT_FORMAT)
    (hcompression : manifest.database.compression = .zstd) :
    loadChangeExports s manifest = .ok (l.flatMap changes) := by
  have hload : manifest.database.changes.mapM' (fun table => loadJsonlEntries s manifest table) =
      .ok (l.map changes) := by
    rw [mapM'_eq_ok]
    refine List.Forall₂.flip (List.forall₂_map_left_iff.mpr ?_)
    exact ((List.forall₂_and_left _ _).mpr ⟨hread, h⟩).imp fun x entry ⟨hx, hdesc⟩ =>
      hdesc.load hzstd hx hformat hcompression
  rw [loadChangeExports, hload, List.flatMap_def]
  rfl

omit [SerializeJson T] in
/-- Every loaded entry has been read from some document. -/
theorem exists_fromSlice_of_load [DeserializeJson T] {s : Store}
    {manifest : BackupSnapshotManifest} (h : loadJsonlEntries s manifest entry = .ok entries) :
    ∀ x ∈ entries, ∃ doc, DeserializeJson.fromSlice doc = .ok x := by
  intro x hx
  by_cases hformat : manifest.database.exportFormat = DATABASE_EXPORT_FORMAT
  · rw [loadJsonlEntries_of_format hformat, bind_eq_ok] at h
    rcases h with ⟨stored, _, h⟩
    rcases bind_eq_ok.mp h with ⟨payload, _, h⟩
    rw [parseJsonl, mapM'_eq_ok] at h
    obtain ⟨line, _, hline⟩ := forall₂_mem_right h x hx
    exact ⟨line, mapError_eq_ok.mp hline⟩
  · simp [loadJsonlEntries, hformat, bind, Except.bind, throw, throwThe, MonadExceptOf.throw] at h

/-- Loaded rows are not nested too deeply to be read once more. -/
theorem depth_le_of_loadTableExports (hrows : RowsReadBack) {s : Store}
    {manifest : BackupSnapshotManifest} {tables : List BackupTableExport}
    (h : loadTableExports s manifest = .ok tables) :
    ∀ table ∈ tables, ∀ row ∈ table.rows, row.depth ≤ Crates.recursionLimit := by
  intro table htable row hrow
  rw [loadTableExports, mapM'_eq_ok] at h
  obtain ⟨entry, _, hentry⟩ := forall₂_mem_right h table htable
  rcases bind_eq_ok.mp hentry with ⟨rows, hload, hpure⟩
  obtain rfl := Except.ok.inj hpure
  obtain ⟨doc, hdoc⟩ := exists_fromSlice_of_load hload row hrow
  exact hrows.depth_le doc row hdoc

theorem depth_le_of_loadChangeExports (hchanges : ChangesReadBack) {s : Store}
    {manifest : BackupSnapshotManifest} {changes : List BackupChangeExport}
    (h : loadChangeExports s manifest = .ok changes) :
    ∀ change ∈ changes, change.depth ≤ Crates.recursionLimit := by
  intro change hchange
  rcases bind_eq_ok.mp h with ⟨lists, hlists, hpure⟩
  obtain rfl := Except.ok.inj hpure
  rcases List.mem_flatten.mp hchange with ⟨list, hlist, hchange⟩
  rw [mapM'_eq_ok] at hlists
  obtain ⟨entry, _, hload⟩ := forall₂_mem_right hlists list hlist
  obtain ⟨doc, hdoc⟩ := exists_fromSlice_of_load hload change hchange
  exact hchanges.depth_le doc change hdoc

end

end GraphqlOrmBackup
