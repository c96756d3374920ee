import Mathlib.Data.List.AList
import Mathlib.Data.PEquiv

/-!
# Association lists under a renaming of their keys

A partial injection renames the keys on which it is defined; the entries of the
other keys are dropped.  An insertion or an erasure of a key is one of its new
name, and has no effect when it has none.
-/

namespace Renaming

variable {α α' β : Type} (f : α ≃. α')

/-- The entry under its new name. -/
def renamedEntry (entry : Σ _ : α, β) : Option (Σ _ : α', β) :=
  (f entry.1).map fun name => ⟨name, entry.2⟩

variable {f} in
theorem renamedEntry_some {entry : Σ _ : α, β} {name : α'} (h : f entry.1 = some name) :
    renamedEntry f entry = some ⟨name, entry.2⟩ := by
  rw [renamedEntry, h, Option.map_some]

variable {f} in
theorem renamedEntry_none {entry : Σ _ : α, β} (h : f entry.1 = none) :
    renamedEntry f entry = none := by
  rw [renamedEntry, h, Option.map_none]

theorem keys_filterMap (entries : List (Σ _ : α, β)) :
    (entries.filterMap (renamedEntry f)).keys = entries.keys.filterMap f := by
  induction entries with
  | nil => rfl
  | cons entry entries ih =>
    cases hkey : f entry.1 with
    | none => simpa [renamedEntry_none hkey, hkey] using ih
    | some name => simpa [renamedEntry_some hkey, hkey] using ih

def rename (s : AList fun _ : α => β) : AList fun _ : α' => β where
  entries := s.entries.filterMap (renamedEntry f)
  nodupKeys := by
    have hnodup : (s.entries.keys.filterMap f).Nodup :=
      s.nodupKeys.filterMap fun _ _ _ hleft hright => f.inj hleft hright
    rwa [← keys_filterMap] at hnodup

variable {f} {key : α} {key' : α'} {s : AList fun _ : α => β}

theorem mem_entries_rename {body : β} :
    (⟨key', body⟩ : Σ _ : α', β) ∈ (rename f s).entries ↔
      ∃ key, f key = some key' ∧ (⟨key, body⟩ : Σ _ : α, β) ∈ s.entries := by
  simp only [rename, renamedEntry, List.mem_filterMap, Option.map_eq_some_iff]
  constructor
  · rintro ⟨⟨key, body'⟩, hmem, _, hkey, ⟨⟩⟩
    exact ⟨key, hkey, hmem⟩
  · rintro ⟨key, hkey, hmem⟩
    exact ⟨⟨key, body⟩, hmem, key', hkey, rfl⟩

section Lookup

variable [DecidableEq α] [DecidableEq α']

/-- A new name finds what its key has found. -/
theorem lookup_rename (h : f key = some key') : (rename f s).lookup key' = s.lookup key := by
  refine Option.ext fun body => ?_
  rw [← Option.mem_def, ← Option.mem_def, AList.mem_lookup_iff, AList.mem_lookup_iff,
    mem_entries_rename]
  constructor
  · rintro ⟨other, hother, hmem⟩
    exact f.inj hother h ▸ hmem
  · exact fun hmem => ⟨key, h, hmem⟩

theorem filterMap_kerase_some (h : f key = some key') (entries : List (Σ _ : α, β)) :
    (entries.kerase key).filterMap (renamedEntry f) =
      (entries.filterMap (renamedEntry f)).kerase key' := by
  induction entries with
  | nil => rfl
  | cons entry entries ih =>
    by_cases hkey : key = entry.1
    · have herase : ((⟨key', entry.2⟩ : Σ _ : α', β) :: entries.filterMap (renamedEntry f)).kerase
          key' = entries.filterMap (renamedEntry f) := List.kerase_cons_eq rfl
      rw [List.kerase_cons_eq hkey, List.filterMap_cons_some (renamedEntry_some (hkey ▸ h)), herase]
    · rw [List.kerase_cons_ne hkey]
      cases hname : f entry.1 with
      | none =>
        have hentry := renamedEntry_none hname
        rw [List.filterMap_cons_none hentry, List.filterMap_cons_none hentry, ih]
      | some name =>
        have hentry := renamedEntry_some hname
        have hne : key' ≠ name := by
          rintro rfl
          exact hkey (f.inj h hname)
        rw [List.filterMap_cons_some hentry, List.filterMap_cons_some hentry,
          List.kerase_cons_ne hne, ih]

omit [DecidableEq α'] in
theorem filterMap_kerase_none (h : f key = none) (entries : List (Σ _ : α, β)) :
    (entries.kerase key).filterMap (renamedEntry f) = entries.filterMap (renamedEntry f) := by
  induction entries with
  | nil => rfl
  | cons entry entries ih =>
    by_cases hkey : key = entry.1
    · rw [List.kerase_cons_eq hkey, List.filterMap_cons_none (renamedEntry_none (hkey ▸ h))]
    · rw [List.kerase_cons_ne hkey, List.filterMap_cons, List.filterMap_cons, ih]

theorem rename_erase (h : f key = some key') :
    rename f (s.erase key) = (rename f s).erase key' :=
  AList.ext (filterMap_kerase_some h s.entries)

omit [DecidableEq α'] in
theorem rename_erase_of_none (h : f key = none) : rename f (s.erase key) = rename f s :=
  AList.ext (filterMap_kerase_none h s.entries)

theorem rename_insert (h : f key = some key') (body : β) :
    rename f (s.insert key body) = (rename f s).insert key' body := by
  refine AList.ext ((List.filterMap_cons_some (renamedEntry_some h)).trans ?_)
  exact congrArg (List.cons _) (filterMap_kerase_some h s.entries)

omit [DecidableEq α'] in
theorem rename_insert_of_none (h : f key = none) (body : β) :
    rename f (s.insert key body) = rename f s :=
  AList.ext ((List.filterMap_cons_none (renamedEntry_none h)).trans
    (filterMap_kerase_none h s.entries))

end Lookup

end Renaming
