import Mathlib.Data.List.Infix
import Mathlib.Data.List.Nodup

/-!
# Lineages

A store of nodes in which every node may name a parent by key.  The lineage of
a key is the list of the nodes from a root, which has no parent, down to the
key's own node.  A key has at most one lineage, no key occurs in it twice, and
the lineages of its members are its prefixes.
-/

variable {K N : Type} {stored : K → N → Prop} {parent : N → Option K}

/-- `Lineage stored parent k path`: `path` is the lineage of `k`, root first,
    each node with the key under which it is stored. -/
inductive Lineage (stored : K → N → Prop) (parent : N → Option K) : K → List (K × N) → Prop where
  | root {k : K} {n : N} (hk : stored k n) (hn : parent n = none) :
      Lineage stored parent k [(k, n)]
  | child {k p : K} {n : N} {path : List (K × N)} (hk : stored k n) (hn : parent n = some p)
      (hpath : Lineage stored parent p path) : Lineage stored parent k (path ++ [(k, n)])

namespace Lineage

theorem exists_last {k : K} {path : List (K × N)} (h : Lineage stored parent k path) :
    ∃ pre n, path = pre ++ [(k, n)] ∧ stored k n := by
  cases h with
  | root hk hn => exact ⟨[], _, rfl, hk⟩
  | child hk hn hpath => exact ⟨_, _, rfl, hk⟩

theorem ne_nil {k : K} {path : List (K × N)} (h : Lineage stored parent k path) : path ≠ [] := by
  obtain ⟨pre, n, rfl, _⟩ := h.exists_last
  simp

theorem key_mem {k : K} {path : List (K × N)} (h : Lineage stored parent k path) :
    k ∈ path.map Prod.fst := by
  obtain ⟨pre, n, rfl, _⟩ := h.exists_last
  simp

/-- Every node of a lineage is stored under its key. -/
theorem stored_of_mem {k : K} {path : List (K × N)} (h : Lineage stored parent k path) :
    ∀ node ∈ path, stored node.1 node.2 := by
  induction h with
  | root hk hn =>
    intro node hmem
    rw [List.mem_singleton] at hmem
    exact hmem ▸ hk
  | child hk hn hpath ih =>
    intro node hmem
    rcases List.mem_append.mp hmem with hmem | hmem
    · exact ih node hmem
    · rw [List.mem_singleton] at hmem
      exact hmem ▸ hk

/-- The lineages of the members of a lineage are its prefixes. -/
theorem prefix_of_mem {k : K} {path : List (K × N)} (h : Lineage stored parent k path) :
    ∀ node ∈ path, ∃ pre, Lineage stored parent node.1 pre ∧ pre <+: path := by
  induction h with
  | root hk hn =>
    intro node hmem
    rw [List.mem_singleton] at hmem
    subst hmem
    exact ⟨_, root hk hn, List.prefix_refl _⟩
  | child hk hn hpath ih =>
    intro node hmem
    rcases List.mem_append.mp hmem with hmem | hmem
    · obtain ⟨pre, hpre, hinit⟩ := ih node hmem
      exact ⟨pre, hpre, hinit.trans (List.prefix_append _ _)⟩
    · rw [List.mem_singleton] at hmem
      subst hmem
      exact ⟨_, child hk hn hpath, List.prefix_refl _⟩

/-- Every member but the key itself is the parent of a member. -/
theorem child_of_ne {k : K} {path : List (K × N)} (h : Lineage stored parent k path) :
    ∀ node ∈ path, node.1 ≠ k → ∃ child ∈ path, parent child.2 = some node.1 := by
  induction h with
  | root hk hn =>
    intro node hmem hne
    rw [List.mem_singleton] at hmem
    exact absurd (hmem ▸ rfl) hne
  | @child k p n path hk hn hpath ih =>
    intro node hmem hne
    rcases List.mem_append.mp hmem with hmem | hmem
    · by_cases hp : node.1 = p
      · exact ⟨(k, n), by simp, hp ▸ hn⟩
      · obtain ⟨child, hchild, hparent⟩ := ih node hmem hp
        exact ⟨child, List.mem_append_left _ hchild, hparent⟩
    · rw [List.mem_singleton] at hmem
      exact absurd (hmem ▸ rfl) hne

/-- A store that agrees on the keys of a lineage has the same lineage. -/
theorem congr {stored' : K → N → Prop} {k : K} {path : List (K × N)}
    (h : Lineage stored parent k path)
    (hstored : ∀ node ∈ path, stored node.1 node.2 → stored' node.1 node.2) :
    Lineage stored' parent k path := by
  induction h with
  | root hk hn => exact root (hstored _ List.mem_cons_self hk) hn
  | child hk hn hpath ih =>
    apply child (hstored _ (List.mem_append_right _ List.mem_cons_self) hk) hn
    exact ih fun node hmem => hstored node (List.mem_append_left _ hmem)

/-- A store in which no key of a lineage has another node has no other lineage. -/
theorem eq_of_agree {stored' : K → N → Prop} {k : K} {path path' : List (K × N)}
    (h : Lineage stored parent k path) (h' : Lineage stored' parent k path')
    (hagree : ∀ node ∈ path, ∀ n, stored' node.1 n → n = node.2) : path' = path := by
  induction h generalizing path' with
  | @root k n hk hn =>
    cases h' with
    | root hk' hn' => rw [hagree (k, n) List.mem_cons_self _ hk']
    | child hk' hn' hpath' =>
      rw [hagree (k, n) List.mem_cons_self _ hk', hn] at hn'
      cases hn'
  | @child k p n path hk hn hpath ih =>
    have hlast : (k, n) ∈ path ++ [(k, n)] := List.mem_append_right _ List.mem_cons_self
    cases h' with
    | root hk' hn' =>
      rw [hagree _ hlast _ hk', hn] at hn'
      cases hn'
    | child hk' hn' hpath' =>
      obtain rfl := hagree _ hlast _ hk'
      obtain rfl := Option.some.inj (hn'.symm.trans hn)
      rw [ih hpath' fun node hmem => hagree node (List.mem_append_left _ hmem)]

/-- The node of a key is replaced: below it, a lineage continues as before. -/
theorem graft {stored' : K → N → Prop} {x k : K} {path path' : List (K × N)}
    (h : Lineage stored parent x path) (hx : x ≠ k) (hk : k ∈ path.map Prod.fst)
    (hstored : ∀ key n, key ≠ k → stored key n → stored' key n)
    (h' : Lineage stored' parent k path') :
    ∃ pre n post, path = pre ++ (k, n) :: post ∧ post ≠ [] ∧
      Lineage stored' parent x (path' ++ post) := by
  induction h with
  | @root x n hstored' hn => exact absurd (List.mem_singleton.mp hk).symm hx
  | @child x p n path hx' hn hpath ih =>
    rw [List.map_append, List.mem_append] at hk
    have hk := hk.resolve_right fun hmem => hx (List.mem_singleton.mp hmem).symm
    by_cases hp : p = k
    · subst hp
      obtain ⟨pre, n', rfl, _⟩ := hpath.exists_last
      exact ⟨pre, n', [(x, n)], by simp, by simp, child (hstored x n hx hx') hn h'⟩
    · obtain ⟨pre, n', post, rfl, _, hpost⟩ := ih hp hk
      refine ⟨pre, n', post ++ [(x, n)], by simp, by simp, ?_⟩
      rw [← List.append_assoc]
      exact child (hstored x n hx hx') hn hpost

section Functional

variable (hfun : ∀ k n n', stored k n → stored k n' → n = n')

include hfun

theorem unique {k : K} {path path' : List (K × N)} (h : Lineage stored parent k path)
    (h' : Lineage stored parent k path') : path = path' :=
  (h.eq_of_agree h' fun node hmem _ hn => hfun _ _ _ hn (h.stored_of_mem node hmem)).symm

/-- A key does not occur among its own ancestors: its lineage would be a proper
    prefix of itself. -/
theorem notMem_of_child {k p : K} {n : N} {path : List (K × N)} (hk : stored k n)
    (hn : parent n = some p) (hpath : Lineage stored parent p path) :
    k ∉ path.map Prod.fst := by
  intro hmem
  rcases List.mem_map.mp hmem with ⟨node, hnode, rfl⟩
  obtain ⟨pre, hpre, hinit⟩ := hpath.prefix_of_mem node hnode
  have heq := unique hfun hpre (child hk hn hpath)
  have hlen := hinit.length_le
  rw [heq, List.length_append, List.length_singleton] at hlen
  omega

theorem nodup {k : K} {path : List (K × N)} (h : Lineage stored parent k path) :
    (path.map Prod.fst).Nodup := by
  induction h with
  | root hk hn => simp
  | child hk hn hpath ih =>
    rw [List.map_append, List.nodup_append]
    refine ⟨ih, by simp, ?_⟩
    rintro key hkey _ hmem rfl
    obtain rfl : key = _ := List.mem_singleton.mp hmem
    exact notMem_of_child hfun hk hn hpath hkey

/-- The parent of a member is a member. -/
theorem parent_mem {k : K} {path : List (K × N)} (h : Lineage stored parent k path)
    {node : K × N} (hmem : node ∈ path) {p : K} (hp : parent node.2 = some p) :
    p ∈ path.map Prod.fst := by
  obtain ⟨pre, hpre, hinit⟩ := h.prefix_of_mem node hmem
  have hstored := h.stored_of_mem node hmem
  cases hpre with
  | root hk hn =>
    rw [hfun _ _ _ hstored hk, hn] at hp
    exact absurd hp (by simp)
  | child hk hn hpath =>
    rw [hfun _ _ _ hstored hk] at hp
    obtain rfl := Option.some.inj (hn.symm.trans hp)
    exact (hinit.map Prod.fst).subset (by simp [hpath.key_mem])

end Functional

end Lineage
