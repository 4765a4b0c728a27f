import CommitVerdict.Tree
import Mathlib.Data.List.Basic
import Mathlib.Data.List.Nodup

namespace CommitVerdict

namespace Path

theorem not_lt_of_isPrefix {p q : Path} (hbelow : p <+: q) : ¬ q < p := by
  induction p generalizing q with
  | nil => exact List.not_lt_nil q
  | cons name p ih =>
    cases q with
    | nil => simp at hbelow
    | cons other q =>
      obtain ⟨rfl, htail⟩ := List.cons_prefix_cons.mp hbelow
      rw [List.cons_lt_cons_iff]
      rintro (hlt | ⟨-, hlt⟩)
      · exact String.lt_irrefl name hlt
      · exact ih htail hlt

theorem lt_or_lt_of_ne {p q : Path} (hne : p ≠ q) : p < q ∨ q < p := by
  by_cases hlt : p < q
  · exact .inl hlt
  · by_cases hgt : q < p
    · exact .inr hgt
    · exact absurd (List.le_antisymm (List.not_lt.mp hgt) (List.not_lt.mp hlt)) hne

theorem conflicts_iff {p q : Path} : conflicts p q = true ↔ p <+: q ∨ q <+: p := by
  simp [conflicts]

theorem conflicts_comm (p q : Path) : conflicts p q = conflicts q p := by
  simp only [conflicts, Bool.or_comm]

/-- What lies below a path conflicts with nothing else than the path itself does. -/
theorem conflicts_of_isPrefix {p q r : Path} (hbelow : p <+: q) (hconflict : conflicts r q = true) :
    conflicts r p = true := by
  rw [conflicts_iff] at hconflict ⊢
  rcases hconflict with h | h
  · exact List.prefix_or_prefix_of_prefix h hbelow
  · exact .inr (hbelow.trans h)

@[simp]
theorem conflicts_self (p : Path) : conflicts p p = true := by
  simp [conflicts]

end Path

namespace Tree

variable {α β : Type}

/-- A path has at most one leaf. -/
theorem leaf_unique (t : Tree α) {p : Path} {a b : α} (ha : (p, a) ∈ t.leaves)
    (hb : (p, b) ∈ t.leaves) : a = b := by
  rcases related t.ordered ha hb with heq | h | h
  · exact (Prod.mk.inj heq).2
  · exact absurd h.1 (List.lt_irrefl p)
  · exact absurd h.1 (List.lt_irrefl p)

/-- Two leaves at different paths do not stand in each other's way. -/
theorem not_conflicts_of_ne (t : Tree α) {p q : Path} {a b : α} (ha : (p, a) ∈ t.leaves)
    (hb : (q, b) ∈ t.leaves) (hne : p ≠ q) : Path.conflicts p q = false := by
  have apart {x y : Path × α} (h : LeafOrder x y) : Path.conflicts x.1 y.1 = false := by
    simp only [Path.conflicts, Bool.or_eq_false_iff]
    refine ⟨h.2, ?_⟩
    by_contra hbegins
    rw [Bool.not_eq_false, List.isPrefixOf_iff_prefix] at hbegins
    exact Path.not_lt_of_isPrefix hbegins h.1
  rcases related t.ordered ha hb with heq | h | h
  · exact absurd (Prod.mk.inj heq).1 hne
  · exact apart h
  · rw [Path.conflicts_comm]
    exact apart h

theorem get?_eq_some_iff {t : Tree α} {p : Path} {a : α} :
    t.get? p = some a ↔ (p, a) ∈ t.leaves := by
  unfold get?
  rw [Option.map_eq_some_iff]
  constructor
  · rintro ⟨⟨q, b⟩, hfind, rfl⟩
    have hq : q = p := by simpa using List.find?_some hfind
    exact hq ▸ List.mem_of_find?_eq_some hfind
  · intro hmem
    cases hfind : t.leaves.find? fun leaf => leaf.1 == p with
    | none => simpa using List.find?_eq_none.mp hfind _ hmem
    | some leaf =>
      obtain ⟨q, b⟩ := leaf
      have hq : q = p := by simpa using List.find?_some hfind
      subst q
      exact ⟨(p, b), rfl, t.leaf_unique (List.mem_of_find?_eq_some hfind) hmem⟩

theorem get?_isSome_iff {t : Tree α} {p : Path} :
    (t.get? p).isSome = true ↔ p ∈ t.paths := by
  simp only [Option.isSome_iff_exists, get?_eq_some_iff, paths, List.mem_map]
  constructor
  · rintro ⟨a, hmem⟩
    exact ⟨(p, a), hmem, rfl⟩
  · rintro ⟨⟨q, a⟩, hmem, rfl⟩
    exact ⟨a, hmem⟩

theorem leaves_nodup (t : Tree α) : t.leaves.Nodup := by
  refine t.ordered.imp fun {x y} h hxy => ?_
  subst hxy
  exact List.lt_irrefl x.1 h.1

/-- A tree is determined by its look-ups. -/
theorem ext_get? {t u : Tree α} (h : ∀ p, t.get? p = u.get? p) : t = u := by
  have hmem (leaf : Path × α) : leaf ∈ t.leaves ↔ leaf ∈ u.leaves := by
    rw [← get?_eq_some_iff, ← get?_eq_some_iff, h]
  have hperm := (List.perm_ext_iff_of_nodup t.leaves_nodup u.leaves_nodup).mpr hmem
  have heq : t.leaves = u.leaves := by
    refine hperm.eq_of_pairwise ?_ t.ordered u.ordered
    intro x y _ _ hxy hyx
    exact absurd (List.lt_trans hxy.1 hyx.1) (List.lt_irrefl x.1)
  cases t
  cases u
  congr

@[simp]
theorem get?_empty (p : Path) : (empty : Tree α).get? p = none := rfl

theorem get?_restrict (t : Tree α) (keep : Path → Bool) (p : Path) :
    (t.restrict keep).get? p = if keep p then t.get? p else none := by
  ext a
  rw [get?_eq_some_iff]
  by_cases hkeep : keep p = true <;> simp [restrict, hkeep, get?_eq_some_iff]

theorem hasBelow_iff {t : Tree α} {p : Path} :
    t.hasBelow p = true ↔ ∃ q a, t.get? q = some a ∧ p <+: q ∧ q ≠ p := by
  simp only [hasBelow, List.any_eq_true, Bool.and_eq_true, List.isPrefixOf_iff_prefix, bne_iff_ne,
    get?_eq_some_iff]
  constructor
  · rintro ⟨⟨q, a⟩, hmem, hbelow, hne⟩
    exact ⟨q, a, hmem, hbelow, hne⟩
  · rintro ⟨q, a, hmem, hbelow, hne⟩
    exact ⟨(q, a), hmem, hbelow, hne⟩

theorem get?_mapLeaves (f : α → β) (t : Tree α) (p : Path) :
    (t.mapLeaves f).get? p = (t.get? p).map f := by
  ext b
  simp only [get?_eq_some_iff, mapLeaves, Option.map_eq_some_iff, List.mem_map]
  constructor
  · rintro ⟨⟨q, a⟩, hmem, heq⟩
    obtain ⟨rfl, rfl⟩ := Prod.mk.inj heq
    exact ⟨a, hmem, rfl⟩
  · rintro ⟨a, hmem, rfl⟩
    exact ⟨(p, a), hmem, rfl⟩

end Tree

end CommitVerdict
