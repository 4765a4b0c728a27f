import CommitVerdict.Proofs.Tree.Lookup

namespace CommitVerdict

namespace Tree

variable {α β : Type}

theorem get?_put_eq_some_iff {t : Tree α} {p q : Path} {a b : α} :
    (t.put p a).get? q = some b ↔
      (q = p ∧ b = a) ∨ (Path.conflicts p q = false ∧ t.get? q = some b) := by
  rw [get?_eq_some_iff, get?_eq_some_iff]
  simp only [put, List.mem_append, List.mem_filter, List.mem_cons, Prod.mk.injEq, Bool.and_eq_true,
    decide_eq_true_eq, Bool.not_eq_true']
  rw [Path.conflicts_comm p q]
  constructor
  · rintro (⟨hmem, -, hfree⟩ | ⟨rfl, rfl⟩ | ⟨hmem, -, hfree⟩)
    · exact .inr ⟨hfree, hmem⟩
    · exact .inl ⟨rfl, rfl⟩
    · exact .inr ⟨hfree, hmem⟩
  · rintro (⟨rfl, rfl⟩ | ⟨hfree, hmem⟩)
    · exact .inr (.inl ⟨rfl, rfl⟩)
    · have hne : q ≠ p := by
        rintro rfl
        simp at hfree
      rcases Path.lt_or_lt_of_ne hne with hlt | hlt
      · exact .inl ⟨hmem, hlt, hfree⟩
      · exact .inr (.inr ⟨hmem, hlt, hfree⟩)

/-- Whether a leaf of the tree stands at the path, above it or below it. -/
def Blocks (t : Tree α) (q : Path) : Prop := ∃ p ∈ t.paths, Path.conflicts p q = true

theorem blocks_of_get? {t : Tree α} {p : Path} {a : α} (hget : t.get? p = some a) : t.Blocks p :=
  ⟨p, get?_isSome_iff.mp (by simp [hget]), Path.conflicts_self p⟩

private theorem get?_putAll_eq_some_iff {leaves : List (Path × α)} (hordered : leaves.Pairwise LeafOrder)
    (t : Tree α) {q : Path} {b : α} :
    (t.putAll leaves).get? q = some b ↔
      (q, b) ∈ leaves ∨ ((∀ leaf ∈ leaves, Path.conflicts leaf.1 q = false) ∧ t.get? q = some b) := by
  induction leaves generalizing t with
  | nil => simp [putAll]
  | cons leaf rest ih =>
    obtain ⟨hhead, hrest⟩ := List.pairwise_cons.mp hordered
    have hstep : t.putAll (leaf :: rest) = (t.put leaf.1 leaf.2).putAll rest := rfl
    rw [hstep, ih hrest, get?_put_eq_some_iff]
    simp only [List.mem_cons, forall_eq_or_imp]
    constructor
    · rintro (hmem | ⟨hfree, ⟨rfl, rfl⟩ | ⟨hleaf, hget⟩⟩)
      · exact .inl (.inr hmem)
      · exact .inl (.inl rfl)
      · exact .inr ⟨⟨hleaf, hfree⟩, hget⟩
    · rintro ((rfl | hmem) | ⟨⟨hleaf, hfree⟩, hget⟩)
      · refine .inr ⟨fun other hother => ?_, .inl ⟨rfl, rfl⟩⟩
        -- the rest is a tree together with the first leaf, whose leaves are apart
        have hne : other.1 ≠ q := by
          intro heq
          exact List.lt_irrefl q (heq ▸ (hhead other hother).1)
        exact not_conflicts_of_ne ⟨(q, b) :: rest, hordered⟩ (List.mem_cons_of_mem _ hother)
          List.mem_cons_self hne
      · exact .inl hmem
      · exact .inr ⟨hfree, .inr ⟨hleaf, hget⟩⟩

/-- Where no leaf of the tree that is put stands in the way, nothing changes. -/
theorem get?_putAll_of_not_blocks (t : Tree α) {u : Tree α} {q : Path} (hfree : ¬ u.Blocks q) :
    (t.putAll u.leaves).get? q = t.get? q := by
  have hclear : ∀ leaf ∈ u.leaves, Path.conflicts leaf.1 q = false := by
    intro leaf hleaf
    by_contra hconflict
    exact hfree ⟨leaf.1, List.mem_map_of_mem hleaf, by simpa using hconflict⟩
  have hmem (b : α) : (q, b) ∉ u.leaves := by
    intro hmem
    exact hfree (blocks_of_get? (get?_eq_some_iff.mpr hmem))
  ext b
  rw [get?_putAll_eq_some_iff u.ordered t]
  constructor
  · rintro (habsurd | ⟨-, hget⟩)
    · exact absurd habsurd (hmem b)
    · exact hget
  · exact fun hget => .inr ⟨hclear, hget⟩

/-- Leaves that a leaf of the tree that is put stands in the way of are gone. -/
theorem get?_putAll_of_blocks (t : Tree α) {u : Tree α} {q : Path} (hblocks : u.Blocks q) :
    (t.putAll u.leaves).get? q = u.get? q := by
  ext b
  rw [get?_putAll_eq_some_iff u.ordered t]
  constructor
  · rintro (hmem | ⟨hclear, -⟩)
    · exact get?_eq_some_iff.mpr hmem
    · obtain ⟨p, hp, hconflict⟩ := hblocks
      obtain ⟨leaf, hleaf, rfl⟩ := List.mem_map.mp hp
      simp [hclear leaf hleaf] at hconflict
  · exact fun hget => .inl (get?_eq_some_iff.mp hget)

/-- Adding leaves to nothing gives the tree that they come from. -/
theorem putAll_empty (u : Tree α) : empty.putAll u.leaves = u := by
  refine ext_get? fun q => ?_
  by_cases hblocks : u.Blocks q
  · exact get?_putAll_of_blocks empty hblocks
  · rw [get?_putAll_of_not_blocks empty hblocks, get?_empty]
    cases hget : u.get? q with
    | none => rfl
    | some a => exact absurd (blocks_of_get? hget) hblocks

theorem blocks_restrict {t : Tree α} {keep : Path → Bool} {q : Path} :
    (t.restrict keep).Blocks q ↔ ∃ p ∈ t.paths, keep p = true ∧ Path.conflicts p q = true := by
  constructor
  · rintro ⟨p, hp, hconflict⟩
    obtain ⟨leaf, hleaf, rfl⟩ := List.mem_map.mp hp
    obtain ⟨hmem, hkeep⟩ := List.mem_filter.mp hleaf
    exact ⟨leaf.1, List.mem_map_of_mem hmem, hkeep, hconflict⟩
  · rintro ⟨p, hp, hkeep, hconflict⟩
    obtain ⟨leaf, hleaf, rfl⟩ := List.mem_map.mp hp
    exact ⟨leaf.1, List.mem_map_of_mem (List.mem_filter.mpr ⟨hleaf, hkeep⟩), hconflict⟩

theorem blocks_mapLeaves {f : α → β} {t : Tree α} {q : Path} :
    (t.mapLeaves f).Blocks q ↔ t.Blocks q := by
  simp [Blocks, paths, mapLeaves]

end Tree

end CommitVerdict
