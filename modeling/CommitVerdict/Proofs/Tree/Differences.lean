import CommitVerdict.Proofs.Tree.Lookup

namespace CommitVerdict

theorem Path.eq_of_not_lt {p q : Path} (hpq : ¬ p < q) (hqp : ¬ q < p) : p = q := by
  by_contra hne
  exact (lt_or_lt_of_ne hne).elim hpq hqp

namespace Tree

section Walk

variable {α : Type} {before after rest : List (Path × α)} {p q r : Path} {a b : α}

/-- The order in which leaves are walked: by path alone. -/
def PathOrder (a b : Path × α) : Prop := a.1 < b.1

/-- Whether two lists of leaves have different leaves at a path. -/
def DifferAt (before after : List (Path × α)) (p : Path) : Prop :=
  ∃ a, ¬ ((p, a) ∈ before ↔ (p, a) ∈ after)

theorem differAt_comm : DifferAt before after p ↔ DifferAt after before p :=
  exists_congr fun _ => not_congr iff_comm

/-- A leaf at another path makes no difference. -/
theorem differAt_cons_left (hne : r ≠ p) :
    DifferAt ((p, a) :: before) after r ↔ DifferAt before after r := by
  simp only [DifferAt, List.mem_cons, Prod.mk.injEq, hne, false_and, false_or]

theorem differAt_cons_right (hne : r ≠ p) :
    DifferAt before ((p, a) :: after) r ↔ DifferAt before after r := by
  rw [differAt_comm, differAt_cons_left hne, differAt_comm]

/-- What is smaller than the first of ordered leaves is smaller than all of them. -/
theorem lt_of_mem_leaves (hordered : ((q, b) :: rest).Pairwise PathOrder) (hlt : p < q) :
    ∀ leaf ∈ (q, b) :: rest, p < leaf.1 := by
  intro leaf hleaf
  rcases List.mem_cons.mp hleaf with rfl | hrest
  · exact hlt
  · exact List.lt_trans hlt ((List.pairwise_cons.mp hordered).1 leaf hrest)

theorem notMem_of_lt (hordered : ((q, b) :: rest).Pairwise PathOrder) (hlt : p < q) (a : α) :
    (p, a) ∉ (q, b) :: rest :=
  fun hmem => List.lt_irrefl p (lt_of_mem_leaves hordered hlt _ hmem)

theorem notMem_tail (hordered : ((p, b) :: rest).Pairwise PathOrder) (a : α) : (p, a) ∉ rest := by
  intro hmem
  have hbehind : p < p := (List.pairwise_cons.mp hordered).1 _ hmem
  exact List.lt_irrefl p hbehind

theorem differAt_of_lt (hafter : ((q, b) :: after).Pairwise PathOrder) (hlt : p < q) :
    DifferAt ((p, a) :: before) ((q, b) :: after) p := by
  refine ⟨a, fun hsame => notMem_of_lt hafter hlt a (hsame.mp List.mem_cons_self)⟩

/-- At the first path of both lists only the first leaves count. -/
theorem differAt_heads_iff (hbefore : ((p, a) :: before).Pairwise PathOrder)
    (hafter : ((p, b) :: after).Pairwise PathOrder) :
    DifferAt ((p, a) :: before) ((p, b) :: after) p ↔ a ≠ b := by
  have hleft (x : α) : (p, x) ∈ (p, a) :: before ↔ x = a := by
    simp [notMem_tail hbefore x]
  have hright (x : α) : (p, x) ∈ (p, b) :: after ↔ x = b := by
    simp [notMem_tail hafter x]
  simp only [DifferAt, hleft, hright]
  constructor
  · rintro ⟨x, hx⟩ rfl
    exact hx Iff.rfl
  · exact fun hne => ⟨a, fun hsame => hne (hsame.mp rfl)⟩

theorem not_differAt_tails (hbefore : ((p, a) :: before).Pairwise PathOrder)
    (hafter : ((p, b) :: after).Pairwise PathOrder) : ¬ DifferAt before after p := by
  rintro ⟨x, hx⟩
  exact hx (iff_of_false (notMem_tail hbefore x) (notMem_tail hafter x))

variable [DecidableEq α]

theorem mem_differingPaths_iff (hbefore : before.Pairwise PathOrder)
    (hafter : after.Pairwise PathOrder) :
    r ∈ differingPaths before after ↔ DifferAt before after r := by
  fun_induction differingPaths before after with
  | case1 after => simp [DifferAt]
  | case2 before hne => simp [DifferAt]
  | case3 p a before q b after hlt ih =>
    rw [List.mem_cons, ih (List.pairwise_cons.mp hbefore).2 hafter]
    by_cases hr : r = p
    · subst hr
      exact iff_of_true (.inl rfl) (differAt_of_lt hafter hlt)
    · rw [differAt_cons_left hr, or_iff_right hr]
  | case4 p a before q b after hnot hlt ih =>
    rw [List.mem_cons, ih hbefore (List.pairwise_cons.mp hafter).2]
    by_cases hr : r = q
    · subst hr
      exact iff_of_true (.inl rfl) (differAt_comm.mp (differAt_of_lt hbefore hlt))
    · rw [differAt_cons_right hr, or_iff_right hr]
  | case5 p before q a after hnot hnot' ih =>
    obtain rfl := Path.eq_of_not_lt hnot hnot'
    rw [ih (List.pairwise_cons.mp hbefore).2 (List.pairwise_cons.mp hafter).2]
    by_cases hr : r = p
    · subst hr
      refine iff_of_false (not_differAt_tails hbefore hafter) ?_
      rw [differAt_heads_iff hbefore hafter]
      exact not_not_intro rfl
    · rw [differAt_cons_left hr, differAt_cons_right hr]
  | case6 p a before q b after hnot hnot' hne ih =>
    obtain rfl := Path.eq_of_not_lt hnot hnot'
    rw [List.mem_cons, ih (List.pairwise_cons.mp hbefore).2 (List.pairwise_cons.mp hafter).2]
    by_cases hr : r = p
    · subst hr
      exact iff_of_true (.inl rfl) ((differAt_heads_iff hbefore hafter).mpr hne)
    · rw [differAt_cons_left hr, differAt_cons_right hr, or_iff_right hr]

omit [DecidableEq α] in
/-- A list differs from another one only at a path of one of them. -/
theorem DifferAt.exists_mem (hdiffer : DifferAt before after p) :
    ∃ a, (p, a) ∈ before ∨ (p, a) ∈ after := by
  obtain ⟨a, ha⟩ := hdiffer
  by_contra hnone
  obtain ⟨hbefore, hafter⟩ := not_or.mp (not_exists.mp hnone a)
  exact ha (iff_of_false hbefore hafter)

/-- What is behind a path in both lists is behind it in the walk. -/
theorem lt_of_mem_differingPaths (hbefore : before.Pairwise PathOrder) (hafter : after.Pairwise PathOrder)
    (hp : ∀ leaf ∈ before, p < leaf.1) (hp' : ∀ leaf ∈ after, p < leaf.1) :
    ∀ r ∈ differingPaths before after, p < r := by
  intro r hr
  obtain ⟨a, ha | ha⟩ := ((mem_differingPaths_iff hbefore hafter).mp hr).exists_mem
  · exact hp _ ha
  · exact hp' _ ha

/-- The walk goes from the smaller paths to the greater ones. -/
theorem differingPaths_pairwise (hbefore : before.Pairwise PathOrder)
    (hafter : after.Pairwise PathOrder) : (differingPaths before after).Pairwise (· < ·) := by
  fun_induction differingPaths before after with
  | case1 after => exact List.pairwise_map.mpr hafter
  | case2 before hne => exact List.pairwise_map.mpr hbefore
  | case3 p a before q b after hlt ih =>
    obtain ⟨hhead, htail⟩ := List.pairwise_cons.mp hbefore
    have hbehind := lt_of_mem_leaves hafter hlt
    exact List.pairwise_cons.mpr
      ⟨lt_of_mem_differingPaths htail hafter hhead hbehind, ih htail hafter⟩
  | case4 p a before q b after hnot hlt ih =>
    obtain ⟨hhead, htail⟩ := List.pairwise_cons.mp hafter
    have hbehind := lt_of_mem_leaves hbefore hlt
    exact List.pairwise_cons.mpr
      ⟨lt_of_mem_differingPaths hbefore htail hbehind hhead, ih hbefore htail⟩
  | case5 p before q a after hnot hnot' ih =>
    exact ih (List.pairwise_cons.mp hbefore).2 (List.pairwise_cons.mp hafter).2
  | case6 p a before q b after hnot hnot' hne ih =>
    obtain rfl := Path.eq_of_not_lt hnot hnot'
    obtain ⟨hhead, htail⟩ := List.pairwise_cons.mp hbefore
    obtain ⟨hhead', htail'⟩ := List.pairwise_cons.mp hafter
    exact List.pairwise_cons.mpr
      ⟨lt_of_mem_differingPaths htail htail' hhead hhead', ih htail htail'⟩

end Walk

variable {α : Type} [DecidableEq α]

omit [DecidableEq α] in
theorem leaves_pathOrder (t : Tree α) : t.leaves.Pairwise PathOrder := t.ordered.imp fun h => h.1

theorem mem_differences_iff {before after : Tree α} {p : Path} :
    p ∈ differences before after ↔ before.get? p ≠ after.get? p := by
  rw [differences, mem_differingPaths_iff before.leaves_pathOrder after.leaves_pathOrder, DifferAt,
    ← not_forall, not_iff_not]
  simp only [← get?_eq_some_iff]
  exact ⟨fun hsame => Option.ext hsame, fun heq a => by rw [heq]⟩

/-- The differing paths come in the order of paths, so each of them comes once. -/
theorem differences_pairwise (before after : Tree α) :
    (differences before after).Pairwise (· < ·) :=
  differingPaths_pairwise before.leaves_pathOrder after.leaves_pathOrder

end Tree

end CommitVerdict
