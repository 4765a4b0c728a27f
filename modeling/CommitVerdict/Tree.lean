import CommitVerdict.Path

namespace CommitVerdict

/-- The order of the leaves of a tree: by path, and no leaf below another. -/
def LeafOrder {α : Type} (a b : Path × α) : Prop := a.1 < b.1 ∧ a.1.isPrefixOf b.1 = false

/-- A tree maps paths to leaves. Directories are not stored: a directory is a path with a leaf below it. The
leaves stand in the order of their paths, and none lies below another one, so two trees are equal exactly if
they have the same leaves. -/
structure Tree (α : Type) where
  leaves : List (Path × α)
  ordered : leaves.Pairwise LeafOrder

namespace Tree

variable {α β : Type}

instance [DecidableEq α] : DecidableEq (Tree α) := fun a b =>
  match decEq a.leaves b.leaves with
  | isTrue h => isTrue (by cases a; cases b; simp_all)
  | isFalse h => isFalse fun e => h (by rw [e])

def empty : Tree α := ⟨[], List.Pairwise.nil⟩

/-- The leaf at a path. -/
def get? (t : Tree α) (p : Path) : Option α := (t.leaves.find? fun leaf => leaf.1 == p).map (·.2)

def paths (t : Tree α) : List Path := t.leaves.map (·.1)

/-- Keeps the leaves whose paths pass a test. -/
def restrict (t : Tree α) (keep : Path → Bool) : Tree α :=
  ⟨t.leaves.filter fun leaf => keep leaf.1, t.ordered.filter _⟩

/-- Changes every leaf in place. -/
def mapLeaves (f : α → β) (t : Tree α) : Tree β :=
  ⟨t.leaves.map fun leaf => (leaf.1, f leaf.2),
   by rw [List.pairwise_map]; exact t.ordered.imp fun h => h⟩

/-- Whether there is a leaf at the path or below it. -/
def contains (t : Tree α) (p : Path) : Bool := t.leaves.any fun leaf => p.isPrefixOf leaf.1

/-- Whether there is a leaf strictly below the path. -/
def hasBelow (t : Tree α) (p : Path) : Bool :=
  t.leaves.any fun leaf => p.isPrefixOf leaf.1 && leaf.1 != p

/-- Removes the leaf at the path and everything below it. -/
def removeBelow (t : Tree α) (p : Path) : Tree α := t.restrict fun q => !p.isPrefixOf q

/-- Removes the leaf at the path only. -/
def removeLeaf (t : Tree α) (p : Path) : Tree α := t.restrict fun q => q != p

theorem related {R : Path × α → Path × α → Prop} {l : List (Path × α)}
    (h : l.Pairwise R) {x y : Path × α} (hx : x ∈ l) (hy : y ∈ l) : x = y ∨ R x y ∨ R y x := by
  induction h with
  | nil => simp at hx
  | cons head _ ih =>
    rcases List.mem_cons.mp hx with rfl | hx' <;> rcases List.mem_cons.mp hy with rfl | hy'
    · exact .inl rfl
    · exact .inr (.inl (head _ hy'))
    · exact .inr (.inr (head _ hx'))
    · exact ih hx' hy'

private theorem ordered_insert (t : Tree α) (p : Path) (a : α) :
    ((t.leaves.filter fun leaf => decide (leaf.1 < p) && !Path.conflicts leaf.1 p)
      ++ (p, a) :: t.leaves.filter fun leaf => decide (p < leaf.1) && !Path.conflicts leaf.1 p
      ).Pairwise LeafOrder := by
  rw [List.pairwise_append, List.pairwise_cons]
  refine ⟨t.ordered.filter _, ⟨?_, t.ordered.filter _⟩, ?_⟩
  · intro y hy
    simp only [List.mem_filter, Bool.and_eq_true, decide_eq_true_eq, Path.conflicts,
      Bool.not_eq_true', Bool.or_eq_false_iff] at hy
    exact ⟨hy.2.1, hy.2.2.2⟩
  · intro x hx y hy
    simp only [List.mem_filter, Bool.and_eq_true, decide_eq_true_eq, Path.conflicts,
      Bool.not_eq_true', Bool.or_eq_false_iff] at hx
    rcases List.mem_cons.mp hy with rfl | hy
    · exact ⟨hx.2.1, hx.2.2.1⟩
    · simp only [List.mem_filter, Bool.and_eq_true, decide_eq_true_eq] at hy
      have below : x.1 < y.1 := List.lt_trans hx.2.1 hy.2.1
      rcases related t.ordered hx.1 hy.1 with rfl | h | h
      · exact absurd below (List.lt_irrefl _)
      · exact h
      · exact absurd (List.lt_trans below h.1) (List.lt_irrefl _)

/-- Puts a leaf at a path. Whatever stands in its way is removed: leaves below the path, and leaves
on the way down to it. -/
def put (t : Tree α) (p : Path) (a : α) : Tree α :=
  ⟨_, ordered_insert t p a⟩

/-- Puts leaves one after the other. -/
def putAll (t : Tree α) (leaves : List (Path × α)) : Tree α :=
  leaves.foldl (fun t leaf => t.put leaf.1 leaf.2) t

def ofLeaves (leaves : List (Path × α)) : Tree α := empty.putAll leaves

/-- The tree below a path, with paths relative to it. -/
def subtree (t : Tree α) (p : Path) : Tree α :=
  ofLeaves ((t.leaves.filter fun leaf => p.isPrefixOf leaf.1).map fun leaf =>
    (leaf.1.drop p.length, leaf.2))

/-- Replaces everything at and below a path by the leaves of another tree. -/
def graft (t : Tree α) (p : Path) (other : Tree α) : Tree α :=
  (t.removeBelow p).putAll (other.leaves.map fun leaf => (p ++ leaf.1, leaf.2))

/-- The names that stand directly below a path. -/
def names (t : Tree α) (p : Path) : List String :=
  let below := t.leaves.filterMap fun leaf =>
    if p.isPrefixOf leaf.1 then (leaf.1.drop p.length).head? else none
  below.eraseDups

/-- The leaves by the texts of their paths, in the order of the texts. -/
def byText (t : Tree α) : List (String × α) :=
  (t.leaves.map fun leaf => (leaf.1.toText, leaf.2)).mergeSort fun a b => decide (a.1 ≤ b.1)

/-- The paths at which two ordered lists of leaves differ. -/
def differingPaths [DecidableEq α] : List (Path × α) → List (Path × α) → List Path
  | [], after => after.map (·.1)
  | before, [] => before.map (·.1)
  | (p, a) :: before, (q, b) :: after =>
    if p < q then p :: differingPaths before ((q, b) :: after)
    else if q < p then q :: differingPaths ((p, a) :: before) after
    else if a = b then differingPaths before after
    else p :: differingPaths before after
termination_by before after => before.length + after.length

/-- The paths at which two trees differ, in order. -/
def differences [DecidableEq α] (before after : Tree α) : List Path :=
  differingPaths before.leaves after.leaves

end Tree

end CommitVerdict
