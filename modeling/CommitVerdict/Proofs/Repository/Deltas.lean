import CommitVerdict.Git.Delta
import CommitVerdict.Proofs.Tree.Differences
import Mathlib.Data.List.Sort

namespace CommitVerdict

namespace Path

variable {p q : Path} {set : List Path}

theorem mem_insertInto_iff : q ∈ insertInto p set ↔ q = p ∨ q ∈ set := by
  fun_induction insertInto p set with
  | case1 => simp
  | case2 r rest hlt => simp
  | case3 r rest hnot hlt ih =>
    rw [List.mem_cons, ih, List.mem_cons]
    exact or_left_comm
  | case4 r rest hnot hnot' =>
    obtain rfl := eq_of_not_lt hnot hnot'
    simp

theorem insertInto_pairwise (hset : set.Pairwise (· < ·)) :
    (insertInto p set).Pairwise (· < ·) := by
  fun_induction insertInto p set with
  | case1 => exact List.pairwise_singleton _ _
  | case2 r rest hlt =>
    have hbehind := (List.pairwise_cons.mp hset).1
    exact List.pairwise_cons.mpr
      ⟨List.forall_mem_cons.mpr ⟨hlt, fun s hs => List.lt_trans hlt (hbehind s hs)⟩, hset⟩
  | case3 r rest hnot hlt ih =>
    obtain ⟨hbehind, hrest⟩ := List.pairwise_cons.mp hset
    refine List.pairwise_cons.mpr ⟨fun s hs => ?_, ih hrest⟩
    rcases mem_insertInto_iff.mp hs with rfl | hs
    · exact hlt
    · exact hbehind s hs
  | case4 r rest hnot hnot' => exact hset

/-- What is put into an ordered list keeps its order, and the members are the old and the new ones. -/
theorem foldl_insertInto (paths : List Path) (hset : set.Pairwise (· < ·)) :
    (paths.foldl (fun set p => insertInto p set) set).Pairwise (· < ·) ∧
      ∀ q, q ∈ paths.foldl (fun set p => insertInto p set) set ↔ q ∈ set ∨ q ∈ paths := by
  induction paths generalizing set with
  | nil => simpa using hset
  | cons p paths ih =>
    obtain ⟨hordered, hmem⟩ := ih (insertInto_pairwise (p := p) hset)
    refine ⟨hordered, fun q => ?_⟩
    rw [List.foldl_cons, hmem, mem_insertInto_iff, List.mem_cons, or_comm (a := q = p), or_assoc]

theorem orderedSet_pairwise (paths : List Path) : (orderedSet paths).Pairwise (· < ·) :=
  (foldl_insertInto paths List.Pairwise.nil).1

theorem mem_orderedSet_iff {paths : List Path} : p ∈ orderedSet paths ↔ p ∈ paths := by
  simpa [orderedSet] using (foldl_insertInto paths List.Pairwise.nil).2 p

/-- An ordered list without repetitions is determined by its members. -/
theorem orderedSet_eq {paths ordered : List Path} (hordered : ordered.Pairwise (· < ·))
    (hmem : ∀ p, p ∈ paths ↔ p ∈ ordered) : orderedSet paths = ordered :=
  (orderedSet_pairwise paths).eq_of_mem_iff hordered fun p => mem_orderedSet_iff.trans (hmem p)

end Path

namespace Delta

theorem mem_paths_between_iff {before after : Snapshot} {p : Path} :
    p ∈ (between before after).flatMap paths ↔ p ∈ Tree.differences before after := by
  simp [between, paths]

/-- The differences of two snapshots name the paths at which these differ. -/
theorem allPaths_between (before after : Snapshot) :
    allPaths (between before after) = Tree.differences before after :=
  Path.orderedSet_eq (Tree.differences_pairwise before after) fun _ => mem_paths_between_iff

end Delta

end CommitVerdict
