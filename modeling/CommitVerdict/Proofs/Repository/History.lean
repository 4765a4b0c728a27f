import CommitVerdict.Git.Repository
import CommitVerdict.Proofs.Tree.Overlay

namespace CommitVerdict

/-- Whether every file of a snapshot is one that a repository can track. -/
def Snapshot.Trackable (s : Snapshot) : Prop := ∀ p ∈ s.paths, p.isTrackable = true

namespace Snapshot

theorem trackable_empty : Trackable Tree.empty := by
  simp [Trackable, Tree.paths, Tree.empty]

theorem Trackable.get? {s : Snapshot} (htrackable : s.Trackable) {p : Path} {e : Entry}
    (hget : s.get? p = some e) : p.isTrackable = true :=
  htrackable p (Tree.get?_isSome_iff.mp (by simp [hget]))

theorem Trackable.restrict {s : Snapshot} (htrackable : s.Trackable) (keep : Path → Bool) :
    Trackable (s.restrict keep) := by
  intro p hp
  obtain ⟨leaf, hleaf, rfl⟩ := List.mem_map.mp hp
  exact htrackable leaf.1 (List.mem_map_of_mem (List.mem_filter.mp hleaf).1)

end Snapshot

namespace History

theorem find?_eq_some {h : History} {id : CommitId} {c : Commit} (hfind : h.find? id = some c) :
    c ∈ h.commits ∧ c.id = id :=
  ⟨List.mem_of_find?_eq_some hfind, by simpa using List.find?_some hfind⟩

theorem Holds.find? {h : History} {id : CommitId} (hholds : h.Holds id) :
    ∃ c, h.find? id = some c := by
  obtain ⟨c, hmem, hid⟩ := List.mem_map.mp hholds
  cases hfind : h.find? id with
  | some found => exact ⟨found, rfl⟩
  | none => exact absurd (List.find?_eq_none.mp hfind c hmem) (by simp [hid])

theorem holds_of_find? {h : History} {id : CommitId} {c : Commit} (hfind : h.find? id = some c) :
    h.Holds id :=
  (find?_eq_some hfind).2 ▸ List.mem_map_of_mem (find?_eq_some hfind).1

theorem trackable_tree {h : History} {id : CommitId} {c : Commit} (hfind : h.find? id = some c) :
    Snapshot.Trackable c.tree :=
  h.trackable c (find?_eq_some hfind).1

/-- The first parent of a commit is a commit of the same history. -/
theorem find?_parent {h : History} {id parent : CommitId} {c : Commit} (hfind : h.find? id = some c)
    (hparent : c.parents.head? = some parent) : ∃ d, h.find? parent = some d :=
  Holds.find? (h.closed c (find?_eq_some hfind).1 parent (List.mem_of_mem_head? hparent))

theorem parentTree_of_none {h : History} {c : Commit} (hparent : c.parents.head? = none) :
    h.parentTree c = Tree.empty := by
  simp [parentTree, hparent]

theorem parentTree_of_some {h : History} {c d : Commit} {parent : CommitId}
    (hparent : c.parents.head? = some parent) (hfind : h.find? parent = some d) :
    h.parentTree c = d.tree := by
  simp [parentTree, hparent, hfind]

theorem trackable_parentTree {h : History} {id : CommitId} {c : Commit} (hfind : h.find? id = some c) :
    Snapshot.Trackable (h.parentTree c) := by
  cases hparent : c.parents.head? with
  | none => simpa only [parentTree_of_none hparent] using Snapshot.trackable_empty
  | some parent =>
    obtain ⟨d, hd⟩ := find?_parent hfind hparent
    simpa only [parentTree_of_some hparent hd] using trackable_tree hd

end History

end CommitVerdict
