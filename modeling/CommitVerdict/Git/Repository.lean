import CommitVerdict.Git.CommitId
import CommitVerdict.Leaf

namespace CommitVerdict

structure Commit where
  id : CommitId
  /-- The parents, the first of them being the one that changes are measured against. -/
  parents : List CommitId
  message : String
  tree : Snapshot
deriving DecidableEq

/-- The commits of a repository. No two of them have one id, the parents of every commit are there, and the
trees have files only where a repository can track them. A commit stands behind its parents, so the later of
two commits is the newer one. -/
structure History where
  commits : List Commit
  distinct : (commits.map (·.id)).Nodup
  closed : ∀ c ∈ commits, ∀ p ∈ c.parents, p ∈ commits.map (·.id)
  trackable : ∀ c ∈ commits, ∀ p ∈ c.tree.paths, p.isTrackable

namespace History

def empty : History := ⟨[], List.Pairwise.nil, by simp, by simp⟩

/-- Whether there is a commit of an id. -/
def Holds (h : History) (id : CommitId) : Prop := id ∈ h.commits.map (·.id)

instance (h : History) (id : CommitId) : Decidable (h.Holds id) :=
  inferInstanceAs (Decidable (id ∈ h.commits.map (·.id)))

def find? (h : History) (id : CommitId) : Option Commit := h.commits.find? fun c => c.id == id

/-- Adds a commit whose id is new, whose parents are there, and whose files can be tracked. -/
def add? (h : History) (c : Commit) : Option History :=
  if fresh : ¬h.Holds c.id then
    if known : (∀ p ∈ c.parents, h.Holds p) ∧ ∀ p ∈ c.tree.paths, p.isTrackable then
      some {
        commits := h.commits ++ [c]
        distinct := by
          rw [List.map_append, List.nodup_append]
          refine ⟨h.distinct, List.pairwise_singleton _ _, ?_⟩
          intro a ha b hb e
          simp only [List.map_cons, List.map_nil, List.mem_singleton] at hb
          exact fresh (hb ▸ e ▸ ha)
        closed := by
          intro d hd p hp
          rw [List.map_append, List.mem_append]
          rcases List.mem_append.mp hd with hd | hd
          · exact .inl (h.closed d hd p hp)
          · rw [List.mem_singleton] at hd
            exact .inl (known.1 p (hd ▸ hp))
        trackable := by
          intro d hd
          rcases List.mem_append.mp hd with hd | hd
          · exact h.trackable d hd
          · rw [List.mem_singleton] at hd
            exact hd ▸ known.2 }
    else none
  else none

/-- The tree of the first parent of a commit, or no files if it has no parent. -/
def parentTree (h : History) (c : Commit) : Snapshot :=
  match c.parents.head?.bind h.find? with
  | some parent => parent.tree
  | none => Tree.empty

/-- The `n`-th ancestor along first parents. -/
def ancestor? (h : History) : Nat → Commit → Option Commit
  | 0, c => some c
  | n + 1, c => (c.parents.head?.bind h.find?).bind (ancestor? h n)

/-- The ids of a set of commits and of the parents of those in it; `h.commits` times over, this
gives all ancestors. -/
def withParents (h : History) (ids : List CommitId) : List CommitId :=
  (h.commits.filter fun c => ids.contains c.id).foldl
    (fun ids c => ids ++ c.parents.filter fun p => !ids.contains p) ids

/-- The ids of a commit and all its ancestors. -/
def reachable (h : History) (id : CommitId) : List CommitId :=
  Nat.repeat h.withParents h.commits.length [id]

/-- The newest commit of some whose message contains a text. -/
def newest? (h : History) (among : CommitId → Bool) (text : String) : Option Commit :=
  h.commits.reverse.find? fun c =>
    among c.id && (text.toList.isEmpty || (c.message.splitOn text).length ≠ 1)

end History

/-- A name for a commit that does not move. -/
structure Tag where
  name : String
  target : CommitId
  /-- Whether the name leads to an object of its own, which leads to the commit. -/
  annotated : Bool
deriving DecidableEq, Repr

/-- Where a repository stands. -/
inductive Head where
  /-- On a branch, which need not have a commit yet. -/
  | branch (name : String)
  | detached (id : CommitId)
deriving DecidableEq, Repr

/-- The commits that branches lead to. -/
abbrev Branches := List (String × CommitId)

namespace Branches

def find? (b : Branches) (name : String) : Option CommitId :=
  (List.find? (fun entry => entry.1 == name) b).map (·.2)

/-- Moves a branch, or makes it. -/
def set (b : Branches) (name : String) (id : CommitId) : Branches :=
  (name, id) :: List.filter (fun entry => entry.1 != name) b

end Branches

/-- A repository that is to be cloned. -/
structure Repository where
  history : History
  head : Head
  branches : Branches
  tags : List Tag
  headHeld : ∀ id, head = .detached id → history.Holds id
  branchesHeld : ∀ branch ∈ branches, history.Holds branch.2
  tagsHeld : ∀ tag ∈ tags, history.Holds tag.target

end CommitVerdict
