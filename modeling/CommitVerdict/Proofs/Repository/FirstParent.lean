import CommitVerdict.Proofs.Area.Components
import CommitVerdict.Proofs.Differential.Reconstruction
import CommitVerdict.Proofs.Repository.Changes

namespace CommitVerdict

/-- What the changes of a commit are measured against. -/
inductive History.MeasuredAgainst (h : History) (c : Commit) : Snapshot → Prop
  | root (hparents : c.parents = []) : MeasuredAgainst h c Tree.empty
  | parent {d : Commit} {others : List CommitId} (hmem : d ∈ h.commits)
      (hparents : c.parents = d.id :: others) : MeasuredAgainst h c d.tree

namespace History

variable {h : History} {c : Commit} {before : Snapshot}

theorem find?_id (hmem : c ∈ h.commits) : h.find? c.id = some c := by
  obtain ⟨found, hfind⟩ := Holds.find? (List.mem_map_of_mem (f := (·.id)) hmem)
  obtain ⟨hfound, hid⟩ := find?_eq_some hfind
  rw [hfind, List.inj_on_of_nodup_map h.distinct hfound hmem hid]

theorem MeasuredAgainst.parentTree_eq (hmeasured : h.MeasuredAgainst c before) :
    h.parentTree c = before := by
  cases hmeasured with
  | root hparents => exact parentTree_of_none (by simp [hparents])
  | parent hmem hparents => exact parentTree_of_some (by simp [hparents]) (find?_id hmem)

theorem measuredAgainst_parentTree (hmem : c ∈ h.commits) : h.MeasuredAgainst c (h.parentTree c) := by
  cases hparents : c.parents with
  | nil =>
    rw [parentTree_of_none (by simp [hparents])]
    exact .root hparents
  | cons first others =>
    have hfirst : c.parents.head? = some first := by simp [hparents]
    obtain ⟨d, hd⟩ := find?_parent (find?_id hmem) hfirst
    obtain ⟨hdmem, rfl⟩ := find?_eq_some hd
    rw [parentTree_of_some hfirst hd]
    exact .parent hdmem hparents

end History

/-- What texts tell about two snapshots when they spell the paths at which these differ. -/
structure Snapshot.ToldBy (before after : Snapshot) (files : List String) : Prop where
  increasing : files.Pairwise fun f g => PathText.components f < PathText.components g
  spelled : ∀ f ∈ files, ∃ p : Path, p.isTrackable = true ∧ p.toText = f
  mem_iff : ∀ p : Path, p.isTrackable = true →
    (p.toText ∈ files ↔ after.get? p ≠ before.get? p)
  /-- A moved file is told by both of its paths. -/
  moved : ∀ (p q : Path) (e : Entry), before.get? p = some e → after.get? p = none →
    before.get? q = none → after.get? q = some e → p.toText ∈ files ∧ q.toText ∈ files
  eq_nil_iff : files = [] ↔ after = before

namespace Snapshot

variable {before after : Snapshot}

/-- Snapshots of trackable files are told apart by the texts of the paths at which they differ. -/
theorem toldBy_differences (hbefore : before.Trackable) (hafter : after.Trackable) :
    before.ToldBy after ((Tree.differences before after).map Path.toText) := by
  have htrackable : ∀ p ∈ Tree.differences before after, p.isTrackable = true := by
    intro p hp
    rw [Tree.mem_differences_iff] at hp
    cases hget : before.get? p with
    | some e => exact hbefore.get? hget
    | none =>
      obtain ⟨e, he⟩ := Option.ne_none_iff_exists'.mp fun hnone => hp (hget.trans hnone.symm)
      exact hafter.get? he
  have hmem : ∀ p : Path, before.get? p ≠ after.get? p →
      p.toText ∈ (Tree.differences before after).map Path.toText :=
    fun p hp => List.mem_map_of_mem (Tree.mem_differences_iff.mpr hp)
  constructor
  · rw [List.pairwise_map]
    refine (Tree.differences_pairwise before after).imp_of_mem fun hp hq hlt => ?_
    rwa [PathText.components_toText (htrackable _ hp), PathText.components_toText (htrackable _ hq)]
  · intro f hf
    obtain ⟨p, hp, rfl⟩ := List.mem_map.mp hf
    exact ⟨p, htrackable p hp, rfl⟩
  · intro p hp
    constructor
    · intro hlisted
      obtain ⟨q, hq, htext⟩ := List.mem_map.mp hlisted
      have heq : q = p := by
        rw [← PathText.components_toText (htrackable q hq), htext, PathText.components_toText hp]
      exact heq ▸ (Tree.mem_differences_iff.mp hq).symm
    · exact fun hdiffer => hmem p hdiffer.symm
  · intro p q e hp hpgone hq hqnew
    exact ⟨hmem p (by simp [hp, hpgone]), hmem q (by simp [hq, hqnew])⟩
  · rw [List.map_eq_nil_iff, List.eq_nil_iff_forall_not_mem]
    simp only [Tree.mem_differences_iff, not_not]
    exact ⟨fun hsame => Tree.ext_get? fun p => (hsame p).symm, fun heq p => by rw [heq]⟩

end Snapshot

namespace WorkingCopy

variable {w : WorkingCopy} {c : Commit}

/-- The changed files of a commit spell the difference to its first parent, and every commit with the
same files and a first parent with the same files has the same changed files. -/
theorem changedFiles_firstParent (hmem : c ∈ w.history.commits) :
    ∃ before files, w.history.MeasuredAgainst c before ∧ w.changedFiles c.id = .ok files ∧
      before.ToldBy c.tree files ∧
      ∀ (w' : WorkingCopy) (c' : Commit), c' ∈ w'.history.commits →
        w'.history.MeasuredAgainst c' before → c'.tree = c.tree →
        w'.changedFiles c'.id = .ok files := by
  have hfind := History.find?_id hmem
  refine ⟨w.history.parentTree c, (w.history.changes c).map Path.toText,
    History.measuredAgainst_parentTree hmem, changedFiles_of_find? hfind, ?_, ?_⟩
  · exact Snapshot.toldBy_differences (History.trackable_parentTree hfind)
      (History.trackable_tree hfind)
  · intro w' c' hmem' hmeasured htree
    rw [changedFiles_of_find? (History.find?_id hmem'), History.changes, History.changes,
      hmeasured.parentTree_eq, htree]

end WorkingCopy

namespace Sample

def moving : Commit where
  id := .ofNat 3
  parents := [root.id]
  message := "move"
  tree := .ofLeaves [(["src.d"], .file [49]), (["tests", "calc"], .file [49])]

def merging : Commit where
  id := .ofNat 4
  parents := [moving.id, feature.id]
  message := "merge"
  tree := feature.tree

def merged : Repository where
  history := {
    commits := [root, feature, moving, merging]
    distinct := by decide
    closed := by decide
    trackable := by decide }
  head := .detached merging.id
  branches := []
  tags := []
  headHeld := by simp [History.Holds]
  branchesHeld := by simp
  tagsHeld := by simp

end Sample

theorem WorkingCopy.changedFiles_firstParent_merging :
    let w := clone Sample.merged
    Sample.merging ∈ w.history.commits ∧
      ∃ before files, w.history.MeasuredAgainst Sample.merging before ∧
        w.changedFiles Sample.merging.id = .ok files ∧
        before.ToldBy Sample.merging.tree files ∧
        ∀ (w' : WorkingCopy) (c' : Commit), c' ∈ w'.history.commits →
          w'.history.MeasuredAgainst c' before → c'.tree = Sample.merging.tree →
          w'.changedFiles c'.id = .ok files := by
  have hmem : Sample.merging ∈ (clone Sample.merged).history.commits :=
    List.mem_of_getElem? (i := 3) rfl
  exact ⟨hmem, changedFiles_firstParent hmem⟩

end CommitVerdict
