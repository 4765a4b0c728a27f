import CommitVerdict.ChangeSet
import CommitVerdict.Git.WorkingCopy
import CommitVerdict.Proofs.Repository.Deltas
import CommitVerdict.Proofs.Repository.History

namespace CommitVerdict

namespace ChangeSet

/-- Only a commit that touches both areas is left without a verdict. -/
theorem triage_eq_none_iff {s : ChangeSet} :
    s.triage = none ↔ s.touchesTests = true ∧ s.touchesProductionCode = true := by
  unfold triage
  cases s.touchesTests <;> cases s.touchesProductionCode <;> simp

/-- A verdict without a run says whether only production code was changed. -/
theorem eq_of_triage {s : ChangeSet} {verdict : Verdict} (htriage : s.triage = some verdict) :
    verdict = if s.touchesProductionCode && !s.touchesTests then .codeChangeWithoutTests
      else .noUnitTestChange := by
  unfold triage at htriage
  cases htests : s.touchesTests <;> cases hcode : s.touchesProductionCode <;>
    simp_all

end ChangeSet

namespace History

variable {h : History} {id : CommitId} {c : Commit} {layout : ProjectLayout} {p : Path}

/-- The paths at which a commit differs from its first parent, in order. -/
def changes (h : History) (c : Commit) : List Path := Tree.differences (h.parentTree c) c.tree

/-- What the changes of a commit touch. -/
def changeSet (h : History) (layout : ProjectLayout) (c : Commit) : ChangeSet :=
  .classify ((h.changes c).map Path.toText) layout

theorem mem_changes_iff : p ∈ h.changes c ↔ c.tree.get? p ≠ (h.parentTree c).get? p := by
  rw [changes, Tree.mem_differences_iff, ne_comm]

theorem changes_pairwise (h : History) (c : Commit) : (h.changes c).Pairwise (· < ·) :=
  Tree.differences_pairwise _ _

/-- A changed path is a file of the commit or of its first parent. -/
theorem trackable_of_mem_changes (hfind : h.find? id = some c) (hp : p ∈ h.changes c) :
    p.isTrackable = true := by
  rw [mem_changes_iff] at hp
  cases htree : c.tree.get? p with
  | some e => exact (trackable_tree hfind).get? htree
  | none =>
    cases hparent : (h.parentTree c).get? p with
    | some e => exact (trackable_parentTree hfind).get? hparent
    | none => simp [htree, hparent] at hp

theorem touchesTests_iff : (h.changeSet layout c).touchesTests = true ↔
    ∃ p ∈ h.changes c, PathText.isBelow p.toText layout.testsDir = true := by
  simp [changeSet, ChangeSet.classify]

theorem touchesProductionCode_iff : (h.changeSet layout c).touchesProductionCode = true ↔
    ∃ p ∈ h.changes c, PathText.isBelow p.toText layout.codeDir = true := by
  simp [changeSet, ChangeSet.classify]

end History

/-- A clone lists the changes of every commit that it holds. -/
theorem WorkingCopy.changedFiles_of_find? {w : WorkingCopy} {id : CommitId} {c : Commit}
    (hfind : w.history.find? id = some c) :
    w.changedFiles id = .ok ((w.history.changes c).map Path.toText) := by
  simp only [changedFiles, changedPaths, find, hfind, Except.map, Delta.allPaths_between]
  rfl

end CommitVerdict
