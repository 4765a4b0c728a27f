import CommitVerdict.Proofs.WorkingCopy.Checkout

namespace CommitVerdict

namespace Tree

theorem contains_restrict {α : Type} {t : Tree α} {p : Path} (hnone : t.contains p = false)
    (keep : Path → Bool) : (t.restrict keep).contains p = false := by
  simp only [contains, restrict, List.any_eq_false, List.mem_filter] at hnone ⊢
  rintro leaf ⟨hleaf, -⟩
  exact hnone leaf hleaf

end Tree

namespace WorkingCopy

variable {w : WorkingCopy}

/-- Checking out files of a commit neither takes nor gives back the lock. -/
theorem contains_lockPath_putEntries (d : Directory) {s : Snapshot} (htrackable : s.Trackable) :
    (putEntries d s.leaves).contains lockPath = d.contains lockPath := by
  rw [contains_lockPath, Directory.data_putEntries d htrackable, ← contains_lockPath]

theorem contains_lockPath_filesAfter (hunlocked : w.isLocked = false) {target : Snapshot}
    (htrackable : target.Trackable) (selects : Path → Bool) :
    (w.filesAfter target selects).contains lockPath = false := by
  rw [filesAfter, contains_lockPath_putEntries _ (htrackable.restrict selects)]
  exact Tree.contains_restrict hunlocked _

theorem isLocked_standingOn (hunlocked : w.isLocked = false) {c : Commit}
    (htrackable : Snapshot.Trackable c.tree) : (w.standingOn c).isLocked = false := by
  rw [isLocked, standingOn_files, contains_lockPath_putEntries _ htrackable]
  exact Tree.contains_restrict (contains_lockPath_filesAfter hunlocked htrackable _) _

/-- A fresh clone is not locked. -/
theorem isLocked_clone (source : Repository) : (clone source).isLocked = false := by
  have hbare : bareFiles.contains lockPath = false := by decide
  have hfiles (tree : Snapshot) (htrackable : tree.Trackable) :
      (putEntries bareFiles tree.leaves).contains lockPath = false := by
    rw [contains_lockPath_putEntries _ htrackable, hbare]
  unfold isLocked clone
  refine hfiles _ ?_
  split
  · rename_i name hhead
    cases source.branches.find? name with
    | none => exact Snapshot.trackable_empty
    | some id =>
      cases hfind : source.history.find? id with
      | none => simpa [hfind] using Snapshot.trackable_empty
      | some c => simpa [hfind] using History.trackable_tree hfind
  · rename_i id hhead
    cases hfind : source.history.find? id with
    | none => simpa [hfind] using Snapshot.trackable_empty
    | some c => simpa [hfind] using History.trackable_tree hfind

end WorkingCopy

end CommitVerdict
