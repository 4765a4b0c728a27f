import CommitVerdict.Proofs.WorkingCopy.Data

namespace CommitVerdict

namespace WorkingCopy

variable {w : WorkingCopy} {id : CommitId} {c : Commit}

/-- The clone with other files on disk, as a suite may leave them. -/
def withFiles (w : WorkingCopy) (files : Directory) : WorkingCopy := { w with files := files }

@[simp]
theorem withFiles_history (w : WorkingCopy) (files : Directory) :
    (w.withFiles files).history = w.history := rfl

@[simp]
theorem withFiles_index (w : WorkingCopy) (files : Directory) :
    (w.withFiles files).index = w.index := rfl

@[simp]
theorem withFiles_files (w : WorkingCopy) (files : Directory) :
    (w.withFiles files).files = files := rfl

theorem find_eq_ok_iff : w.find id = .ok c ↔ w.history.find? id = some c := by
  unfold find
  cases w.history.find? id <;> simp

theorem parent_of_find? (hfind : w.history.find? id = some c) :
    w.parent id = .ok c.parents.head? := by
  simp only [parent, find_eq_ok_iff.mpr hfind, Except.map]

/-- The clone after the selected paths have been made those of a tree. -/
def overwritten (w : WorkingCopy) (target : Snapshot) (selects : Path → Bool) : WorkingCopy :=
  { w with
    index := w.indexAfter target selects
    files := w.filesAfter target selects
    storedIndex := w.indexAfter target selects }

/-- Only a lock stops a checkout. -/
theorem overwrite_eq_ok_iff {w' : WorkingCopy} {target : Snapshot} {selects : Path → Bool} :
    w.overwrite target selects = (w', .ok ()) ↔
      w.isLocked = false ∧ w' = w.overwritten target selects := by
  unfold overwrite overwritten
  cases w.isLocked <;> simp [eq_comm]

/-- Selecting everything replaces the index by the tree. -/
theorem indexAfter_all (w : WorkingCopy) (target : Snapshot) :
    w.indexAfter target (fun _ => true) = target := by
  have hnothing : w.index.restrict (fun _ => !true) = Tree.empty := by
    refine Tree.ext_get? fun p => ?_
    simp [Tree.get?_restrict]
  have hall : target.restrict (fun _ => true) = target := by
    refine Tree.ext_get? fun p => ?_
    simp [Tree.get?_restrict]
  rw [indexAfter, hnothing, hall, Tree.putAll_empty]

/-- The clone after it has been made to stand on a commit. -/
def standingOn (w : WorkingCopy) (c : Commit) : WorkingCopy :=
  ({ w with
      index := c.tree
      storedIndex := c.tree
      files := w.filesAfter c.tree fun _ => true }.moveHead c.id).clean c.tree

/-- Only an unknown commit or a lock stops a hard reset. -/
theorem resetHard_eq_ok_iff {w' : WorkingCopy} :
    w.resetHard id = (w', .ok ()) ↔
      ∃ c, w.history.find? id = some c ∧ w.isLocked = false ∧ w' = w.standingOn c := by
  unfold resetHard find
  cases hfind : w.history.find? id with
  | none => simp
  | some c =>
    have hid := (History.find?_eq_some hfind).2
    simp only [Option.some.injEq, exists_eq_left']
    generalize hover : w.overwrite c.tree (fun _ => true) = checkout
    obtain ⟨written, outcome⟩ := checkout
    cases outcome with
    | error e =>
      have hlock : w.isLocked ≠ false := by
        intro hlock
        rw [overwrite_eq_ok_iff.mpr ⟨hlock, rfl⟩] at hover
        simp at hover
      simp [hlock]
    | ok value =>
      obtain ⟨hlock, rfl⟩ := overwrite_eq_ok_iff.mp hover
      simp only [standingOn, overwritten, indexAfter_all, hid, hlock, Prod.mk.injEq, and_true,
        true_and]
      exact eq_comm

@[simp]
theorem standingOn_history (w : WorkingCopy) (c : Commit) : (w.standingOn c).history = w.history := by
  unfold standingOn moveHead clean
  cases w.head <;> rfl

@[simp]
theorem standingOn_index (w : WorkingCopy) (c : Commit) : (w.standingOn c).index = c.tree := by
  unfold standingOn moveHead clean
  cases w.head <;> rfl

theorem standingOn_files (w : WorkingCopy) (c : Commit) :
    (w.standingOn c).files = putEntries (w.filesAfter c.tree fun _ => true).data c.tree.leaves := by
  unfold standingOn moveHead clean
  cases w.head <;> rfl

/-- A reset leaves the files of the commit and no others. -/
theorem working_standingOn (w : WorkingCopy) (htrackable : Snapshot.Trackable c.tree) :
    (w.standingOn c).files.working = Directory.ofSnapshot c.tree := by
  rw [standingOn_files, Directory.working_putEntries _ htrackable, Directory.working_data]
  exact Tree.putAll_empty (Directory.ofSnapshot c.tree)

/-- Where a selected file of the source stands in the way, the source decides. -/
theorem get?_filesAfter_of_blocks {target : Snapshot} {selects : Path → Bool} {q : Path}
    (hblocks : (target.restrict selects).Blocks q) :
    (w.filesAfter target selects).get? q = ((target.restrict selects).get? q).map .entry := by
  have hput := Tree.get?_putAll_of_blocks
    (w.files.restrict fun p => !(selects p && (w.index.get? p).isSome))
    (u := Directory.ofSnapshot (target.restrict selects))
    (Tree.blocks_mapLeaves.mpr hblocks)
  rw [Directory.ofSnapshot, Tree.get?_mapLeaves] at hput
  exact hput

/-- Elsewhere a restoration removes the selected files of the index and nothing else. -/
theorem get?_filesAfter_of_not_blocks {target : Snapshot} {selects : Path → Bool} {q : Path}
    (hfree : ¬ (target.restrict selects).Blocks q) :
    (w.filesAfter target selects).get? q =
      if selects q && (w.index.get? q).isSome then none else w.files.get? q := by
  have hput := Tree.get?_putAll_of_not_blocks
    (w.files.restrict fun p => !(selects p && (w.index.get? p).isSome))
    (u := Directory.ofSnapshot (target.restrict selects))
    (fun hblocks => hfree (Tree.blocks_mapLeaves.mp hblocks))
  rw [Tree.get?_restrict] at hput
  refine hput.trans ?_
  cases selects q && (w.index.get? q).isSome <;> rfl

/-- Restoring from the first parent of a commit takes its files from the parent's tree, which has no
files if there is no parent. -/
theorem restorePaths_parent (hfind : w.history.find? id = some c) (paths : List String) :
    w.restorePaths c.parents.head? paths =
      w.overwrite (w.history.parentTree c) (Pathspec.ofTexts paths).selects := by
  cases hparent : c.parents.head? with
  | none => rw [restorePaths, History.parentTree_of_none hparent]
  | some parent =>
    obtain ⟨d, hd⟩ := History.find?_parent hfind hparent
    simp only [restorePaths, find_eq_ok_iff.mpr hd, History.parentTree_of_some hparent hd]

end WorkingCopy

end CommitVerdict
