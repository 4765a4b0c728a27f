import CommitVerdict.Proofs.WorkingCopy.Checkout

namespace CommitVerdict

namespace WorkingCopy

variable {w : WorkingCopy} {id : CommitId} {c : Commit}

/-- What an operation that writes reports: the lock stops it, and nothing else does. -/
def writeOutcome (w : WorkingCopy) : Except GitError Unit :=
  if w.isLocked then .error (.operationFailed .indexLocked) else .ok ()

@[simp]
theorem overwrite_snd (w : WorkingCopy) (target : Snapshot) (selects : Path → Bool) :
    (w.overwrite target selects).2 = w.writeOutcome := by
  unfold overwrite writeOutcome
  split <;> rfl

@[simp]
theorem overwrite_history (w : WorkingCopy) (target : Snapshot) (selects : Path → Bool) :
    (w.overwrite target selects).1.history = w.history := by
  unfold overwrite
  split <;> rfl

theorem resetHard_snd (hfind : w.history.find? id = some c) : (w.resetHard id).2 = w.writeOutcome := by
  have hover := overwrite_snd w c.tree fun _ => true
  simp only [resetHard, find, hfind]
  generalize w.overwrite c.tree (fun _ => true) = checkout at hover
  obtain ⟨written, outcome⟩ := checkout
  rw [← hover]
  cases outcome <;> rfl

theorem clean_history (w : WorkingCopy) (target : Snapshot) : (w.clean target).history = w.history := rfl

theorem moveHead_history (w : WorkingCopy) (id : CommitId) : (w.moveHead id).history = w.history := by
  unfold moveHead
  cases w.head <;> rfl

@[simp]
theorem resetHard_history (w : WorkingCopy) (id : CommitId) :
    (w.resetHard id).1.history = w.history := by
  cases hfind : w.history.find? id with
  | none => simp only [resetHard, find, hfind]
  | some c =>
    have hover := overwrite_history w c.tree fun _ => true
    simp only [resetHard, find, hfind]
    generalize w.overwrite c.tree (fun _ => true) = checkout at hover
    obtain ⟨written, outcome⟩ := checkout
    cases outcome with
    | error e => exact hover
    | ok value => exact (clean_history _ _).trans ((moveHead_history written id).trans hover)

@[simp]
theorem restorePaths_history (w : WorkingCopy) (source : Option CommitId) (paths : List String) :
    (w.restorePaths source paths).1.history = w.history := by
  cases source with
  | none => exact overwrite_history w _ _
  | some id =>
    cases hfind : w.history.find? id with
    | none => simp only [restorePaths, find, hfind]
    | some c => simp only [restorePaths, find, hfind, overwrite_history]

/-- Restoring from the first parent never asks for a commit that is not there. -/
theorem restorePaths_parent_snd (hfind : w.history.find? id = some c) (paths : List String) :
    (w.restorePaths c.parents.head? paths).2 = w.writeOutcome := by
  rw [restorePaths_parent hfind, overwrite_snd]

end WorkingCopy

end CommitVerdict
