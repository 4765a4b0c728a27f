import CommitVerdict.Proofs.Differential.Phases
import CommitVerdict.Proofs.WorkingCopy.Outcome

namespace CommitVerdict

namespace Progress

variable {σ : Type} {p p' : Progress σ} {suite : Suite σ} {layout : ProjectLayout} {id : CommitId}
  {c : Commit} {e : VerificationError}

@[simp]
theorem change_snd (p : Progress σ) (operation : WorkingCopy → WorkingCopy × Except GitError Unit) :
    (p.change operation).2 = (operation p.copy).2.mapError VerificationError.ofGit := rfl

/-- Where an evaluation stands when the suite has been run for the first time. -/
def afterFirstRun (p : Progress σ) (suite : Suite σ) (id : CommitId) : Progress σ :=
  ((p.change fun copy => copy.resetHard id).1.runPhase suite id .postChange).1

@[simp]
theorem afterFirstRun_history (p : Progress σ) (suite : Suite σ) (id : CommitId) :
    (p.afterFirstRun suite id).copy.history = p.copy.history :=
  WorkingCopy.resetHard_history p.copy id

theorem afterFirstRun_seen (p : Progress σ) (suite : Suite σ) (id : CommitId) :
    (p.afterFirstRun suite id).seen = p.seen ++ [(p.copy.resetHard id).1.files] := rfl

/-- An evaluation fails exactly if the reset fails, or the look-up of the parent or the restoration does
after the first run. -/
theorem evaluate_eq_error_iff :
    p.evaluate suite layout id = (p', .error e) ↔
      p.change (fun copy => copy.resetHard id) = (p', .error e) ∨
        (p.change fun copy => copy.resetHard id).2 = .ok () ∧
          ((p.afterFirstRun suite id).ask (fun copy => copy.parent id) = .error e ∧
              p' = p.afterFirstRun suite id ∨
            ∃ parent, (p.afterFirstRun suite id).ask (fun copy => copy.parent id) = .ok parent ∧
              (p.afterFirstRun suite id).change
                (fun copy => copy.restorePaths parent [layout.codeDir]) = (p', .error e)) := by
  unfold evaluate afterFirstRun
  generalize p.change (fun copy => copy.resetHard id) = reset
  obtain ⟨q, reset⟩ := reset
  cases reset with
  | error e => simp
  | ok value =>
    simp only [Prod.mk.injEq, reduceCtorEq, and_false, true_and, false_or]
    generalize q.runPhase suite id .postChange = first
    obtain ⟨q, postChange⟩ := first
    simp only []
    generalize q.ask (fun copy => copy.parent id) = answer
    cases answer with
    | error e => simp [eq_comm, and_comm]
    | ok parent =>
      simp only [Except.ok.injEq, exists_eq_left', reduceCtorEq, false_and, false_or]
      generalize q.change (fun copy => copy.restorePaths parent [layout.codeDir]) = restored
      obtain ⟨r, restored⟩ := restored
      cases restored <;> simp

/-- An evaluation keeps the history of the clone, however it ends. -/
theorem evaluate_history (p : Progress σ) (suite : Suite σ) (layout : ProjectLayout) (id : CommitId) :
    (p.evaluate suite layout id).1.copy.history = p.copy.history := by
  generalize hrun : p.evaluate suite layout id = result
  obtain ⟨p', outcome⟩ := result
  cases outcome with
  | ok results =>
    obtain ⟨c, first, second, before, after, -, -, -, hcopy, -, -⟩ := phases_of_evaluate hrun
    rw [hcopy]
    exact WorkingCopy.standingOn_history p.copy c
  | error e =>
    rcases evaluate_eq_error_iff.mp hrun with hreset | ⟨-, ⟨-, rfl⟩ | ⟨parent, -, hrestore⟩⟩
    · obtain rfl := congrArg Prod.fst hreset
      exact WorkingCopy.resetHard_history p.copy id
    · exact afterFirstRun_history p suite id
    · obtain rfl := congrArg Prod.fst hrestore
      exact (WorkingCopy.restorePaths_history _ _ _).trans (afterFirstRun_history p suite id)

/-- A failed evaluation has run the suite at most once. -/
theorem seen_of_evaluate_error (hrun : p.evaluate suite layout id = (p', .error e)) :
    ∃ extra, p'.seen = p.seen ++ extra ∧ extra.length ≤ 1 := by
  rcases evaluate_eq_error_iff.mp hrun with hreset | ⟨-, ⟨-, rfl⟩ | ⟨parent, -, hrestore⟩⟩
  · obtain rfl := congrArg Prod.fst hreset
    exact ⟨[], (List.append_nil p.seen).symm, Nat.zero_le 1⟩
  · exact ⟨[_], afterFirstRun_seen p suite id, Nat.le_refl 1⟩
  · obtain rfl := congrArg Prod.fst hrestore
    exact ⟨[_], afterFirstRun_seen p suite id, Nat.le_refl 1⟩

/-- The error of a verification that the lock of the index stops. -/
def lockError : VerificationError := .git (.operationFailed .indexLocked)

/-- An operation of the clone that only the lock can stop fails exactly if there is a lock. -/
theorem change_eq_error_iff (operation : WorkingCopy → WorkingCopy × Except GitError Unit)
    (hoperation : (operation p.copy).2 = p.copy.writeOutcome) :
    (p.change operation).2 = .error e ↔ e = lockError ∧ p.copy.isLocked = true := by
  rw [change_snd, hoperation, WorkingCopy.writeOutcome]
  cases p.copy.isLocked <;> simp [Except.mapError, lockError, VerificationError.ofGit, eq_comm]

/-- What judging a commit asks of the clone: the changed files and the parent are found, and only the lock
makes the reset or the restoration fail. -/
structure Answered (p : Progress σ) (suite : Suite σ) (layout : ProjectLayout) (id : CommitId) : Prop where
  changedFiles : ∃ files, p.copy.changedFiles id = .ok files
  resetHard : (p.copy.resetHard id).2 = p.copy.writeOutcome
  restorePaths : ∃ parent, (p.afterFirstRun suite id).copy.parent id = .ok parent ∧
    ((p.afterFirstRun suite id).copy.restorePaths parent [layout.codeDir]).2 =
      (p.afterFirstRun suite id).copy.writeOutcome

theorem answered_of_find? (hfind : p.copy.history.find? id = some c) : p.Answered suite layout id where
  changedFiles := by
    simp [WorkingCopy.changedFiles, WorkingCopy.changedPaths, WorkingCopy.find_eq_ok_iff.mpr hfind,
      Except.map]
  resetHard := WorkingCopy.resetHard_snd hfind
  restorePaths := by
    rw [← afterFirstRun_history p suite id] at hfind
    exact ⟨_, WorkingCopy.parent_of_find? hfind, WorkingCopy.restorePaths_parent_snd hfind _⟩

/-- If the clone answers all questions, an evaluation fails exactly if it meets a lock. -/
theorem Answered.evaluate_error_iff (hanswered : p.Answered suite layout id) :
    (p.evaluate suite layout id).2 = .error e ↔
      e = lockError ∧ (p.copy.isLocked = true ∨ (p.afterFirstRun suite id).copy.isLocked = true) := by
  obtain ⟨parent, hparent, hrestored⟩ := hanswered.restorePaths
  have hreset (e : VerificationError) :=
    change_eq_error_iff (e := e) (fun copy => copy.resetHard id) hanswered.resetHard
  have hrestore (e : VerificationError) :=
    change_eq_error_iff (e := e) (fun copy => copy.restorePaths parent [layout.codeDir]) hrestored
  have hask : (p.afterFirstRun suite id).ask (fun copy => copy.parent id) = .ok parent :=
    ask_eq_ok_iff.mpr hparent
  constructor
  · intro hrun
    rcases evaluate_eq_error_iff.mp (Prod.ext rfl hrun) with
      hstopped | ⟨-, ⟨hunknown, -⟩ | ⟨_, hask', hstopped⟩⟩
    · obtain ⟨rfl, hlock⟩ := (hreset e).mp (congrArg Prod.snd hstopped)
      exact ⟨rfl, .inl hlock⟩
    · rw [hask] at hunknown
      cases hunknown
    · obtain rfl := Except.ok.inj (hask.symm.trans hask')
      obtain ⟨rfl, hlock⟩ := (hrestore e).mp (congrArg Prod.snd hstopped)
      exact ⟨rfl, .inr hlock⟩
  · rintro ⟨rfl, hlock⟩
    cases hfirst : (p.change fun copy => copy.resetHard id).2 with
    | error e =>
      have hstopped : p.evaluate suite layout id = (_, .error e) :=
        evaluate_eq_error_iff.mpr (.inl (Prod.ext rfl hfirst))
      rw [hstopped, ((hreset e).mp hfirst).1]
    | ok value =>
      have hunlocked : ¬ p.copy.isLocked = true := by
        intro hlocked
        rw [(hreset lockError).mpr ⟨rfl, hlocked⟩] at hfirst
        cases hfirst
      have hstopped := (hrestore lockError).mpr ⟨rfl, hlock.resolve_left hunlocked⟩
      rw [evaluate_eq_error_iff.mpr (.inr ⟨hfirst, .inr ⟨parent, hask, Prod.ext rfl hstopped⟩⟩)]

end Progress

end CommitVerdict
