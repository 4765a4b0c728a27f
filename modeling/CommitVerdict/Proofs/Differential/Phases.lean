import CommitVerdict.Differential
import CommitVerdict.Proofs.WorkingCopy.Checkout

namespace CommitVerdict

namespace Progress

variable {σ : Type} {p p' : Progress σ} {suite : Suite σ} {layout : ProjectLayout} {id : CommitId}
  {c : Commit}

theorem change_eq_ok_iff {operation : WorkingCopy → WorkingCopy × Except GitError Unit} :
    p.change operation = (p', .ok ()) ↔
      ∃ w, operation p.copy = (w, .ok ()) ∧ p' = { p with copy := w } := by
  unfold change
  generalize operation p.copy = outcome
  obtain ⟨w, result⟩ := outcome
  cases result with
  | error e => simp [Except.mapError]
  | ok value => simp [Except.mapError, eq_comm]

theorem ask_eq_ok_iff {α : Type} {question : WorkingCopy → Except GitError α} {answer : α} :
    p.ask question = .ok answer ↔ question p.copy = .ok answer := by
  unfold ask
  cases question p.copy <;> simp [Except.mapError]

@[simp]
theorem runPhase_copy (p : Progress σ) (suite : Suite σ) (id : CommitId) (phase : Phase) :
    (p.runPhase suite id phase).1.copy =
      p.copy.withFiles (suite.invoke p.memory p.copy.files).files := rfl

@[simp]
theorem runPhase_memory (p : Progress σ) (suite : Suite σ) (id : CommitId) (phase : Phase) :
    (p.runPhase suite id phase).1.memory = (suite.invoke p.memory p.copy.files).memory := rfl

@[simp]
theorem runPhase_seen (p : Progress σ) (suite : Suite σ) (id : CommitId) (phase : Phase) :
    (p.runPhase suite id phase).1.seen = p.seen ++ [p.copy.files] := rfl

@[simp]
theorem runPhase_run (p : Progress σ) (suite : Suite σ) (id : CommitId) (phase : Phase) :
    (p.runPhase suite id phase).2 = (suite.invoke p.memory p.copy.files).run := rfl

/-- An evaluation succeeds exactly if both checkouts do and the parent can be looked up; then it
consists of these and two runs of the suite. -/
theorem evaluate_eq_ok_iff {results : PhaseResults} :
    p.evaluate suite layout id = (p', .ok results) ↔
      ∃ q r parent, p.change (fun copy => copy.resetHard id) = (q, .ok ()) ∧
        (q.runPhase suite id .postChange).1.ask (fun copy => copy.parent id) = .ok parent ∧
        (q.runPhase suite id .postChange).1.change
          (fun copy => copy.restorePaths parent [layout.codeDir]) = (r, .ok ()) ∧
        p' = (r.runPhase suite id .preChange).1 ∧
        results = ⟨(q.runPhase suite id .postChange).2, (r.runPhase suite id .preChange).2⟩ := by
  unfold evaluate
  generalize p.change (fun copy => copy.resetHard id) = reset
  obtain ⟨q, reset⟩ := reset
  cases reset with
  | error e => simp
  | ok value =>
    simp only [Prod.mk.injEq, and_true, exists_and_left, exists_eq_left']
    generalize q.runPhase suite id .postChange = first
    obtain ⟨q, postChange⟩ := first
    simp only []
    generalize q.ask (fun copy => copy.parent id) = answer
    cases answer with
    | error e => simp
    | ok parent =>
      simp only [Except.ok.injEq, exists_eq_left']
      generalize q.change (fun copy => copy.restorePaths parent [layout.codeDir]) = restored
      obtain ⟨r, restored⟩ := restored
      cases restored with
      | error e => simp
      | ok value => simp [eq_comm]

/-- The two runs of the suite in an evaluation of the commit `c`: the first one starts from `before`,
the second one from `after`. -/
structure Phases (p : Progress σ) (suite : Suite σ) (layout : ProjectLayout) (c : Commit)
    (first second : Invocation σ) (before after : Directory) : Prop where
  before_eq : before = (p.copy.standingOn c).files
  first_eq : first = suite.invoke p.memory before
  after_eq : after = ((p.copy.standingOn c).withFiles first.files).filesAfter
    (p.copy.history.parentTree c) (Pathspec.ofTexts [layout.codeDir]).selects
  second_eq : second = suite.invoke first.memory after

/-- The clone after an evaluation, apart from what the second run does to the files. -/
def copyAfter (p : Progress σ) (layout : ProjectLayout) (c : Commit) (first : Invocation σ) :
    WorkingCopy :=
  ((p.copy.standingOn c).withFiles first.files).overwritten (p.copy.history.parentTree c)
    (Pathspec.ofTexts [layout.codeDir]).selects

/-- A successful evaluation runs the suite exactly twice. -/
theorem phases_of_evaluate {results : PhaseResults}
    (hrun : p.evaluate suite layout id = (p', .ok results)) :
    ∃ c first second before after, p.copy.history.find? id = some c ∧
      p.Phases suite layout c first second before after ∧ results = ⟨first.run, second.run⟩ ∧
      p'.copy = (p.copyAfter layout c first).withFiles second.files ∧ p'.memory = second.memory ∧
      p'.seen = p.seen ++ [before, after] := by
  obtain ⟨q, r, parent, hreset, hparent, hrestore, rfl, rfl⟩ := evaluate_eq_ok_iff.mp hrun
  obtain ⟨w, hstand, rfl⟩ := change_eq_ok_iff.mp hreset
  obtain ⟨c, hfind, -, rfl⟩ := WorkingCopy.resetHard_eq_ok_iff.mp hstand
  have hfind' (files : Directory) :
      ((p.copy.standingOn c).withFiles files).history.find? id = some c := by
    simpa only [WorkingCopy.withFiles_history, WorkingCopy.standingOn_history] using hfind
  rw [ask_eq_ok_iff, runPhase_copy, WorkingCopy.parent_of_find? (hfind' _), Except.ok.injEq] at hparent
  subst hparent
  obtain ⟨w, hrestored, rfl⟩ := change_eq_ok_iff.mp hrestore
  rw [runPhase_copy, WorkingCopy.restorePaths_parent (hfind' _)] at hrestored
  obtain ⟨-, rfl⟩ := WorkingCopy.overwrite_eq_ok_iff.mp hrestored
  simp only [runPhase_copy, runPhase_memory, runPhase_seen, runPhase_run,
    WorkingCopy.withFiles_history, WorkingCopy.standingOn_history, List.append_assoc]
  exact ⟨c, _, _, _, _, hfind, ⟨rfl, rfl, rfl, rfl⟩, rfl, rfl, rfl, rfl⟩

end Progress

end CommitVerdict
