import CommitVerdict.Proofs.Process.Capture
import CommitVerdict.Suite.Command

namespace CommitVerdict

namespace ExitStatus

theorem exitCode_code (code : UInt8) : (ExitStatus.code code).exitCode = code.toNat := rfl

/-- The code that is reported for a signal is none that a process can end with. -/
theorem exitCode_eq_toNat_iff {status : ExitStatus} {code : UInt8} :
    status.exitCode = code.toNat ↔ status = .code code := by
  cases status with
  | code value =>
    rw [exitCode_code, Int.natCast_inj, UInt8.toNat_inj, ExitStatus.code.injEq]
  | signal number =>
    have hnegative : (ExitStatus.signal number).exitCode = -1 := rfl
    simp only [reduceCtorEq, iff_false]
    omega

theorem exitCode_eq_neg_one_iff {status : ExitStatus} :
    status.exitCode = -1 ↔ ∀ code, status ≠ .code code := by
  cases status with
  | code value =>
    constructor
    · intro hcode
      rw [exitCode_code] at hcode
      omega
    · intro hnone
      exact absurd rfl (hnone value)
  | signal number => simp [exitCode]

end ExitStatus

/-- Whether reading comes to its end: it has done so where the output is taken from, and it does so in whatever
rounds that give both streams their turn the loop goes on. -/
structure Reception.Ends (t : Reception) : Prop where
  isFinished : t.capture.isFinished = true
  inRounds : ∀ rounds : List (List Capture.Move), (∀ moves ∈ rounds, Capture.IsFair moves) →
    (Capture.start t.output).remaining ≤ rounds.length →
    ((Capture.start t.output).run (t.moves ++ rounds.flatten)).isFinished = true

theorem Reception.ends (t : Reception) : t.Ends where
  isFinished := by
    obtain ⟨moves, -, hfinished⟩ := t.exists_moves
    exact hfinished
  inRounds := by
    intro rounds hfair hlength
    rw [Capture.run_append]
    exact Capture.isFinished_of_rounds hfair (Nat.le_trans (Capture.remaining_run_le _ t.moves) hlength)

namespace ProcessFate

/-- How the process ended, if it was started and awaited. -/
def status? : ProcessFate → Option ExitStatus
  | .ended _ status => some status
  | .notStarted _ | .uncaptured _ | .lost _ _ => none

/-- What is read of the process, if it was started with both of its streams. -/
def reception? : ProcessFate → Option Reception
  | .lost reception _ | .ended reception _ => some reception
  | .notStarted _ | .uncaptured _ => none

/-- What the run of a process with some fate tells about its end. -/
structure Reports (fate : ProcessFate) (run : TestRun) : Prop where
  /-- Only a process that was started, was awaited and ended with the code 0 has passed. -/
  passed_iff : run.outcome = .passed ↔ fate.status? = some (.code 0)
  zero_iff : run.exitCode = 0 ↔ fate.status? = some (.code 0)
  /-- Every other code is told from all else, too. -/
  code_iff : ∀ code : UInt8, run.exitCode = code.toNat ↔ fate.status? = some (.code code)
  /-- A process that was killed has no code, nor has one that never ran to its end. -/
  noCode_iff : run.exitCode = -1 ↔ ∀ code, fate.status? ≠ some (.code code)
  /-- No output keeps the run from being reported. -/
  ends : ∀ reception, fate.reception? = some reception → reception.Ends
  /-- Processes that end alike are reported alike, whatever they have written and however long they took. -/
  alike : ∀ (other : ProcessFate) (duration : Duration), other.status? = fate.status? →
    (other.testRun duration).outcome = run.outcome ∧ (other.testRun duration).exitCode = run.exitCode

variable {fate : ProcessFate} {duration : Duration}

/-- Nothing but the status reaches the exit code. -/
theorem testRun_exitCode (fate : ProcessFate) (duration : Duration) :
    (fate.testRun duration).exitCode = (fate.status?.map ExitStatus.exitCode).getD (-1) := by
  cases fate <;> rfl

/-- Nothing but the exit code reaches the outcome, of runs that came to no end either. -/
theorem testRun_outcome (fate : ProcessFate) (duration : Duration) :
    (fate.testRun duration).outcome = .ofExitCode (fate.testRun duration).exitCode := by
  cases fate <;> rfl

theorem exitCode_eq_toNat_iff (code : UInt8) :
    (fate.testRun duration).exitCode = code.toNat ↔ fate.status? = some (.code code) := by
  rw [testRun_exitCode]
  cases fate.status? with
  | none => simp
  | some status => simpa using ExitStatus.exitCode_eq_toNat_iff

theorem exitCode_eq_neg_one_iff :
    (fate.testRun duration).exitCode = -1 ↔ ∀ code, fate.status? ≠ some (.code code) := by
  rw [testRun_exitCode]
  cases fate.status? with
  | none => simp
  | some status => simpa using ExitStatus.exitCode_eq_neg_one_iff

theorem outcome_eq_passed_iff :
    (fate.testRun duration).outcome = .passed ↔ fate.status? = some (.code 0) := by
  have hzero : (fate.testRun duration).exitCode = 0 ↔ fate.status? = some (.code 0) :=
    exitCode_eq_toNat_iff 0
  rw [testRun_outcome, ← hzero, TestOutcome.ofExitCode]
  by_cases hcode : (fate.testRun duration).exitCode = 0
  · rw [hcode]
    decide
  · rw [if_neg hcode]
    simp [hcode]

/-- A stream that breaks off fails no run, and a signal fails one that has written nothing. -/
example :
    ((ended ⟨⟨⟨[[97]], true⟩, ⟨[], false⟩⟩, []⟩ (.code 0)).testRun .zero).outcome = .passed ∧
      ((ended ⟨⟨⟨[], false⟩, ⟨[], false⟩⟩, []⟩ (.signal 9)).testRun .zero).exitCode = -1 := by
  decide

end ProcessFate

namespace TestCommand

open ProcessFate

/-- Whatever the command, its environment and the behaviour of its process are, running it gives a run that
reports how the process ended and nothing else. -/
theorem invoke_reports (launch : Launcher) (c : TestCommand) (host : Host) (available : Bool)
    (place : Path) (elapsed : Duration) (outside : FileSystem) (files : Directory) :
    let fate := (launch (c.request place.toAbsolute host.environment) (outside.mount place files)).1
    fate.Reports ((c.suiteBy launch host available place elapsed).invoke outside files).run := by
  intro fate
  have hrun : ((c.suiteBy launch host available place elapsed).invoke outside files).run =
      fate.testRun elapsed := rfl
  rw [hrun]
  exact {
    passed_iff := outcome_eq_passed_iff
    zero_iff := exitCode_eq_toNat_iff 0
    code_iff := exitCode_eq_toNat_iff
    noCode_iff := exitCode_eq_neg_one_iff
    ends := fun reception _ => reception.ends
    alike := by
      intro other duration hstatus
      have hcode : (other.testRun duration).exitCode = (fate.testRun elapsed).exitCode := by
        rw [testRun_exitCode, testRun_exitCode, hstatus]
      exact ⟨by rw [testRun_outcome, testRun_outcome, hcode], hcode⟩ }

end TestCommand

end CommitVerdict
