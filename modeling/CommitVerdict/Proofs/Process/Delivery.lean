import CommitVerdict.Proofs.Process.Capture

namespace CommitVerdict

namespace Capture

/-- What a beginning of a run promises for one stream. -/
structure DeliversLines (o : Output) (schedule : List Move) (stream : OutputStream) : Prop where
  /-- Nothing is lost, repeated, torn or out of order so far. -/
  isPrefix : ((start o).run schedule).linesOf stream <+: (o.through stream).lines
  /-- A closed reader has delivered everything. -/
  complete : (o.through stream).breaks = false →
    (((start o).run schedule).reader stream).isOpen = false →
    ((start o).run schedule).linesOf stream = (o.through stream).lines
  /-- Both readers get closed, whatever fair rounds the run goes on with. -/
  ends : ∀ rounds : List (List Move), (∀ moves ∈ rounds, IsFair moves) →
    (start o).remaining ≤ rounds.length →
    ((start o).run (schedule ++ rounds.flatten)).isFinished = true
  /-- The bytes of the stream alone decide what is delivered in the end. -/
  decided : ∀ (o' : Output) (schedule' : List Move), (o'.through stream).breaks = false →
    (o'.through stream).bytes = (o.through stream).bytes →
    (Reception.mk o' schedule').capture.linesOf stream = (o.through stream).lines

variable {o : Output} {stream : OutputStream}

theorem linesOf_of_closed (moves : List Move) (hreadable : (o.through stream).breaks = false)
    (hclosed : (((start o).run moves).reader stream).isOpen = false) :
    ((start o).run moves).linesOf stream = (o.through stream).lines := by
  obtain ⟨hbreaks, hcloses⟩ := run_closesAtEnd o moves stream
  have hahead : (((start o).run moves).reader stream).ahead = [] := by
    refine (hcloses hclosed).resolve_left ?_
    rw [hbreaks, hreadable]
    exact Bool.false_ne_true
  have hlines := run_lines o moves stream
  rw [StreamReader.outstanding, hahead] at hlines
  simpa [LineMarks.lines, LineMarks.linesFrom] using hlines

theorem linesOf_capture (t : Reception) (hreadable : (t.output.through stream).breaks = false) :
    t.capture.linesOf stream = (t.output.through stream).lines := by
  obtain ⟨moves, hrun, hfinished⟩ := t.exists_moves
  rw [hrun] at hfinished ⊢
  exact linesOf_of_closed moves hreadable (isFinished_iff.mp hfinished stream)

/-- Whatever the schedule, each stream delivers its lines. -/
theorem run_deliversLines (o : Output) (schedule : List Move) (stream : OutputStream) :
    DeliversLines o schedule stream where
  isPrefix := run_lines o schedule stream ▸ List.prefix_append _ _
  complete := linesOf_of_closed schedule
  ends := by
    intro rounds hfair hlength
    rw [run_append]
    exact isFinished_of_rounds hfair (Nat.le_trans ((start o).remaining_run_le schedule) hlength)
  decided := by
    intro o' schedule' hreadable hbytes
    rw [linesOf_capture _ hreadable, Transmission.lines, hbytes]
    rfl

/-- A carriage return and its line feed in two chunks, and on the other stream a character that a line
feed cuts short. -/
def cutShort : Output where
  stdout := ⟨[[97, 13], [10, 98]], false⟩
  stderr := ⟨[[226, 130], [10, 99, 13]], false⟩

/-- The attempt that has taken the carriage return is broken off by a line of the other stream. -/
def brokenOff : List Move :=
  [.arrive .stdout, .poll .stdout, .arrive .stderr, .poll .stderr, .arrive .stderr, .poll .stderr,
    .arrive .stdout, .poll .stdout]

theorem run_deliversLines_cutShort :
    ((start cutShort).run brokenOff).lines = [(.stderr, "\uFFFD"), (.stdout, "a")] ∧
      (cutShort.through .stdout).lines = ["a", "b"] ∧
      (cutShort.through .stderr).lines = ["\uFFFD", "c\r"] ∧
      DeliversLines cutShort brokenOff .stdout ∧
      (Reception.mk cutShort brokenOff).capture.linesOf .stdout = ["a", "b"] ∧
      (Reception.mk cutShort brokenOff).capture.linesOf .stderr = ["\uFFFD", "c\r"] := by
  have hstdout : (cutShort.through .stdout).lines = ["a", "b"] := by decide
  have hstderr : (cutShort.through .stderr).lines = ["\uFFFD", "c\r"] := by decide
  refine ⟨by decide, hstdout, hstderr, run_deliversLines _ _ _, ?_, ?_⟩
  · rw [← hstdout]
    exact (run_deliversLines cutShort [] .stdout).decided cutShort brokenOff rfl rfl
  · rw [← hstderr]
    exact (run_deliversLines cutShort [] .stderr).decided cutShort brokenOff rfl rfl

end Capture

end CommitVerdict
