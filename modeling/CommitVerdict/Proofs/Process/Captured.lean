import CommitVerdict.Proofs.Process.Capture

namespace CommitVerdict

namespace StreamReader

variable {r r' : StreamReader} {delivered lines : List String}

/-- The lines of a text, with line ends between them. -/
def joined (lines : List String) : String := "\n".intercalate lines

theorem joined_cons (line : String) (hlines : lines ≠ []) :
    joined (line :: lines) = line ++ "\n" ++ joined lines :=
  String.intercalate_cons_of_ne_nil hlines

/-- A text that is not empty goes on with all lines that are added to it. -/
theorem foldl_addLine_of_ne {text : String} (htext : text ≠ "") (lines : List String) :
    lines.foldl addLine text = joined (text :: lines) := by
  induction lines generalizing text with
  | nil => exact String.intercalate_singleton.symm
  | cons line lines ih =>
    have hadd : addLine text line = text ++ "\n" ++ line := if_neg (by simpa using htext)
    have hne : text ++ "\n" ++ line ≠ "" := by simp [htext]
    rw [List.foldl_cons, hadd, ih hne, joined_cons text (List.cons_ne_nil line lines)]
    exact String.intercalate_cons_append

theorem foldl_addLine (lines : List String) :
    lines.foldl addLine "" = joined (lines.dropWhile (· == "")) := by
  induction lines with
  | nil => exact String.intercalate_nil.symm
  | cons line lines ih =>
    by_cases hline : line = ""
    · subst hline
      exact ih
    · rw [List.dropWhile_cons_of_neg (by simpa using hline), List.foldl_cons,
        ← foldl_addLine_of_ne hline]
      rfl

/-- Without its empty lines at the beginning a text is no longer. -/
theorem length_joined_dropWhile_le (lines : List String) :
    (joined (lines.dropWhile (· == ""))).length ≤ (joined lines).length := by
  induction lines with
  | nil => exact Nat.le_refl _
  | cons line lines ih =>
    by_cases hline : line = ""
    · subst hline
      rw [List.dropWhile_cons_of_pos (by rfl)]
      by_cases hlines : lines = []
      · subst hlines
        exact Nat.le_refl _
      · rw [joined_cons "" hlines, String.length_append]
        omega
    · refine Nat.le_of_eq ?_
      rw [List.dropWhile_cons_of_neg (by simpa using hline)]

/-- Empty lines at the beginning make a difference if another line follows the first one. -/
theorem joined_dropWhile_eq_iff (lines : List String) :
    joined (lines.dropWhile (· == "")) = joined lines ↔ lines.length ≤ 1 ∨ lines.head? ≠ some "" := by
  match lines with
  | [] => simp
  | [line] => by_cases hline : line = "" <;> simp [hline, joined, String.intercalate_singleton]
  | line :: next :: lines =>
    by_cases hline : line = ""
    · subst hline
      have hshorter := length_joined_dropWhile_le (next :: lines)
      have hlonger := congrArg String.length (joined_cons "" (List.cons_ne_nil next lines))
      have hne : joined ((next :: lines).dropWhile (· == "")) ≠ joined ("" :: next :: lines) := by
        intro heq
        rw [String.length_append, String.length_append, ← heq] at hlonger
        have hfeed : ("" : String).length + "\n".length = 1 := by decide
        omega
      rw [List.dropWhile_cons_of_pos (by rfl)]
      simp [hne]
    · rw [List.dropWhile_cons_of_neg (by simpa using hline)]
      simp [hline]

theorem Step.text_eq (hstep : Step r delivered r') : r'.text = delivered.foldl addLine r.text := by
  cases hstep with
  | idle | interrupt => rfl
  | arrive =>
    obtain ⟨coming, arrived, heq⟩ := r.arrive_keeps
    rw [heq]
    rfl
  | waits hopen hnext | line hopen hnext | exhausted hopen hnext | fails hopen hnext =>
    obtain ⟨arrived, line, rfl⟩ := keeps_of_nextLine hnext
    rfl

end StreamReader

open StreamReader

/-- At every moment the text of a stream is put together from the lines that have been delivered. -/
theorem Capture.run_text (o : Output) (moves : List Move) (stream : OutputStream) :
    (((start o).run moves).reader stream).text =
      (((start o).run moves).linesOf stream).foldl addLine "" := by
  refine run_keeps (P := fun r lines => r.text = lines.foldl addLine "") (fun hstep htext => ?_)
    moves ?_
  · rw [hstep.text_eq, htext, List.foldl_append]
  · rw [reader_start]
    rfl

theorem Reception.text_eq (t : Reception) (stream : OutputStream) :
    (t.capture.reader stream).text = joined ((t.capture.linesOf stream).dropWhile (· == "")) := by
  obtain ⟨moves, hrun, -⟩ := t.exists_moves
  rw [hrun, Capture.run_text, foldl_addLine]

/-- The text that a run of the suite has captured of a stream. -/
def TestRun.captured (r : TestRun) : OutputStream → String
  | .stdout => r.stdout
  | .stderr => r.stderr

/-- The lines of a stream that have been delivered. -/
def ProcessFate.streamed (fate : ProcessFate) (stream : OutputStream) : List String :=
  (fate.lines.filter fun line => line.1 == stream).map (·.2)

namespace ProcessFate

theorem captured_ended (t : Reception) (status : ExitStatus) (duration : Duration)
    (stream : OutputStream) :
    ((ended t status).testRun duration).captured stream = (t.capture.reader stream).text := by
  cases stream <;> rfl

/-- The captured text is that of the streamed lines from the first one on that is not empty, which is the
text of all of them exactly if they do not begin with an empty line or are one line only. -/
theorem captured_eq_streamed_iff (t : Reception) (status : ExitStatus) (duration : Duration)
    (stream : OutputStream) :
    let streamed := (ended t status).streamed stream
    let captured := ((ended t status).testRun duration).captured stream
    captured = joined (streamed.dropWhile (· == "")) ∧
      (captured = joined streamed ↔ streamed.length ≤ 1 ∨ streamed.head? ≠ some "") := by
  intro streamed captured
  have hcaptured : captured = joined (streamed.dropWhile (· == "")) :=
    (captured_ended t status duration stream).trans (t.text_eq stream)
  exact ⟨hcaptured, by rw [hcaptured, joined_dropWhile_eq_iff]⟩

/-- An empty line in front of another one is streamed but not captured. -/
theorem captured_ne_streamed_of_blank_first :
    let fate := ended ⟨⟨⟨[[10, 102, 111, 111, 10]], false⟩, ⟨[], false⟩⟩, []⟩ (.code 0)
    fate.streamed .stdout = ["", "foo"] ∧ (fate.testRun .zero).captured .stdout = "foo" ∧
      (fate.testRun .zero).captured .stdout ≠ joined (fate.streamed .stdout) := by
  decide

end ProcessFate

end CommitVerdict
