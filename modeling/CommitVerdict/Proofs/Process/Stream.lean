import CommitVerdict.Process.Stream
import CommitVerdict.Proofs.Text.Lines
import Mathlib.Data.List.TakeDrop

namespace CommitVerdict

theorem Scan.flatten_of_ended {chunks behind : List Bytes} {bytes : Bytes}
    (hscan : Scan.ofChunks chunks = .ended bytes behind) :
    ∃ line, LineMarks.bytes.feed ∉ line ∧ bytes = line ++ [LineMarks.bytes.feed] ∧
      chunks.flatten = line ++ LineMarks.bytes.feed :: behind.flatten := by
  induction chunks generalizing bytes behind with
  | nil => cases hscan
  | cons chunk rest ih =>
    by_cases hchunk : LineMarks.bytes.feed ∈ chunk
    · obtain ⟨line, others, rfl, hline⟩ := List.eq_append_cons_of_mem hchunk
      have hspan : (line ++ LineMarks.bytes.feed :: others).span (· != LineMarks.bytes.feed) =
          (line, LineMarks.bytes.feed :: others) := by
        have hpass : ∀ b ∈ line, (b != LineMarks.bytes.feed) = true := by
          intro b hb
          exact bne_iff_ne.mpr fun heq => hline (heq ▸ hb)
        rw [List.span_eq_takeWhile_dropWhile, List.takeWhile_append_of_pos hpass,
          List.dropWhile_append_of_pos hpass]
        simp
      rw [Scan.ofChunks, dif_pos hchunk, hspan] at hscan
      cases hscan
      exact ⟨line, hline, rfl, by simp⟩
    · rw [Scan.ofChunks, dif_neg hchunk] at hscan
      split at hscan
      · rename_i bytes' behind' hrest
        cases hscan
        obtain ⟨line, hline, rfl, hflatten⟩ := ih hrest
        refine ⟨chunk ++ line, by simp [hchunk, hline], (List.append_assoc _ _ _).symm, ?_⟩
        rw [List.flatten_cons, hflatten, List.append_assoc]
      · cases hscan

theorem Scan.flatten_of_unended {chunks : List Bytes} {bytes : Bytes}
    {hunended : LineMarks.bytes.feed ∉ bytes}
    (hscan : Scan.ofChunks chunks = .unended bytes hunended) : chunks.flatten = bytes := by
  induction chunks generalizing bytes with
  | nil =>
    cases hscan
    rfl
  | cons chunk rest ih =>
    by_cases hchunk : LineMarks.bytes.feed ∈ chunk
    · rw [Scan.ofChunks, dif_pos hchunk] at hscan
      cases hscan
    · rw [Scan.ofChunks, dif_neg hchunk] at hscan
      split at hscan
      · cases hscan
      · rename_i bytes' hbytes' hrest
        cases hscan
        rw [List.flatten_cons, ih hrest]

namespace StreamReader

variable {r r' : StreamReader}

theorem lineText_ended (line : Bytes) :
    lineText (line ++ [LineMarks.bytes.feed]) = Utf8.text (LineMarks.bytes.dropCarriage line) := by
  simp [lineText, LineMarks.dropCarriage]

theorem lineText_unended {line : Bytes} (hline : LineMarks.bytes.feed ∉ line) :
    lineText line = Utf8.text line := by
  have hlast : line.getLast? ≠ some LineMarks.bytes.feed :=
    fun hlast => hline (List.mem_of_getLast? hlast)
  rw [lineText, if_neg hlast]

/-- The lines that are still to be delivered, if reading does not fail. -/
def outstanding (r : StreamReader) : List String := (LineMarks.bytes.lines r.ahead).map Utf8.text

@[simp]
theorem ahead_interrupt (r : StreamReader) : r.interrupt.ahead = r.ahead := rfl

@[simp]
theorem ahead_push (r : StreamReader) (line : String) : (r.push line).ahead = r.ahead := rfl

@[simp]
theorem ahead_close (r : StreamReader) : r.close.ahead = r.ahead := rfl

@[simp]
theorem ahead_arrive (r : StreamReader) : r.arrive.ahead = r.ahead := by
  unfold arrive
  split <;> simp [ahead, *]

@[simp]
theorem ahead_start (t : Transmission) : (start t).ahead = t.bytes := by
  simp [ahead, start, StartedLine.empty, Transmission.bytes]

theorem arrive_keeps (r : StreamReader) :
    ∃ coming arrived, r.arrive = { r with coming := coming, arrived := arrived } := by
  unfold arrive
  split
  · exact ⟨_, _, rfl⟩
  · exact ⟨_, r.arrived, rfl⟩
  · exact ⟨r.coming, r.arrived, rfl⟩

/-- What an attempt to read a line comes to, by what lies ahead of the reader. -/
inductive Outcome (r : StreamReader) : StreamReader → Attempt → Prop
  /-- A line feed has arrived. -/
  | ended {r' : StreamReader} {line : Bytes} (hline : LineMarks.bytes.feed ∉ line)
      (hahead : r.ahead = line ++ LineMarks.bytes.feed :: r'.ahead) :
      Outcome r r' (.line (Utf8.text (LineMarks.bytes.dropCarriage line)))
  /-- The end completes a line that has been started. -/
  | last {r' : StreamReader} (hcoming : r.coming = none) (hunended : LineMarks.bytes.feed ∉ r.ahead)
      (hne : r.ahead ≠ []) (hahead : r'.ahead = []) : Outcome r r' (.line (Utf8.text r.ahead))
  | waits {r' : StreamReader} (hcoming : r.coming ≠ none) (hahead : r'.ahead = r.ahead) :
      Outcome r r' .waits
  | exhausted {r' : StreamReader} (hahead : r.ahead = []) (hahead' : r'.ahead = []) :
      Outcome r r' .exhausted
  | fails {r' : StreamReader} (hbreaks : r.breaks = true) (hahead : r'.ahead = r.ahead) :
      Outcome r r' .fails

/-- An attempt takes what has arrived and nothing else. -/
theorem nextLine_keeps (r : StreamReader) :
    ∃ arrived line, r.nextLine.1 = { r with arrived := arrived, line := line } := by
  unfold nextLine
  split
  · exact ⟨_, _, rfl⟩
  · dsimp only
    split
    · exact ⟨_, _, rfl⟩
    · split
      · exact ⟨_, _, rfl⟩
      · split <;> exact ⟨_, _, rfl⟩

theorem nextLine_outcome (r : StreamReader) : r.Outcome r.nextLine.1 r.nextLine.2 := by
  unfold nextLine
  split
  · rename_i bytes behind hscan
    obtain ⟨line, hline, rfl, hflatten⟩ := Scan.flatten_of_ended hscan
    rw [← List.append_assoc, lineText_ended]
    refine .ended (by simp [r.line.unended, hline]) ?_
    simp [ahead, hflatten, StartedLine.empty]
  · rename_i bytes hbytes hscan
    have hflatten := Scan.flatten_of_unended hscan
    dsimp only
    split
    · rename_i chunks hcoming
      refine .waits (by simp [hcoming]) ?_
      simp [ahead, hflatten, hcoming, StartedLine.extend]
    · rename_i hcoming
      have hahead : r.ahead = (r.line.extend bytes hbytes).bytes := by
        simp [ahead, hflatten, hcoming, StartedLine.extend]
      split
      · rename_i hbreaks
        refine .fails hbreaks ?_
        rw [hahead]
        simp [ahead, hcoming]
      · split
        · rename_i hnothing
          have hempty : (r.line.extend bytes hbytes).bytes = [] := by simpa using hnothing.2
          refine .exhausted (hahead.trans hempty) ?_
          simp [ahead, hempty, hcoming]
        · rename_i hsomething
          have hne : (r.line.extend bytes hbytes).bytes ≠ [] := by
            intro hempty
            have htaken := (r.line.extend bytes hbytes).taken_le
            rw [hempty, List.length_nil, Nat.le_zero] at htaken
            exact hsomething ⟨htaken, by simp [hempty]⟩
          rw [lineText_unended (r.line.extend bytes hbytes).unended, ← hahead]
          refine .last hcoming (hahead ▸ (r.line.extend bytes hbytes).unended) (hahead ▸ hne) ?_
          simp [ahead, hcoming, StartedLine.empty]

/-- A line that an attempt gets is the first one outstanding. -/
theorem Outcome.outstanding_of_line {text : String} (houtcome : r.Outcome r' (.line text)) :
    r.outstanding = text :: r'.outstanding := by
  cases houtcome with
  | ended hline hahead =>
    rw [outstanding, hahead, LineMarks.lines_append_feed hline, List.map_cons]
    rfl
  | last hcoming hunended hne hahead =>
    rw [outstanding, outstanding, LineMarks.lines_of_unended hunended, hahead,
      if_neg (by simpa using hne)]
    rfl

/-- An attempt that gets a line takes some bytes. -/
theorem Outcome.ahead_lt_of_line {text : String} (houtcome : r.Outcome r' (.line text)) :
    r'.ahead.length < r.ahead.length := by
  cases houtcome with
  | ended hline hahead =>
    rw [hahead, List.length_append, List.length_cons]
    omega
  | last hcoming hunended hne hahead =>
    rw [hahead]
    exact List.length_pos_of_ne_nil hne

end StreamReader

end CommitVerdict
