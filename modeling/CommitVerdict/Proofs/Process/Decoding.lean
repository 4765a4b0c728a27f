import CommitVerdict.Proofs.Process.Capture
import CommitVerdict.Proofs.Text.Lossy

namespace CommitVerdict

namespace StreamReader

variable {r : StreamReader} {lines : List String}

/-- The lines that are delivered until the reader is closed, wherever chunks arrive and attempts are
broken off in between. -/
inductive ReadsToEnd : StreamReader → List String → Prop
  | closed {r : StreamReader} (hclosed : r.isOpen = false) : ReadsToEnd r []
  | step {r r' : StreamReader} {delivered lines : List String} (hstep : Step r delivered r')
      (hrest : ReadsToEnd r' lines) : ReadsToEnd r (delivered ++ lines)

/-- What is delivered until a reader is closed are its outstanding lines. -/
theorem ReadsToEnd.lines_eq (hreads : r.ReadsToEnd lines) (hreadable : r.breaks = false)
    (hcloses : r.ClosesAtEnd) : lines = r.outstanding := by
  induction hreads with
  | closed hclosed =>
    have hahead := (hcloses hclosed).resolve_left (by simp [hreadable])
    rw [outstanding, hahead]
    rfl
  | step hstep hrest ih =>
    rw [hstep.outstanding_eq, ih (hstep.breaks_eq.trans hreadable) (hstep.closesAtEnd hcloses)]

/-- Every reader comes to its end: something arrives as long as anything is to come, and after that each
attempt gets a line or closes the reader. -/
theorem exists_readsToEnd (r : StreamReader) : ∃ lines, r.ReadsToEnd lines := by
  induction hremaining : r.remaining using Nat.strongRecOn generalizing r with
  | _ n ih =>
    subst hremaining
    have hgoOn {r' : StreamReader} {delivered : List String} (hstep : Step r delivered r')
        (hless : r'.remaining < r.remaining) : ∃ lines, r.ReadsToEnd lines := by
      obtain ⟨lines, hrest⟩ := ih _ hless r' rfl
      exact ⟨delivered ++ lines, .step hstep hrest⟩
    cases hopen : r.isOpen with
    | false => exact ⟨[], .closed hopen⟩
    | true =>
      by_cases hcoming : r.coming = none
      · rcases hnext : r.nextLine with ⟨r', attempt⟩
        cases attempt with
        | waits =>
          cases outcome_of_nextLine hnext with
          | waits hsome => exact absurd hcoming hsome
        | line text => exact hgoOn (.line hopen hnext) (remaining_lt_of_line hopen hnext)
        | exhausted => exact hgoOn (.exhausted hopen hnext) (remaining_close_lt hopen rfl)
        | fails => exact hgoOn (.fails hopen hnext) (remaining_close_lt hopen rfl)
      · exact hgoOn (.arrive r) (remaining_arrive_lt hopen hcoming)

theorem readsToEnd_start (chunks : List Bytes) :
    (start ⟨chunks, false⟩).ReadsToEnd lines ↔ lines = (start ⟨chunks, false⟩).outstanding := by
  have heq {lines : List String} (hreads : (start ⟨chunks, false⟩).ReadsToEnd lines) :
      lines = (start ⟨chunks, false⟩).outstanding := hreads.lines_eq rfl nofun
  obtain ⟨lines', hreads⟩ := exists_readsToEnd (start ⟨chunks, false⟩)
  constructor
  · exact heq
  · rintro rfl
    exact heq hreads ▸ hreads

/-- What is read of a stream to its end are the lines of the text that all its bytes together are. They
have as many replacement characters as that text. -/
theorem readsToEnd_iff_textLines (chunks : List Bytes) (lines : List String) :
    let text := Utf8.text chunks.flatten
    ((start ⟨chunks, false⟩).ReadsToEnd lines ↔ lines = textLines text) ∧
      ((textLines text).map fun line => line.toList.count Utf8.replacement).sum =
        text.toList.count Utf8.replacement := by
  intro text
  constructor
  · rw [readsToEnd_start, outstanding, ahead_start, ← Utf8.textLines_text]
    rfl
  · have hcount := LineMarks.sum_count_lines (m := LineMarks.chars) (c := Utf8.replacement) (by decide)
      (by decide) text.toList
    rw [← hcount, textLines, List.map_map]
    simp [Function.comp_def]

/-- One character is cut short by a line end, the other one by the end of the stream. -/
example : textLines (Utf8.text [226, 130, 13, 10, 240, 159]) = ["\uFFFD", "\uFFFD"] := by decide

end StreamReader

end CommitVerdict
