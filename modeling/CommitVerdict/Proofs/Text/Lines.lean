import CommitVerdict.Text.Lines
import Mathlib.Algebra.Ring.Nat
import Mathlib.Data.List.Basic

namespace CommitVerdict

namespace LineMarks

variable {α : Type} [DecidableEq α] {m : LineMarks α} {line text : List α}

/-- A piece without a carriage return at its end. -/
def dropCarriage (m : LineMarks α) (piece : List α) : List α :=
  if piece.getLast? = some m.carriage then piece.dropLast else piece

/-- The lines that the pieces of a text are. -/
def ofPieces (m : LineMarks α) : List (List α) → List (List α)
  | [] => []
  | [last] => if last.isEmpty then [] else [last]
  | piece :: more => m.dropCarriage piece :: ofPieces m more

theorem ofPieces_cons (piece : List α) {more : List (List α)} (hmore : more ≠ []) :
    m.ofPieces (piece :: more) = m.dropCarriage piece :: m.ofPieces more := by
  cases more with
  | nil => exact absurd rfl hmore
  | cons next more => rfl

theorem close_eq (current : List α) : m.close current = m.dropCarriage current.reverse := by
  cases current with
  | nil => rfl
  | cons c current => by_cases hc : c = m.carriage <;> simp [close, dropCarriage, hc]

theorem linesFrom_eq {current : List α} (hcurrent : m.feed ∉ current) :
    m.linesFrom current text = m.ofPieces ((current.reverse ++ text).splitOn m.feed) := by
  induction text generalizing current with
  | nil =>
    have hnone : m.feed ∉ current.reverse := by simpa using hcurrent
    rw [List.append_nil, List.splitOn_eq_singleton hnone]
    simp [linesFrom, ofPieces]
  | cons c text ih =>
    by_cases hc : c = m.feed
    · have hnone : m.feed ∉ current.reverse := by simpa using hcurrent
      rw [hc, List.splitOn_append_cons_self_of_not_mem hnone,
        ofPieces_cons _ (List.splitOn_ne_nil _ _), linesFrom, if_pos rfl, close_eq,
        ih List.not_mem_nil]
      rfl
    · have hmore : m.feed ∉ c :: current := by simp [hcurrent, Ne.symm hc]
      rw [linesFrom, if_neg hc, ih hmore, List.reverse_cons, List.append_assoc]
      rfl

/-- The lines of a text are those that its pieces between line feeds are. -/
theorem lines_eq_ofPieces (m : LineMarks α) (text : List α) :
    m.lines text = m.ofPieces (text.splitOn m.feed) :=
  linesFrom_eq List.not_mem_nil

theorem lines_append_feed (hline : m.feed ∉ line) (rest : List α) :
    m.lines (line ++ m.feed :: rest) = m.dropCarriage line :: m.lines rest := by
  rw [lines_eq_ofPieces, lines_eq_ofPieces, List.splitOn_append_cons_self_of_not_mem hline,
    ofPieces_cons _ (List.splitOn_ne_nil _ _)]

theorem lines_of_unended (hline : m.feed ∉ line) :
    m.lines line = if line.isEmpty then [] else [line] := by
  rw [lines_eq_ofPieces, List.splitOn_eq_singleton hline]
  rfl

/-- A text is a line that no line feed ends, or it has a line feed behind its first line and a text
behind that. -/
theorem text_induction (m : LineMarks α) {P : List α → Prop} (unended : ∀ line, m.feed ∉ line → P line)
    (ended : ∀ line rest, m.feed ∉ line → P rest → P (line ++ m.feed :: rest)) (text : List α) :
    P text := by
  induction hlength : text.length using Nat.strongRecOn generalizing text with
  | _ n ih =>
    by_cases hfeed : m.feed ∈ text
    · obtain ⟨line, rest, rfl, hline⟩ := List.eq_append_cons_of_mem hfeed
      refine ended line rest hline (ih rest.length ?_ rest rfl)
      rw [← hlength, List.length_append, List.length_cons]
      omega
    · exact unended text hfeed

theorem count_dropCarriage {c : α} (hc : c ≠ m.carriage) (line : List α) :
    (m.dropCarriage line).count c = line.count c := by
  unfold dropCarriage
  split
  · rename_i hlast
    obtain ⟨front, rfl⟩ := List.getLast?_eq_some_iff.mp hlast
    rw [List.dropLast_concat, List.count_append, List.count_singleton,
      if_neg (by simpa using hc.symm), Nat.add_zero]
  · rfl

/-- Everything but line feeds and carriage returns is in the lines as often as in the text. -/
theorem sum_count_lines {c : α} (hfeed : c ≠ m.feed) (hcarriage : c ≠ m.carriage) (text : List α) :
    ((m.lines text).map (List.count c)).sum = text.count c := by
  induction text using text_induction m with
  | unended line hline =>
    rw [lines_of_unended hline]
    cases line <;> simp
  | ended line rest hline ih =>
    rw [lines_append_feed hline, List.map_cons, List.sum_cons, ih, count_dropCarriage hcarriage,
      List.count_append, List.count_cons_of_ne hfeed.symm]

end LineMarks

end CommitVerdict
