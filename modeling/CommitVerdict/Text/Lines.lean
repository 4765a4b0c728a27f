namespace CommitVerdict

/-- How line ends are written over an alphabet. -/
structure LineMarks (α : Type) where
  feed : α
  carriage : α

namespace LineMarks

def chars : LineMarks Char := ⟨'\n', '\r'⟩

def bytes : LineMarks UInt8 := ⟨10, 13⟩

variable {α : Type} [DecidableEq α]

/-- A line that ended at a line feed, from its symbols in reverse order. -/
def close (m : LineMarks α) : List α → List α
  | [] => []
  | c :: rest => if c = m.carriage then rest.reverse else (c :: rest).reverse

/-- The lines of the remaining symbols, `current` being the started line in reverse order. -/
def linesFrom (m : LineMarks α) : List α → List α → List (List α)
  | current, [] => if current.isEmpty then [] else [current.reverse]
  | current, c :: rest =>
    if c = m.feed then m.close current :: linesFrom m [] rest
    else linesFrom m (c :: current) rest

/-- The lines of a text. What follows the last line feed is a line only if it is not empty, and keeps a final
carriage return. -/
def lines (m : LineMarks α) (text : List α) : List (List α) := m.linesFrom [] text

end LineMarks

/-- The lines of a text. -/
def textLines (s : String) : List String := (LineMarks.chars.lines s.toList).map String.ofList

end CommitVerdict
