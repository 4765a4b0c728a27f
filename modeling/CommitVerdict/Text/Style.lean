namespace CommitVerdict

/-- The codes of a style, in the order in which they are written; none for plain text. -/
structure Style where
  codes : List Nat
deriving DecidableEq, Repr

namespace Style

def plain : Style := ⟨[]⟩
def dimmed : Style := ⟨[2]⟩
def brightRed : Style := ⟨[91]⟩
def brightGreen : Style := ⟨[92]⟩
def brightBlue : Style := ⟨[94]⟩
def brightCyan : Style := ⟨[96]⟩
def brightWhite : Style := ⟨[97]⟩

/-- The same style in bold. -/
def bold (s : Style) : Style := ⟨1 :: s.codes⟩

def resetChars : List Char := ['\x1b', '[', '0', 'm']

/-- The sequence that turns the style on. -/
def opening (s : Style) : List Char :=
  let codes := s.codes.map fun code => Nat.toDigits 10 code
  '\x1b' :: '[' :: (List.intercalate [';'] codes ++ ['m'])

/-- Repeats the style after each reset in the text, which would end it early. -/
def resume (opening : List Char) : List Char → List Char
  | '\x1b' :: '[' :: '0' :: 'm' :: rest => resetChars ++ opening ++ resume opening rest
  | c :: rest => c :: resume opening rest
  | [] => []

/-- The text in this style; without colours, the text itself. -/
def paint (s : Style) (colored : Bool) (text : String) : String :=
  if colored && !s.codes.isEmpty then
    String.ofList (s.opening ++ resume s.opening text.toList ++ resetChars)
  else text

end Style

end CommitVerdict
