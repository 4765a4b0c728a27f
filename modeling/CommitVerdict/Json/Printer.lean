import CommitVerdict.Json.Basic

namespace CommitVerdict

namespace Json

/-- A character between the quotes of a string. The quote, the backslash and the controls below the space are
escaped; every other character stands for itself. -/
def escapeChar (c : Char) : List Char :=
  match c with
  | '"' => ['\\', '"']
  | '\\' => ['\\', '\\']
  | '\x08' => ['\\', 'b']
  | '\x0c' => ['\\', 'f']
  | '\n' => ['\\', 'n']
  | '\r' => ['\\', 'r']
  | '\t' => ['\\', 't']
  | c =>
    if c.toNat < 0x10 then ['\\', 'u', '0', '0', '0', Nat.digitChar c.toNat]
    else if c.toNat < 0x20 then ['\\', 'u', '0', '0', '1', Nat.digitChar (c.toNat - 0x10)]
    else [c]

def stringChars (s : String) : List Char := '"' :: (s.toList.flatMap escapeChar ++ ['"'])

def boolChars (b : Bool) : List Char := (if b then "true" else "false").toList

/-- How the tokens of a document are set apart. -/
structure Layout where
  /-- What stands in front of each item, and of the closing bracket, at a depth. -/
  line : Nat → List Char
  /-- What stands behind the colon of a field. -/
  gap : List Char

namespace Layout

/-- No space between tokens. -/
def compact : Layout := ⟨fun _ => [], []⟩

/-- Every item and field on a line of its own. -/
def pretty : Layout := ⟨fun depth => '\n' :: List.replicate (2 * depth) ' ', [' ']⟩

end Layout

mutual

/-- The text of a document; `depth` is the depth of the line on which it starts. -/
def chars (layout : Layout) (depth : Nat) : Json → List Char
  | .null => "null".toList
  | .bool b => boolChars b
  | .number n => n.chars
  | .string s => stringChars s
  | .array [] => ['[', ']']
  | .array (item :: rest) =>
    '[' :: (layout.line (depth + 1) ++ chars layout (depth + 1) item
      ++ itemChars layout (depth + 1) rest ++ layout.line depth ++ [']'])
  | .object [] => ['\x7b', '\x7d']
  | .object ((name, value) :: rest) =>
    '\x7b' :: (layout.line (depth + 1) ++ stringChars name ++ ':' :: layout.gap
      ++ chars layout (depth + 1) value ++ fieldChars layout (depth + 1) rest
      ++ layout.line depth ++ ['\x7d'])

/-- The items of an array behind its first one. -/
def itemChars (layout : Layout) (depth : Nat) : List Json → List Char
  | [] => []
  | item :: rest =>
    ',' :: (layout.line depth ++ chars layout depth item ++ itemChars layout depth rest)

/-- The fields of an object behind its first one. -/
def fieldChars (layout : Layout) (depth : Nat) : List (String × Json) → List Char
  | [] => []
  | (name, value) :: rest =>
    ',' :: (layout.line depth ++ stringChars name ++ ':' :: layout.gap ++ chars layout depth value
      ++ fieldChars layout depth rest)

end

def compact (j : Json) : String := String.ofList (j.chars .compact 0)

def pretty (j : Json) : String := String.ofList (j.chars .pretty 0)

end Json

end CommitVerdict
