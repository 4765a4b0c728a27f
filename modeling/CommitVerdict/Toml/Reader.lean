import CommitVerdict.Toml.Scalar

namespace CommitVerdict

namespace Toml

/-- Values that contain themselves this often are refused. -/
def nestingLimit : Nat := 80

def isBareKeyChar (c : Char) : Bool := c.isAlphanum || c == '_' || c == '-'

/-- Reads a key without dots. -/
def readSimpleKey (cs : List Char) : Option (String × List Char) :=
  match cs with
  | '"' :: rest => (readBasic (rest.length + 1) rest).map fun (key, left) => (.ofList key, left)
  | c :: rest =>
    if c == '\'' then (readLiteral rest).map fun (key, left) => (.ofList key, left)
    else
      let key := (c :: rest).takeWhile isBareKeyChar
      if key.isEmpty then none else some (.ofList key, (c :: rest).dropWhile isBareKeyChar)
  | [] => none

/-- Reads a key with dots: the keys before the last one, and the last one. -/
def readKey : Nat → List Char → Option (List String × String × List Char)
  | 0, _ => none
  | fuel + 1, cs => do
    let (key, rest) ← readSimpleKey (skipBlanks cs)
    match skipBlanks rest with
    | '.' :: rest =>
      let (path, last, rest) ← readKey fuel rest
      some (key :: path, last, rest)
    | rest => some ([], key, rest)

/-- The longest chain of dotted keys. -/
def readDottedKey (cs : List Char) : Option (List String × String × List Char) := do
  let (path, key, rest) ← readKey (cs.length + 1) cs
  if path.length + 1 < nestingLimit then some (path, key, rest) else none

mutual

/-- Reads a value; `depth` counts the arrays and inline tables around it. -/
def readValue : Nat → Nat → List Char → Option (Toml × List Char)
  | 0, _, _ => none
  | fuel + 1, depth, cs =>
    match cs with
    | '"' :: _ => (readString cs).map fun (s, rest) => (.string s, rest)
    | '[' :: rest =>
      if depth + 1 < nestingLimit then
        (readItems fuel (depth + 1) rest).map fun (items, left) => (.array items, left)
      else none
    | '\x7b' :: rest =>
      if depth + 1 < nestingLimit then
        match skipBlanks rest with
        | '\x7d' :: rest => some (.table .inline [], rest)
        | rest => do
          let (entries, left) ← readPairs fuel (depth + 1) [] rest
          some (.table .inline entries, left)
      else none
    | 't' :: 'r' :: 'u' :: 'e' :: rest => some (.boolean true, rest)
    | 'f' :: 'a' :: 'l' :: 's' :: 'e' :: rest => some (.boolean false, rest)
    | 'i' :: _ => readFloat cs
    | 'n' :: _ => readFloat cs
    | c :: _ =>
      if c == '\'' then (readString cs).map fun (s, rest) => (.string s, rest)
      else readNumeric cs
    | [] => none

/-- Reads the items of an array and its closing bracket. -/
def readItems : Nat → Nat → List Char → Option (List Toml × List Char)
  | 0, _, _ => none
  | fuel + 1, depth, cs => do
    match ← skipBreaks false cs with
    | ']' :: rest => some ([], rest)
    | cs =>
      let (item, rest) ← readValue fuel depth cs
      match ← skipBreaks false rest with
      | ']' :: rest => some ([item], rest)
      | ',' :: rest =>
        let (items, rest) ← readItems fuel depth rest
        some (item :: items, rest)
      | _ => none

/-- Reads the pairs of an inline table that is not empty, and its closing brace. -/
def readPairs : Nat → Nat → TomlEntries → List Char → Option (TomlEntries × List Char)
  | 0, _, _, _ => none
  | fuel + 1, depth, entries, cs => do
    let (path, key, rest) ← readDottedKey cs
    match rest with
    | '=' :: rest =>
      let (value, rest) ← readValue fuel depth (skipBlanks rest)
      let entries ← TomlEntries.assign path key value entries
      match skipBlanks rest with
      | '\x7d' :: rest => some (entries, rest)
      | ',' :: rest => readPairs fuel depth entries rest
      | _ => none
    | _ => none

end

/-- What follows the end of a line, a comment in front of it allowed. -/
def readLineEnd (cs : List Char) : Option (List Char) :=
  match skipBlanks cs with
  | [] => some []
  | '#' :: rest =>
    match rest.dropWhile isPlain with
    | [] => some []
    | rest => afterNewline? rest
  | rest => afterNewline? rest

def readAssignment (cs : List Char) : Option (TomlAssignment × List Char) := do
  let (path, key, rest) ← readDottedKey cs
  match rest with
  | '=' :: rest =>
    let rest := skipBlanks rest
    let (value, rest) ← readValue (2 * rest.length + 2) 0 rest
    let rest ← readLineEnd rest
    some (⟨path, key, value⟩, rest)
  | _ => none

/-- Reads a header with its line end. -/
def readHeader (cs : List Char) : Option (TomlHeader × List Char) :=
  match cs with
  | '[' :: '[' :: rest => do
    let (path, key, rest) ← readDottedKey rest
    match rest with
    | ']' :: ']' :: rest => (readLineEnd rest).map fun rest => (.element path key, rest)
    | _ => none
  | '[' :: rest => do
    let (path, key, rest) ← readDottedKey rest
    match rest with
    | ']' :: rest => (readLineEnd rest).map fun rest => (.table path key, rest)
    | _ => none
  | _ => none

/-- Reads the parts of a document; `current` is the part that has been started, with its assignments
in reverse order. -/
def readSections : Nat → TomlSection → List Char → Option (List TomlSection)
  | 0, _, _ => none
  | fuel + 1, current, cs => do
    let finished : TomlSection := ⟨current.header, current.assignments.reverse⟩
    match skipBlanks cs with
    | [] => some [finished]
    | '[' :: rest =>
      let (header, rest) ← readHeader ('[' :: rest)
      let more ← readSections fuel ⟨header, []⟩ rest
      some (finished :: more)
    | c :: rest =>
      if c == '#' || c == '\n' || c == '\r' then
        let rest ← readLineEnd (c :: rest)
        readSections fuel current rest
      else
        let (assignment, rest) ← readAssignment (c :: rest)
        readSections fuel ⟨current.header, assignment :: current.assignments⟩ rest

/-- A mark that may stand in front of a text. -/
def byteOrderMark : Char := '\uFEFF'

/-- The table that a text writes; none if the text is no TOML. Arrays may go over several lines, inline tables
may not. -/
def parse? (text : List Char) : Option TomlEntries := do
  let cs := match text with
    | c :: rest => if c = byteOrderMark then rest else c :: rest
    | [] => []
  let parts ← readSections (cs.length + 1) ⟨.root, []⟩ cs
  TomlSection.document? parts

end Toml

end CommitVerdict
