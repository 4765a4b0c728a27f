import CommitVerdict.Text.Regex
import CommitVerdict.Utility.Files
import CommitVerdict.Utility.Print

namespace CommitVerdict

namespace Utility

/-- The lines of some bytes, each with the line feed that ends it. -/
def keptLines : Bytes → List Bytes
  | [] => []
  | b :: rest =>
    if b = 10 then [10] :: keptLines rest
    else
      match keptLines rest with
      | [] => [[b]]
      | line :: more => (b :: line) :: more

/-- The lines of some bytes without their line feeds. -/
def bareLines (content : Bytes) : List Bytes :=
  (keptLines content).map fun line => if line.getLast? = some 10 then line.dropLast else line

/-- Lines, each with a line feed after it. -/
def joinLines (lines : List Bytes) : Bytes := lines.flatMap fun line => line ++ [10]

/-- Options with a value: the letters, the values by letter, and the operands. A value follows its
letter in the same argument or is the next one. -/
def valueOptions (valued : List Char) :
    List String → List Char × List (Char × String) × List String
  | [] => ([], [], [])
  | argument :: rest =>
    match argument.toList with
    | ['-', '-'] => ([], [], rest)
    | ['-', letter] =>
      match valued.contains letter, rest with
      | true, value :: operands =>
        let (letters, values, operands) := valueOptions valued operands
        (letters, (letter, value) :: values, operands)
      | _, operands =>
        let (letters, values, operands) := valueOptions valued operands
        if letter.isDigit then (letters, ('n', String.ofList [letter]) :: values, operands)
        else (letter :: letters, values, operands)
    | '-' :: letter :: more =>
      let (letters, values, operands) := valueOptions valued rest
      if valued.contains letter then
        (letters, (letter, String.ofList more) :: values, operands)
      else if letter.isDigit then
        (letters, ('n', String.ofList (letter :: more)) :: values, operands)
      else (letter :: more ++ letters, values, operands)
    | _ => ([], [], argument :: rest)

def natural (text : String) : Nat := Print.decimalValue (text.toList.filter Char.isDigit)

/-- The name of the file that never ends. -/
def zeroPath : Path := ["dev", "zero"]

/-- Reads operands one after the other and writes what a function makes of each; several of them may
have titles. -/
def mapContents (c : Call) (isTitled : Bool) (operands : List String) (f : Bytes → Bytes) : Reply :=
  let operands := if operands.isEmpty then ["-"] else operands
  let results := operands.map fun operand =>
    (operandContent c operand).mapError fun e =>
      s!"cannot open '{operand}' for reading: {e.reason}"
  let title (number : Nat) (operand : String) : Bytes :=
    let name := if operand = "-" then "standard input" else operand
    if isTitled && 1 < operands.length then
      Utf8.encode ((if number = 0 then "" else "\n") ++ s!"==> {name} <==\n")
    else []
  { output := (operands.zip results).zipIdx.map fun ((operand, result), number) =>
      match result with
      | .ok content => (.stdout, title number operand ++ f content)
      | .error text => c.complaint text
    input := if readsInput operands then [] else c.input
    files := c.files
    status := if results.all Except.toBool then 0 else 1 }

/-- Writes the first lines or bytes. -/
def head : Utility := fun c =>
  let (_, values, operands) := valueOptions ['n', 'c'] c.arguments
  match values.find? fun entry => entry.1 == 'c' with
  | some (_, size) =>
    let isEndless (operand : String) : Bool :=
      (FileSystem.canonicalize c.files c.directory operand).toOption == some zeroPath
    if operands.any isEndless then c.print (List.replicate (natural size) 0)
    else mapContents c true operands fun content => content.take (natural size)
  | none =>
    let count := ((values.find? fun entry => entry.1 == 'n').map fun entry =>
      natural entry.2).getD 10
    mapContents c true operands fun content => ((keptLines content).take count).flatten

/-- Writes the last lines or bytes, or those from a number on. -/
def tail : Utility := fun c =>
  let (_, values, operands) := valueOptions ['n', 'c'] c.arguments
  let cut {α : Type} (size : String) (items : List α) : List α :=
    if size.startsWith "+" then items.drop (natural size - 1)
    else items.drop (items.length - natural size)
  match values.find? fun entry => entry.1 == 'c' with
  | some (_, size) => mapContents c true operands fun content => cut size content
  | none =>
    let size := ((values.find? fun entry => entry.1 == 'n').map (·.2)).getD "10"
    mapContents c true operands fun content => (cut size (keptLines content)).flatten

/-- Words: runs of bytes between blanks. -/
def wordCount (content : Bytes) : Nat :=
  let isSpace (b : UInt8) : Bool := b == 32 || (9 ≤ b && b ≤ 13)
  (content.foldl (fun (state : Bool × Nat) b =>
    if isSpace b then (false, state.2)
    else (true, if state.1 then state.2 else state.2 + 1)) (false, 0)).2

def padLeft (width : Nat) (text : String) : String :=
  String.ofList (List.replicate (width - text.length) ' ') ++ text

/-- Counts lines, words and bytes. -/
def wc : Utility := fun c =>
  let (letters, operands) := options c.arguments
  let wanted (letter : Char) : Bool := letters.isEmpty || letters.contains letter
  let counts (content : Bytes) : List Nat :=
    (if wanted 'l' then [content.count 10] else [])
      ++ (if wanted 'w' then [wordCount content] else [])
      ++ (if wanted 'c' || letters.contains 'm' then [content.length] else [])
  let row (width : Nat) (content : Bytes) (name : String) : String :=
    let numbers := (counts content).map fun n => padLeft width (toString n)
    " ".intercalate (if name.isEmpty then numbers else numbers ++ [name])
  match operands with
  | [] =>
    let width := if (counts c.input).length = 1 then 1 else 7
    { c.print (linesOf [row width c.input ""]) with input := [] }
  | operands =>
    let contents := operands.map fun operand => (operand, operandContent c operand)
    let all := contents.flatMap fun entry => entry.2.toOption.getD []
    let width := if operands.length = 1 && (counts []).length = 1 then 1
      else (toString all.length).length
    let rows := contents.map fun (name, content) => match content with
      | .ok bytes => (OutputStream.stdout, linesOf [row width bytes name])
      | .error e => c.complaint s!"{name}: {e.reason}"
    let totals := if operands.length ≤ 1 then []
      else [(OutputStream.stdout, linesOf [row width all "total"])]
    { output := rows ++ totals
      input := if operands.contains "-" then [] else c.input
      files := c.files
      status := if contents.all fun entry => entry.2.toBool then 0 else 1 }

/-- The number that a text writes, a leading hyphen being a sign. -/
def integer (text : String) : Int :=
  if text.startsWith "-" then -(natural text : Int) else natural text

/-- Prints a sequence of numbers: from a first one, by a step, to a last one. -/
def seq : Utility := fun c =>
  let bounds : Int × Int × Int := match c.arguments.map integer with
    | [last] => (1, 1, last)
    | [first, last] => (first, 1, last)
    | [first, step, last] => (first, step, last)
    | _ => (1, 1, 0)
  let (first, step, last) := bounds
  let count : Int :=
    if step = 0 then 0
    else if 0 < step then (if first ≤ last then (last - first) / step + 1 else 0)
    else (if last ≤ first then (first - last) / (-step) + 1 else 0)
  c.print (linesOf ((List.range count.toNat).map fun (n : Nat) => toString (first + step * n)))

/-- Sorts lines. -/
def sort : Utility := fun c =>
  let (letters, operands) := options c.arguments
  let operands := if operands.isEmpty then ["-"] else operands
  let value (line : Bytes) : Int := (Print.number (Utf8.text line)).1
  let before (a b : Bytes) : Bool :=
    if letters.contains 'n' && value a != value b then decide (value a < value b)
    else decide (a ≤ b)
  match operands.mapM fun operand => operandContent c operand with
  | .error e =>
    let first := operands.headD "-"
    c.fail 2 s!"cannot read: {first}: {e.reason}"
  | .ok contents =>
    let sorted := (contents.flatMap bareLines).mergeSort before
    let sorted := if letters.contains 'u' then sorted.eraseDups else sorted
    let lines := if letters.contains 'r' then sorted.reverse else sorted
    { c.print (joinLines lines) with input := if operands.contains "-" then [] else c.input }

/-- Runs of equal lines with their lengths. -/
def runsOf : List Bytes → List (Nat × Bytes)
  | [] => []
  | line :: rest =>
    match runsOf rest with
    | (n, other) :: more => if line = other then (n + 1, line) :: more
      else (1, line) :: (n, other) :: more
    | [] => [(1, line)]

/-- Drops lines that repeat the line before them; it may count them. -/
def uniq : Utility := fun c =>
  let (letters, operands) := options c.arguments
  let shown (entry : Nat × Bytes) : Bytes :=
    if letters.contains 'c' then
      Utf8.encode (padLeft 7 (toString entry.1) ++ " ") ++ entry.2
    else entry.2
  mapContents c false operands fun content =>
    joinLines ((runsOf (bareLines content)).map shown)

/-- Prints the lines in which an expression occurs. -/
def grep : Utility := fun c =>
  let (letters, values, operands) := valueOptions ['e'] c.arguments
  let (pattern, operands) := match values.head?, operands with
    | some (_, pattern), operands => (pattern, operands)
    | none, pattern :: operands => (pattern, operands)
    | none, [] => ("", [])
  let fold (content : Bytes) : Bytes :=
    if letters.contains 'i' then
      content.map fun b => if 65 ≤ b && b ≤ 90 then b + 32 else b
    else content
  let bytes := fold (Utf8.encode pattern)
  let expression := if letters.contains 'F' then Regex.literal bytes else Regex.parse bytes
  let expression := if letters.contains 'x'
    then { expression with atStart := true, atEnd := true } else expression
  let selected (line : Bytes) : Bool :=
    Regex.occurs expression (fold line) != letters.contains 'v'
  let operands := if operands.isEmpty then ["-"] else operands
  let numbered (line : Bytes × Nat) : Bytes :=
    if letters.contains 'n' then Utf8.encode s!"{line.2 + 1}:" ++ line.1 else line.1
  let results := operands.map fun operand =>
    (operand, (operandContent c operand).map fun content =>
      ((bareLines content).zipIdx.filter fun line => selected line.1).map numbered)
  let isFound := results.any fun entry => match entry.2 with
    | .ok lines => !lines.isEmpty
    | .error _ => false
  let hasFailed := results.any fun entry => !entry.2.toBool
  let named (name : String) (line : Bytes) : Bytes :=
    if 1 < operands.length then Utf8.encode s!"{name}:" ++ line else line
  let shown (name : String) (lines : List Bytes) : List Bytes :=
    if letters.contains 'q' then []
    else if letters.contains 'l' then (if lines.isEmpty then [] else [Utf8.encode name])
    else if letters.contains 'c' then [named name (Utf8.encode (toString lines.length))]
    else lines.map (named name)
  { output := results.flatMap fun (name, result) => match result with
      | .ok lines => [(.stdout, joinLines (shown name lines))]
      | .error e =>
        if letters.contains 's' then [] else [c.complaint s!"{name}: {e.reason}"]
    input := if operands.contains "-" then [] else c.input
    files := c.files
    status := if hasFailed && !(isFound && letters.contains 'q') then 2
      else if isFound then 0 else 1 }

/-- Writes the input to the standard output and to files. -/
def tee : Utility := fun c =>
  let (letters, operands) := options c.arguments
  let result := attemptAll c 1 operands fun files path =>
    let content := if letters.contains 'a' then
        (FileSystem.read files c.directory path).toOption.getD [] ++ c.input
      else c.input
    (FileSystem.write files c.directory path content).mapError fun e => s!"{path}: {e.reason}"
  { result with output := result.output ++ [(.stdout, c.input)], input := [] }

/-- How many lines a program writes that would never stop by itself. -/
def endlessLines : Nat := 10000

/-- Writes a line again and again. -/
def yes : Utility := fun c =>
  let line := if c.arguments.isEmpty then "y" else " ".intercalate c.arguments
  c.print (linesOf (List.replicate endlessLines line))

/-- The bytes of a set that is written with escapes and ranges. -/
def byteSet (text : String) : Bytes :=
  let range (low high : UInt8) : Bytes :=
    (List.range (high.toNat + 1 - low.toNat)).map fun n => UInt8.ofNat (low.toNat + n)
  let rec expand : Bytes → Bytes
    | low :: 45 :: high :: rest => range low high ++ expand rest
    | b :: rest => b :: expand rest
    | [] => []
  let named : Option (List (UInt8 × UInt8)) := match text.toList with
    | '[' :: ':' :: rest =>
      let name := rest.takeWhile fun c => c != ':'
      if rest.drop name.length = [':', ']'] then Glob.classRanges? (String.ofList name) else none
    | _ => none
  let rec unescape : List Char → Bytes
    | [] => []
    | '\\' :: rest =>
      let (fragment, width) := Print.escape .program false rest
      fragment.bytes ++ unescape (rest.drop width)
    | c :: rest => Utf8.encodeChars [c] ++ unescape rest
  termination_by cs => cs.length
  decreasing_by all_goals (simp only [List.length_cons, List.length_drop]; omega)
  match named with
  | some ranges => ranges.flatMap fun (low, high) => range low high
  | none => expand (unescape text.toList)

/-- Replaces or deletes bytes of a set. -/
def tr : Utility := fun c =>
  match options c.arguments with
  | (['d'], [removed]) =>
    let set := byteSet removed
    { c.print (c.input.filter fun b => !set.contains b) with input := [] }
  | (_, [before, after]) =>
    let source := byteSet before
    let target := byteSet after
    let image (b : UInt8) : UInt8 :=
      match source.idxOf? b with
      | some n => (target[n]?.orElse fun _ => target.getLast?).getD b
      | none => b
    { c.print (c.input.map image) with input := [] }
  | (['s'], [squeezed]) =>
    let set := byteSet squeezed
    let kept := c.input.foldl (fun (state : Option UInt8 × Bytes) b =>
      if state.1 = some b && set.contains b then state else (some b, b :: state.2)) (none, [])
    { c.print kept.2.reverse with input := [] }
  | _ => c.misuse 1 "missing operand"

end Utility

end CommitVerdict
