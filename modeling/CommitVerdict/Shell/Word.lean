namespace CommitVerdict

namespace Shell

/-- What is done to the value of a parameter. -/
inductive Modifier where
  | none
  /-- The number of its bytes. -/
  | length
  /-- Another text if the parameter is unset, or empty where that counts. -/
  | default (orEmpty : Bool) (word : List Char)
  | assign (orEmpty : Bool) (word : List Char)
  | require (orEmpty : Bool) (word : List Char)
  /-- Another text if the parameter is set, and not empty where that counts. -/
  | alternative (orEmpty : Bool) (word : List Char)
  /-- What is left without the shortest or longest start that matches a pattern. -/
  | trimStart (longest : Bool) (pattern : List Char)
  | trimEnd (longest : Bool) (pattern : List Char)
deriving DecidableEq, Repr

/-- A part of a word. The texts of nested words and of nested scripts are kept as they are written and read
when they are needed. -/
inductive Segment where
  | plain (text : List Char)
  | quoted (text : List Char)
  | parameter (isQuoted : Bool) (name : String) (modifier : Modifier)
  /-- The output of a script. -/
  | command (isQuoted : Bool) (script : List Char)
  /-- The value of an expression. -/
  | arithmetic (isQuoted : Bool) (expression : List Char)
deriving DecidableEq, Repr

abbrev Word := List Segment

/-- Why a text cannot be read. -/
inductive SyntaxError where
  | unterminatedQuote
  | missingBrace
  | badLoopVariable
  /-- The text ends too early; the word that had to come may be known. -/
  | endOfFile (wanted : Option String)
  | badSubstitution
  | unexpected (text : String) (wanted : Option String)
  | unexpectedNewline (wanted : Option String)
deriving DecidableEq, Repr

namespace SyntaxError

/-- What had to come instead. -/
def hint : Option String → String
  | some word => s!" (expecting \"{word}\")"
  | none => ""

def message : SyntaxError → String
  | .unterminatedQuote => "Syntax error: Unterminated quoted string"
  | .missingBrace => "Syntax error: Missing '\x7d'"
  | .badLoopVariable => "Syntax error: Bad for loop variable"
  | .endOfFile wanted => s!"Syntax error: end of file unexpected{hint wanted}"
  | .badSubstitution => "Bad substitution"
  | .unexpected text wanted => s!"Syntax error: \"{text}\" unexpected{hint wanted}"
  | .unexpectedNewline wanted => s!"Syntax error: newline unexpected{hint wanted}"

/-- The error with the word that had to come. -/
def expecting (word : String) : SyntaxError → SyntaxError
  | .endOfFile _ => .endOfFile (some word)
  | .unexpected text _ => .unexpected text (some word)
  | .unexpectedNewline _ => .unexpectedNewline (some word)
  | other => other

end SyntaxError

/-- A part of a text that has been read, and what follows it. -/
abbrev Reading (α : Type) := Except SyntaxError (α × List Char)

/-- Puts characters before a part that has been read. -/
def Reading.before (cs : List Char) (r : Reading (List Char)) : Reading (List Char) :=
  r.map fun (more, rest) => (cs ++ more, rest)

/-- Reads up to a single quote. -/
def readSingle : List Char → Reading (List Char)
  | [] => .error .unterminatedQuote
  | '\'' :: rest => .ok ([], rest)
  | c :: rest => Reading.before [c] (readSingle rest)

/-- How a nested text ends. -/
inductive Closing where
  | parenthesis
  | brace
  | doubleQuote
  | backquote
deriving DecidableEq, Repr

def Closing.char : Closing → Char
  | .parenthesis => ')'
  | .brace => '\x7d'
  | .doubleQuote => '"'
  | .backquote => Char.ofNat 96

/-- The error of a nested text that does not end. -/
def Closing.missing : Closing → SyntaxError
  | .parenthesis => .endOfFile (some ")")
  | .brace => .missingBrace
  | .doubleQuote => .unterminatedQuote
  | .backquote => .unterminatedQuote

/-- Reads a nested text up to its end, keeping it as it is written. Texts inside it that have an
end of their own are passed over. -/
def readNested : Nat → List Closing → List Char → Reading (List Char)
  | _, [], cs => .ok ([], cs)
  | 0, closing :: _, _ => .error closing.missing
  | _, closing :: _, [] => .error closing.missing
  | fuel + 1, closing :: outer, c :: rest =>
    if c = closing.char then
      match readNested fuel outer rest with
      | .ok (more, left) => .ok (if outer.isEmpty then more else c :: more, left)
      | .error e => .error e
    else
      match c, rest with
      | '\\', next :: rest => Reading.before ['\\', next] (readNested fuel (closing :: outer) rest)
      | '$', '(' :: rest =>
        Reading.before ['$', '('] (readNested fuel (.parenthesis :: closing :: outer) rest)
      | '$', '\x7b' :: rest =>
        Reading.before ['$', '\x7b'] (readNested fuel (.brace :: closing :: outer) rest)
      | '\'', rest =>
        if closing = .doubleQuote then
          Reading.before ['\''] (readNested fuel (closing :: outer) rest)
        else
          match readSingle rest with
          | .error e => .error e
          | .ok (quoted, rest) =>
            Reading.before ('\'' :: quoted ++ ['\'']) (readNested fuel (closing :: outer) rest)
      | '"', rest =>
        Reading.before ['"'] (readNested fuel (.doubleQuote :: closing :: outer) rest)
      | '(', rest =>
        if closing = .parenthesis then
          Reading.before ['('] (readNested fuel (.parenthesis :: closing :: outer) rest)
        else Reading.before ['('] (readNested fuel (closing :: outer) rest)
      | c, rest => Reading.before [c] (readNested fuel (closing :: outer) rest)

/-- Reads up to the end of one nested text. -/
def readUntil (closing : Closing) (cs : List Char) : Reading (List Char) :=
  readNested (cs.length + 1) [closing] cs

/-- Takes the backslashes out of a script between backquotes. -/
def unescapeBackquoted : List Char → List Char
  | '\\' :: c :: rest =>
    if c = Closing.backquote.char || c = '\\' || c = '$' then c :: unescapeBackquoted rest
    else '\\' :: c :: unescapeBackquoted rest
  | c :: rest => c :: unescapeBackquoted rest
  | [] => []

/-- Reads up to a backquote that has no backslash before it. -/
def readBackquoted : List Char → Reading (List Char)
  | [] => .error .unterminatedQuote
  | '\\' :: c :: rest => Reading.before ['\\', c] (readBackquoted rest)
  | c :: rest =>
    if c = Closing.backquote.char then .ok ([], rest)
    else Reading.before [c] (readBackquoted rest)

def isNameStart (c : Char) : Bool := c.isAlpha || c == '_'

def isNameChar (c : Char) : Bool := c.isAlphanum || c == '_'

/-- Whether a text is the name of a variable. -/
def isName (text : String) : Bool :=
  match text.toList with
  | [] => false
  | c :: rest => isNameStart c && rest.all isNameChar

/-- Parameters that are written with a single character. -/
def isSpecial (c : Char) : Bool := "@*#?-$!".toList.contains c

/-- Reads the name of a parameter. -/
def readName (cs : List Char) : Option (String × List Char) :=
  match cs with
  | c :: rest =>
    if isNameStart c then
      let name := cs.takeWhile isNameChar
      some (String.ofList name, cs.drop name.length)
    else if c.isDigit || isSpecial c then some (String.ofList [c], rest)
    else none
  | [] => none

/-- What stands between the name of a parameter and the closing brace. -/
def modifierOf (cs : List Char) : Option Modifier :=
  let withColon (orEmpty : Bool) (cs : List Char) : Option Modifier :=
    match cs with
    | '-' :: word => some (.default orEmpty word)
    | '=' :: word => some (.assign orEmpty word)
    | '?' :: word => some (.require orEmpty word)
    | '+' :: word => some (.alternative orEmpty word)
    | _ => none
  match cs with
  | [] => some .none
  | ':' :: rest => withColon true rest
  | '#' :: '#' :: pattern => some (.trimStart true pattern)
  | '#' :: pattern => some (.trimStart false pattern)
  | '%' :: '%' :: pattern => some (.trimEnd true pattern)
  | '%' :: pattern => some (.trimEnd false pattern)
  | _ => withColon false cs

/-- What stands between braces after a dollar sign. -/
def bracedParameter (cs : List Char) : Option (String × Modifier) :=
  let plain (cs : List Char) : Option (String × Modifier) := do
    let (name, rest) ← match cs.takeWhile Char.isDigit with
      | [] => readName cs
      | digits => some (String.ofList digits, cs.drop digits.length)
    let modifier ← modifierOf rest
    some (name, modifier)
  match cs with
  | ['#'] => some ("#", .none)
  | '#' :: rest =>
    match plain rest with
    | some (name, .none) => some (name, .length)
    | _ => plain cs
  | _ => plain cs

/-- Reads what follows a dollar sign. -/
def readDollar (isQuoted : Bool) (cs : List Char) : Reading Segment :=
  let lone : Segment := if isQuoted then .quoted ['$'] else .plain ['$']
  let script (rest : List Char) : Reading Segment :=
    (readUntil .parenthesis rest).map fun (text, left) => (.command isQuoted text, left)
  match cs with
  | '(' :: '(' :: rest =>
    match readUntil .parenthesis rest with
    | .ok (text, ')' :: left) => .ok (.arithmetic isQuoted text, left)
    | _ => script ('(' :: rest)
  | '(' :: rest => script rest
  | '\x7b' :: rest =>
    match readUntil .brace rest with
    | .error e => .error e
    | .ok (text, left) =>
      match bracedParameter text with
      | some (name, modifier) => .ok (.parameter isQuoted name modifier, left)
      | none => .error .badSubstitution
  | _ =>
    match readName cs with
    | some (name, left) => .ok (.parameter isQuoted name .none, left)
    | none => .ok (lone, cs)

/-- Adds a segment before others; neighbouring texts of one kind become one. -/
def Word.cons (s : Segment) (w : Word) : Word :=
  match s, w with
  | .plain a, .plain b :: rest => .plain (a ++ b) :: rest
  | .quoted a, .quoted b :: rest => .quoted (a ++ b) :: rest
  | s, w => s :: w

/-- Puts a segment before a word that has been read. -/
def Reading.cons (s : Segment) (r : Reading Word) : Reading Word :=
  r.map fun (w, rest) => (w.cons s, rest)

/-- What double quotes mean in a text that is read as if it stood between them. -/
inductive QuoteRule where
  /-- The next one ends the text. -/
  | closing
  /-- They are characters like others, as in a text that is given with a command. -/
  | literal
  /-- They are left out, as in the word of a modifier. -/
  | dropped
deriving DecidableEq, Repr

/-- Reads a text in double quotes. -/
def readDouble (rule : QuoteRule) : Nat → List Char → Reading Word
  | 0, _ => .error (.endOfFile none)
  | _, [] => if rule = .closing then .error .unterminatedQuote else .ok ([], [])
  | fuel + 1, '\\' :: c :: rest =>
    if c = '\n' then readDouble rule fuel rest
    else if c = '$' || c = '\\' || c = Closing.backquote.char || (c = '"' && rule != .literal) then
      Reading.cons (.quoted [c]) (readDouble rule fuel rest)
    else Reading.cons (.quoted ['\\', c]) (readDouble rule fuel rest)
  | fuel + 1, '$' :: rest =>
    match readDollar true rest with
    | .error e => .error e
    | .ok (segment, rest) => Reading.cons segment (readDouble rule fuel rest)
  | fuel + 1, c :: rest =>
    if c = '"' && rule = .closing then .ok ([], rest)
    else if c = '"' && rule = .dropped then readDouble rule fuel rest
    else if c = Closing.backquote.char then
      match readBackquoted rest with
      | .error e => .error e
      | .ok (script, rest) =>
        Reading.cons (.command true (unescapeBackquoted script)) (readDouble rule fuel rest)
    else Reading.cons (.quoted [c]) (readDouble rule fuel rest)

/-- Characters that end a word. -/
def endsWord (c : Char) : Bool := " \t\n;&|<>()".toList.contains c

/-- Reads a word. Where `isWhole` is set, no character ends it. -/
def readWord (isWhole : Bool) : Nat → List Char → Reading Word
  | 0, _ => .error (.endOfFile none)
  | _, [] => .ok ([], [])
  | fuel + 1, '\\' :: '\n' :: rest => readWord isWhole fuel rest
  | fuel + 1, '\\' :: c :: rest => Reading.cons (.quoted [c]) (readWord isWhole fuel rest)
  | fuel + 1, '\'' :: rest =>
    match readSingle rest with
    | .error e => .error e
    | .ok (text, rest) => Reading.cons (.quoted text) (readWord isWhole fuel rest)
  | fuel + 1, '"' :: rest =>
    match readDouble .closing fuel rest with
    | .error e => .error e
    | .ok (segments, rest) =>
      match readWord isWhole fuel rest with
      | .error e => .error e
      | .ok (w, rest) => .ok (Segment.quoted [] :: segments ++ w, rest)
  | fuel + 1, '$' :: rest =>
    match readDollar false rest with
    | .error e => .error e
    | .ok (segment, rest) => Reading.cons segment (readWord isWhole fuel rest)
  | fuel + 1, c :: rest =>
    if endsWord c && !isWhole then .ok ([], c :: rest)
    else if c = Closing.backquote.char then
      match readBackquoted rest with
      | .error e => .error e
      | .ok (script, rest) =>
        Reading.cons (.command false (unescapeBackquoted script)) (readWord isWhole fuel rest)
    else Reading.cons (.plain [c]) (readWord isWhole fuel rest)

/-- A whole text as a word. -/
def Word.ofText (cs : List Char) : Except SyntaxError Word :=
  (readWord true (cs.length + 1) cs).map (·.1)

/-- A whole text as if it stood in double quotes, which are characters like others in it. -/
def Word.ofQuoted (cs : List Char) : Except SyntaxError Word :=
  (readDouble .literal (cs.length + 1) cs).map (·.1)

/-- The word of a modifier whose parameter stands in double quotes. -/
def Word.ofQuotedModifier (cs : List Char) : Except SyntaxError Word :=
  (readDouble .dropped (cs.length + 1) cs).map (·.1)

/-- The text of a word that has neither quotes nor substitutions. -/
def Word.bare? : Word → Option String
  | [.plain text] => some (String.ofList text)
  | _ => none

/-- The text of a word as a mark that ends a text given with a command, and whether it is quoted. -/
def Word.mark (w : Word) : List Char × Bool :=
  (w.flatMap fun segment => match segment with
    | .plain text => text
    | .quoted text => text
    | _ => [],
   w.any fun segment => match segment with
    | .quoted _ => true
    | _ => false)

end Shell

end CommitVerdict
