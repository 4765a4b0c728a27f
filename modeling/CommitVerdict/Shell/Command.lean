import CommitVerdict.Shell.Token

namespace CommitVerdict

namespace Shell

/-- A descriptor that is led elsewhere while a command runs. -/
inductive Redirection where
  | path (descriptor : Nat) (kind : RedirectionKind) (target : Word)
  | given (descriptor : Nat) (text : Word)
deriving DecidableEq, Repr

/-- The commands of the shell's language. -/
inductive Command where
  | nothing
  | simple (line : Nat) (assignments : List (String × Word)) (words : List Word)
      (redirections : List Redirection)
  | pipeline (stages : List Command)
  | negated (command : Command)
  | conjunction (left right : Command)
  | disjunction (left right : Command)
  | sequence (first second : Command)
  | background (command : Command)
  | conditional (test yes no : Command)
  /-- Runs a command as long as another one succeeds, or until it does. -/
  | loop (untilSuccess : Bool) (test body : Command)
  /-- Runs a command for each of some words, or for each argument. -/
  | each (name : String) (words : Option (List Word)) (body : Command)
  | choice (subject : Word) (clauses : List (List Word × Command))
  | subshell (command : Command)
  | redirected (line : Nat) (command : Command) (redirections : List Redirection)
  | definition (name : String) (body : Command)
deriving Repr

/-- What the reader looks for. -/
inductive Goal where
  /-- Commands up to a token that can start none. -/
  | commands
  /-- Commands joined by conjunction and disjunction. -/
  | chain
  | pipeline
  | command
  /-- What follows the test of a conditional. -/
  | branches
  | clauses
deriving DecidableEq, Repr

/-- What the reader finds: a command, or the clauses of a choice. -/
inductive Found where
  | command (c : Command)
  | clauses (rows : List (List Word × Command))

namespace Found

def asCommand : Found → Command
  | .command c => c
  | .clauses _ => .nothing

def asClauses : Found → List (List Word × Command)
  | .clauses rows => rows
  | .command _ => []

end Found

abbrev Tokens := List Located

/-- A part that has been read, and the tokens after it. -/
abbrev Parsed (α : Type) := α × Tokens

/-- The error at the first of the remaining tokens. -/
def unexpectedAt (tokens : Tokens) : SyntaxError :=
  match tokens with
  | [] => .endOfFile none
  | located :: _ =>
    match located.token with
    | .word w => .unexpected (String.ofList w.mark.1) none
    | .operator text => .unexpected text none
    | .newline => .unexpectedNewline none
    | .redirection .. => .unexpected "redirection" none
    | .given .. => .unexpected "redirection" none

/-- The word at the start of the tokens if it is written plainly. -/
def bareWord? (tokens : Tokens) : Option (String × Tokens) :=
  match tokens with
  | ⟨_, .word w⟩ :: rest => w.bare?.map fun text => (text, rest)
  | _ => none

def skipNewlines : Tokens → Tokens
  | ⟨_, .newline⟩ :: rest => skipNewlines rest
  | tokens => tokens

/-- Takes a word of the language itself. -/
def expect (word : String) (tokens : Tokens) : Except SyntaxError Tokens :=
  match bareWord? (skipNewlines tokens) with
  | some (text, rest) =>
    if text = word then .ok rest
    else .error ((unexpectedAt (skipNewlines tokens)).expecting word)
  | none => .error ((unexpectedAt (skipNewlines tokens)).expecting word)

/-- Words that end a sequence of commands. -/
def closingWords : List String := ["then", "else", "elif", "fi", "do", "done", "esac", "\x7d"]

/-- Whether the tokens start a command. -/
def startsCommand (tokens : Tokens) : Bool :=
  match tokens with
  | [] => false
  | ⟨_, .newline⟩ :: _ => false
  | ⟨_, .operator text⟩ :: _ => text == "("
  | ⟨_, .word w⟩ :: _ =>
    match w.bare? with
    | some text => !closingWords.contains text
    | none => true
  | _ => true

/-- Reads the redirections at the start of the tokens. -/
def readRedirections : Nat → Tokens → Except SyntaxError (Parsed (List Redirection))
  | 0, tokens => .ok ([], tokens)
  | fuel + 1, ⟨_, .redirection descriptor kind⟩ :: ⟨_, .word target⟩ :: rest =>
    (readRedirections fuel rest).map fun (more, rest) =>
      (.path descriptor kind target :: more, rest)
  | _, ⟨_, .redirection _ _⟩ :: rest => .error (unexpectedAt rest)
  | fuel + 1, ⟨_, .given descriptor text⟩ :: rest =>
    (readRedirections fuel rest).map fun (more, rest) => (.given descriptor text :: more, rest)
  | _, tokens => .ok ([], tokens)

/-- The assignment that a word makes. -/
def assignment? (w : Word) : Option (String × Word) :=
  match w with
  | .plain text :: rest =>
    let name := text.takeWhile fun c => c != '='
    match text.drop name.length with
    | _ :: value =>
      if isName (String.ofList name) then
        some (String.ofList name, if value.isEmpty then rest else .plain value :: rest)
      else none
    | [] => none
  | _ => none

/-- A simple command that is being read. -/
structure SimpleParts where
  assignments : List (String × Word)
  words : List Word
  redirections : List Redirection

/-- Reads the parts of a simple command. -/
def readSimple : Nat → SimpleParts → Tokens → Except SyntaxError (Parsed SimpleParts)
  | 0, parts, tokens => .ok (parts, tokens)
  | fuel + 1, parts, ⟨_, .word w⟩ :: rest =>
    match parts.words, assignment? w with
    | [], some assignment =>
      readSimple fuel { parts with assignments := parts.assignments ++ [assignment] } rest
    | _, _ => readSimple fuel { parts with words := parts.words ++ [w] } rest
  | fuel + 1, parts, tokens =>
    match readRedirections 1 tokens with
    | .error e => .error e
    | .ok ([], rest) => .ok (parts, rest)
    | .ok (found, rest) =>
      readSimple fuel { parts with redirections := parts.redirections ++ found } rest

/-- Reads plain words. -/
def readWords : Tokens → List Word × Tokens
  | ⟨_, .word w⟩ :: rest =>
    let (more, rest) := readWords rest
    (w :: more, rest)
  | tokens => ([], tokens)

/-- Reads the patterns of a clause up to the closing parenthesis. -/
def readPatterns : Tokens → Except SyntaxError (Parsed (List Word))
  | ⟨_, .word w⟩ :: ⟨_, .operator "|"⟩ :: rest =>
    (readPatterns rest).map fun (more, rest) => (w :: more, rest)
  | ⟨_, .word w⟩ :: ⟨_, .operator ")"⟩ :: rest => .ok ([w], rest)
  | tokens => .error ((unexpectedAt tokens).expecting ")")

/-- Adds redirections to a command that ends here. -/
def withRedirections (line : Nat) (c : Command) (tokens : Tokens) :
    Except SyntaxError (Parsed Found) := do
  let (redirections, rest) ← readRedirections tokens.length tokens
  return (.command (if redirections.isEmpty then c else .redirected line c redirections), rest)

/-- A reader of parts. -/
abbrev PartReader := Goal → Tokens → Except SyntaxError (Parsed Found)

/-- Reads commands, at least one, up to a word of the language. -/
def readSome (inner : PartReader) (closing : String) (tokens : Tokens) :
    Except SyntaxError (Parsed Command) := do
  let tokens := skipNewlines tokens
  if startsCommand tokens then
    let (found, rest) ← inner .commands tokens
    return (found.asCommand, rest)
  else
    match tokens with
    | [] => throw (.endOfFile (some closing))
    | _ => throw (unexpectedAt tokens)

/-- Reads a command that starts with a word of the language, after that word; none for any other
word. -/
def readCompound? (inner : PartReader) (line : Nat) (keyword : String) (tokens : Tokens) :
    Option (Except SyntaxError (Parsed Found)) :=
  let loop (untilSuccess : Bool) : Except SyntaxError (Parsed Found) := do
    let (test, rest) ← readSome inner "do" tokens
    let rest ← expect "do" rest
    let (body, rest) ← readSome inner "done" rest
    let rest ← expect "done" rest
    withRedirections line (.loop untilSuccess test body) rest
  match keyword with
  | "if" => some do
    let (test, rest) ← readSome inner "then" tokens
    let rest ← expect "then" rest
    let (yes, rest) ← readSome inner "fi" rest
    let (no, rest) ← inner .branches rest
    withRedirections line (.conditional test yes no.asCommand) rest
  | "while" => some (loop false)
  | "until" => some (loop true)
  | "for" => some do
    match tokens with
    | ⟨_, .word name⟩ :: rest =>
      let name ← match name.bare? with
        | some text => if isName text then .ok text else .error .badLoopVariable
        | none => .error .badLoopVariable
      let (words, rest) ← match bareWord? (skipNewlines rest) with
        | some ("in", rest) =>
          let (words, rest) := readWords rest
          .ok (some words, rest)
        | _ => Except.ok (none, rest)
      let rest := match rest with
        | ⟨_, .operator ";"⟩ :: rest => rest
        | _ => rest
      let rest ← expect "do" rest
      let (body, rest) ← readSome inner "done" rest
      let rest ← expect "done" rest
      withRedirections line (.each name words body) rest
    | _ => throw .badLoopVariable
  | "case" => some do
    match tokens with
    | ⟨_, .word subject⟩ :: rest =>
      let rest ← expect "in" rest
      let (clauses, rest) ← inner .clauses rest
      withRedirections line (.choice subject clauses.asClauses) rest
    | _ => throw (unexpectedAt tokens)
  | "\x7b" => some do
    let (body, rest) ← readSome inner "\x7d" tokens
    let rest ← expect "\x7d" rest
    withRedirections line body rest
  | _ => none

/-- Reads a simple command, which has at least one part. -/
def readSimpleCommand (line : Nat) (tokens : Tokens) : Except SyntaxError (Parsed Found) := do
  let (parts, rest) ← readSimple (tokens.length + 1) ⟨[], [], []⟩ tokens
  if rest.length = tokens.length then throw (unexpectedAt tokens)
  return (.command (.simple line parts.assignments parts.words parts.redirections), rest)

/-- Reads a single command. -/
def readCommand (inner : PartReader) (tokens : Tokens) : Except SyntaxError (Parsed Found) :=
  match tokens with
  | ⟨line, .operator "("⟩ :: rest => do
    let (body, rest) ← readSome inner ")" rest
    match skipNewlines rest with
    | ⟨_, .operator ")"⟩ :: rest => withRedirections line (.subshell body) rest
    | rest => throw ((unexpectedAt rest).expecting ")")
  | ⟨_, .word w⟩ :: ⟨_, .operator "("⟩ :: rest =>
    match w.bare?, rest with
    | some name, ⟨_, .operator ")"⟩ :: rest => do
      let (body, rest) ← inner .command (skipNewlines rest)
      return (.command (.definition name body.asCommand), rest)
    | _, _ => .error (.unexpected "(" none)
  | ⟨line, .word w⟩ :: rest =>
    match w.bare? with
    | some text =>
      if closingWords.contains text then .error (.unexpected text none)
      else (readCompound? inner line text rest).getD (readSimpleCommand line tokens)
    | none => readSimpleCommand line tokens
  | ⟨line, _⟩ :: _ => readSimpleCommand line tokens
  | [] => .error (.endOfFile none)

/-- The stages of a command. -/
def Command.stages : Command → List Command
  | .pipeline stages => stages
  | c => [c]

/-- Reads what follows the test of a conditional, up to its end. -/
def readBranches (inner : PartReader) (tokens : Tokens) : Except SyntaxError (Parsed Found) :=
  match bareWord? (skipNewlines tokens) with
  | some ("fi", rest) => .ok (.command .nothing, rest)
  | some ("else", rest) => do
    let (no, rest) ← readSome inner "fi" rest
    let rest ← expect "fi" rest
    return (.command no, rest)
  | some ("elif", rest) => do
    let (test, rest) ← readSome inner "then" rest
    let rest ← expect "then" rest
    let (yes, rest) ← readSome inner "fi" rest
    let (no, rest) ← inner .branches rest
    return (.command (.conditional test yes no.asCommand), rest)
  | _ => .error ((unexpectedAt (skipNewlines tokens)).expecting "fi")

/-- Reads the clauses of a choice, up to its end. -/
def readClauses (inner : PartReader) (tokens : Tokens) : Except SyntaxError (Parsed Found) := do
  let tokens := skipNewlines tokens
  match bareWord? tokens with
  | some ("esac", rest) => return (.clauses [], rest)
  | _ =>
    let tokens := match tokens with
      | ⟨_, .operator "("⟩ :: rest => rest
      | _ => tokens
    let (patterns, rest) ← readPatterns tokens
    let rest := skipNewlines rest
    let (body, rest) ← if startsCommand rest then inner .commands rest
      else .ok (Found.command .nothing, rest)
    let rest := match skipNewlines rest with
      | ⟨_, .operator ";;"⟩ :: rest => rest
      | rest => rest
    let (more, rest) ← inner .clauses rest
    return (.clauses ((patterns, body.asCommand) :: more.asClauses), rest)

/-- Reads what a goal asks for. -/
def parse : Nat → PartReader
  | 0, _, tokens => .error (unexpectedAt tokens)
  | fuel + 1, goal, tokens =>
    let inner := parse fuel
    match goal with
    | .command => readCommand inner tokens
    | .branches => readBranches inner tokens
    | .clauses => readClauses inner tokens
    | .pipeline => do
      match bareWord? tokens with
      | some ("!", rest) =>
        let (c, rest) ← inner .pipeline rest
        return (.command (.negated c.asCommand), rest)
      | _ =>
        let (c, rest) ← inner .command tokens
        match rest with
        | ⟨_, .operator "|"⟩ :: rest =>
          let (more, rest) ← inner .pipeline (skipNewlines rest)
          return (.command (.pipeline (c.asCommand :: more.asCommand.stages)), rest)
        | _ => return (c, rest)
    | .chain => do
      let (first, rest) ← inner .pipeline tokens
      let rec join : Nat → Command → Tokens → Except SyntaxError (Parsed Found)
        | 0, left, rest => .ok (.command left, rest)
        | n + 1, left, rest =>
          match rest with
          | ⟨_, .operator "&&"⟩ :: rest => do
            let (right, rest) ← inner .pipeline (skipNewlines rest)
            join n (.conjunction left right.asCommand) rest
          | ⟨_, .operator "||"⟩ :: rest => do
            let (right, rest) ← inner .pipeline (skipNewlines rest)
            join n (.disjunction left right.asCommand) rest
          | _ => .ok (.command left, rest)
      join rest.length first.asCommand rest
    | .commands => do
      let (first, rest) ← inner .chain tokens
      let (first, rest, isSeparated) := match rest with
        | ⟨_, .operator ";"⟩ :: rest => (first.asCommand, rest, true)
        | ⟨_, .operator "&"⟩ :: rest => (.background first.asCommand, rest, true)
        | ⟨_, .newline⟩ :: rest => (first.asCommand, rest, true)
        | rest => (first.asCommand, rest, false)
      let next := skipNewlines rest
      if isSeparated && startsCommand next then
        let (second, rest) ← inner .commands next
        return (.command (.sequence first second.asCommand), rest)
      else return (.command first, next)

/-- Reads the commands of one line and of the lines that belong to them. -/
def readLine (tokens : Tokens) : Except SyntaxError (Parsed Command) := do
  let fuel := 8 * tokens.length + 16
  let rec join : Nat → Command → Tokens → Except SyntaxError (Parsed Command)
    | 0, c, rest => .ok (c, rest)
    | n + 1, c, rest => do
      let (next, rest) ← parse fuel .chain rest
      let sequence (second : Command) : Command := match c with
        | .nothing => second
        | c => .sequence c second
      match rest with
      | ⟨_, .operator ";"⟩ :: rest =>
        if startsCommand rest then join n (sequence next.asCommand) rest
        else return (sequence next.asCommand, rest)
      | ⟨_, .operator "&"⟩ :: rest =>
        if startsCommand rest then join n (sequence (.background next.asCommand)) rest
        else return (sequence (.background next.asCommand), rest)
      | rest => return (sequence next.asCommand, rest)
  join tokens.length .nothing tokens

/-- A script: its commands, and the fault that ends it with its line. -/
structure Script where
  commands : List Command
  fault : Option (Nat × SyntaxError)

/-- Reads a script line by line. -/
def readLines (lastLine : Nat) (lexical : Option SyntaxError) : Nat → Tokens → Script
  | 0, _ => ⟨[], none⟩
  | fuel + 1, tokens =>
    let tokens := skipNewlines tokens
    let lineOf (tokens : Tokens) : Nat := (tokens.head?.map (·.line)).getD lastLine
    if tokens.isEmpty then ⟨[], lexical.map (lastLine, ·)⟩
    else
      match readLine tokens with
      | .error e =>
        match e, lexical with
        | .endOfFile _, some other => ⟨[], some (lastLine, other)⟩
        | _, _ => ⟨[], some (lineOf tokens, e)⟩
      | .ok (c, rest) =>
        match rest, lexical with
        | [], none => ⟨[c], none⟩
        | [], some e => ⟨[], some (lastLine, e)⟩
        | ⟨_, .newline⟩ :: rest, _ =>
          let more := readLines lastLine lexical fuel rest
          ⟨c :: more.commands, more.fault⟩
        | located :: _, _ => ⟨[], some (located.line, unexpectedAt rest)⟩

/-- The script that a text holds. -/
def Script.ofText (text : List Char) : Script :=
  let (tokens, e) := tokenize text
  let lastLine := 1 + text.count '\n'
  readLines lastLine e (tokens.length + 1) tokens

end Shell

end CommitVerdict
