import CommitVerdict.Shell.Word

namespace CommitVerdict

namespace Shell

/-- Where a descriptor is led. -/
inductive RedirectionKind where
  | input
  | output
  | append
  | both
  | duplicate
deriving DecidableEq, Repr

/-- The tokens of the shell's language. A redirection is a token of its own, with the descriptor that is
written before it. -/
inductive Token where
  | word (w : Word)
  | operator (text : String)
  | newline
  | redirection (descriptor : Nat) (kind : RedirectionKind)
  /-- A text given with the command, as the input of a descriptor. -/
  | given (descriptor : Nat) (text : Word)
deriving DecidableEq, Repr

structure Located where
  line : Nat
  token : Token
deriving DecidableEq, Repr

/-- A mark whose text has not been reached yet. -/
structure AwaitedText where
  mark : List Char
  isQuoted : Bool
  stripsTabs : Bool
deriving DecidableEq, Repr

/-- Splits at the first line end. -/
def splitLine (cs : List Char) : List Char × List Char :=
  let line := cs.takeWhile fun c => c != '\n'
  (line, (cs.drop line.length).drop 1)

/-- Reads the lines of an awaited text up to its mark: the text and what follows the mark. -/
def readGiven (awaited : AwaitedText) : Nat → List Char → List Char × List Char
  | 0, cs => ([], cs)
  | _, [] => ([], [])
  | fuel + 1, cs =>
    let (line, rest) := splitLine cs
    let line := if awaited.stripsTabs then line.dropWhile fun c => c == '\t' else line
    if line = awaited.mark then ([], rest)
    else
      let (more, rest) := readGiven awaited fuel rest
      (line ++ '\n' :: more, rest)

/-- The tokens of a text so far, the last one first, with the numbers of awaited texts in place of
them. -/
structure Lexer where
  line : Nat
  tokens : List Located
  awaited : List AwaitedText
  /-- The texts that have been reached, in order. -/
  texts : List Word
deriving DecidableEq, Repr

namespace Lexer

def start (line : Nat) : Lexer := ⟨line, [], [], []⟩

def add (l : Lexer) (t : Token) : Lexer := { l with tokens := ⟨l.line, t⟩ :: l.tokens }

/-- Reads the texts that are awaited at the end of a line. -/
def readTexts (l : Lexer) (cs : List Char) : Except SyntaxError (Lexer × List Char) :=
  l.awaited.foldlM (fun (state : Lexer × List Char) awaited => do
    let (text, rest) := readGiven awaited (state.2.length + 1) state.2
    let w ← if awaited.isQuoted then .ok [.quoted text] else Word.ofQuoted text
    .ok ({ state.1 with
      line := state.1.line + (text.count '\n') + 1
      texts := state.1.texts ++ [Segment.quoted [] :: w] }, rest))
    ({ l with awaited := [] }, cs)

/-- Operators, the longer ones first. -/
def operators : List String := ["&&", "||", ";;", "&", "|", ";", "(", ")"]

/-- The operator at the start of a text. -/
def operator? (cs : List Char) : Option (String × List Char) :=
  (operators.find? fun text => text.toList.isPrefixOf cs).map fun text =>
    (text, cs.drop text.length)

/-- The redirection at the start of a text, with the descriptor that it is about by itself. -/
def redirection? (cs : List Char) : Option (RedirectionKind × Nat × List Char) :=
  match cs with
  | '>' :: '>' :: rest => some (.append, 1, rest)
  | '>' :: '&' :: rest => some (.duplicate, 1, rest)
  | '>' :: '|' :: rest => some (.output, 1, rest)
  | '>' :: rest => some (.output, 1, rest)
  | '<' :: '&' :: rest => some (.duplicate, 0, rest)
  | '<' :: '>' :: rest => some (.both, 0, rest)
  | '<' :: rest => some (.input, 0, rest)
  | _ => none

/-- Reads the mark of a text that is given with a command. -/
def readMark (l : Lexer) (descriptor : Nat) (cs : List Char) :
    Except SyntaxError (Lexer × List Char) := do
  let (stripsTabs, cs) := match cs with
    | '-' :: rest => (true, rest)
    | _ => (false, cs)
  let cs := cs.dropWhile fun c => c == ' ' || c == '\t'
  let (w, rest) ← readWord false (cs.length + 1) cs
  let (mark, isQuoted) := w.mark
  let number := l.texts.length + l.awaited.length
  let placeholder : Token := .given descriptor [.plain (Nat.toDigits 10 number)]
  return ({ l.add placeholder with awaited := l.awaited ++ [⟨mark, isQuoted, stripsTabs⟩] }, rest)

/-- Reads all tokens of a text. If some of it cannot be read, the tokens before that are kept. -/
def readAll : Nat → Lexer → List Char → Lexer × Option SyntaxError
  | 0, l, _ => (l, none)
  | _, l, [] => (l, none)
  | fuel + 1, l, '\n' :: rest =>
    match ({ l.add .newline with line := l.line + 1 } : Lexer).readTexts rest with
    | .error e => (l, some e)
    | .ok (l, rest) => readAll fuel l rest
  | fuel + 1, l, '\\' :: '\n' :: rest => readAll fuel { l with line := l.line + 1 } rest
  | fuel + 1, l, c :: rest =>
    if c = ' ' || c = '\t' then readAll fuel l rest
    else if c = '#' then readAll fuel l (rest.dropWhile fun c => c != '\n')
    else
      match operator? (c :: rest) with
      | some (text, rest) => readAll fuel (l.add (.operator text)) rest
      | none =>
        let digits := (c :: rest).takeWhile Char.isDigit
        let after := (c :: rest).drop digits.length
        let number (default : Nat) : Nat :=
          if digits.isEmpty then default
          else digits.foldl (fun n c => n * 10 + (c.toNat - '0'.toNat)) 0
        match after with
        | '<' :: '<' :: rest =>
          match l.readMark (number 0) rest with
          | .error e => (l, some e)
          | .ok (l, rest) => readAll fuel l rest
        | _ =>
          match redirection? after with
          | some (kind, descriptor, rest) =>
            readAll fuel (l.add (.redirection (number descriptor) kind)) rest
          | none =>
            match readWord false (rest.length + 2) (c :: rest) with
            | .error e => (l, some e)
            | .ok (w, left) =>
              let lines := (c :: rest).count '\n' - left.count '\n'
              let l := l.add (.word w)
              readAll fuel { l with line := l.line + lines } left

/-- The tokens in order, with the texts that are given with commands in their places. -/
def result (l : Lexer) : List Located :=
  l.tokens.reverse.map fun located => match located.token with
    | .given descriptor [.plain digits] =>
      let number := digits.foldl (fun n c => n * 10 + (c.toNat - '0'.toNat)) 0
      { located with token := .given descriptor (l.texts[number]?.getD [.quoted []]) }
    | _ => located

end Lexer

/-- The tokens of a script up to the first error in it. -/
def tokenize (script : List Char) : List Located × Option SyntaxError :=
  let (l, e) := Lexer.readAll (script.length + 1) (Lexer.start 1) script
  (l.result, e)

end Shell

end CommitVerdict
