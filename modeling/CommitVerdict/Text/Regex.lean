import CommitVerdict.Text.Glob

namespace CommitVerdict

namespace Regex

/-- One item of an expression, and whether it may be repeated or left out. -/
structure Item where
  token : Glob.Token
  starred : Bool
deriving DecidableEq, Repr

/-- An expression, and whether it is tied to the start and to the end of the text. -/
structure Expression where
  atStart : Bool
  items : List Item
  atEnd : Bool
deriving DecidableEq, Repr

/-- Reads the single token at the start of an expression. -/
def readToken (cs : Bytes) : Option (Glob.Token × Bytes) :=
  match cs with
  | [] => none
  | 46 :: rest => some (.any, rest)
  | 92 :: b :: rest => some (.byte b, rest)
  | 91 :: rest =>
    let (negated, members) := match rest with
      | 94 :: members => (true, members)
      | members => (false, members)
    (Glob.readSet (members.length + 1) true none members).map fun (ranges, left) =>
      (.set negated ranges, left)
  | b :: rest => some (.byte b, rest)

/-- Reads the items of an expression; the last result says whether it is tied to the end. -/
def readItems : Nat → Bytes → List Item × Bool
  | 0, _ => ([], false)
  | _, [] => ([], false)
  | _, [36] => ([], true)
  | fuel + 1, cs =>
    match readToken cs with
    | none => ([⟨.never, false⟩], false)
    | some (token, 42 :: rest) =>
      let (items, atEnd) := readItems fuel rest
      (⟨token, true⟩ :: items, atEnd)
    | some (token, rest) =>
      let (items, atEnd) := readItems fuel rest
      (⟨token, false⟩ :: items, atEnd)

def parse (expression : Bytes) : Expression :=
  let (atStart, rest) := match expression with
    | 94 :: rest => (true, rest)
    | rest => (false, rest)
  let (items, atEnd) := readItems rest.length rest
  ⟨atStart, items, atEnd⟩

/-- The texts that are left after the bytes at the start that a token accepts, none of them taken
first. -/
def repeated (token : Glob.Token) : Bytes → List Bytes
  | [] => [[]]
  | b :: rest => (b :: rest) :: if token.accepts b then repeated token rest else []

/-- Whether items stand at the start of a text, and at its end if they are tied to it. -/
def acceptsHere (atEnd : Bool) : List Item → Bytes → Bool
  | [], text => !atEnd || text.isEmpty
  | item :: rest, text =>
    if item.starred then (repeated item.token text).any (acceptsHere atEnd rest)
    else
      match text with
      | [] => false
      | b :: left => item.token.accepts b && acceptsHere atEnd rest left

/-- Whether an expression occurs in a text. -/
def occurs (e : Expression) (text : Bytes) : Bool :=
  if e.atStart then acceptsHere e.atEnd e.items text
  else (Glob.ends text).any (acceptsHere e.atEnd e.items)

/-- An expression for a text taken as it is. -/
def literal (text : Bytes) : Expression := ⟨false, text.map fun b => ⟨.byte b, false⟩, false⟩

end Regex

end CommitVerdict
