import CommitVerdict.Text.Utf8

namespace CommitVerdict

namespace Glob

/-- A part of a pattern. The slash is a byte like any other. -/
inductive Token where
  | byte (b : UInt8)
  | any
  | star
  /-- A byte in one of the ranges, ends included, or one in none of them. -/
  | set (negated : Bool) (ranges : List (UInt8 × UInt8))
  | never
deriving DecidableEq, Repr

/-- The ranges of a named class of bytes. -/
def classRanges? (name : String) : Option (List (UInt8 × UInt8)) :=
  match name with
  | "alnum" => some [(48, 57), (65, 90), (97, 122)]
  | "alpha" => some [(65, 90), (97, 122)]
  | "blank" => some [(9, 9), (32, 32)]
  | "cntrl" => some [(0, 31), (127, 127)]
  | "digit" => some [(48, 57)]
  | "graph" => some [(33, 126)]
  | "lower" => some [(97, 122)]
  | "print" => some [(32, 126)]
  | "punct" => some [(33, 47), (58, 64), (91, 96), (123, 126)]
  | "space" => some [(9, 13), (32, 32)]
  | "upper" => some [(65, 90)]
  | "xdigit" => some [(48, 57), (65, 70), (97, 102)]
  | _ => none

/-- Reads the members of a set up to its closing bracket. `before` is the byte that a hyphen would
take as the start of a range, and `first` says that a closing bracket is still an ordinary byte. -/
def readSet : Nat → Bool → Option UInt8 → Bytes → Option (List (UInt8 × UInt8) × Bytes)
  | 0, _, _, _ => none
  | fuel + 1, first, before, cs =>
    let add (ranges : List (UInt8 × UInt8)) (before : Option UInt8) (rest : Bytes) :=
      (readSet fuel false before rest).map fun (more, left) => (ranges ++ more, left)
    match cs with
    | [] => none
    | 93 :: rest => if first then add [(93, 93)] (some 93) rest else some ([], rest)
    | 92 :: b :: rest => add [(b, b)] (some b) rest
    | 91 :: 58 :: rest =>
      let name := rest.takeWhile fun b => b != 93
      match name.getLast?, rest.drop name.length with
      | some 58, _ :: left =>
        match classRanges? (Utf8.text name.dropLast) with
        | some ranges => add ranges none left
        | none => none
      | _, _ => add [(91, 91)] (some 91) (58 :: rest)
    | 45 :: high :: rest =>
      match before with
      | none => add [(45, 45)] (some 45) (high :: rest)
      | some low =>
        if high = 93 then add [(45, 45)] (some 45) (high :: rest)
        else if high = 92 then
          match rest with
          | [] => none
          | escaped :: rest => add [(low, escaped)] none rest
        else add [(low, high)] none rest
    | b :: rest => add [(b, b)] (some b) rest

/-- Reads a pattern. -/
def parseFrom : Nat → Bytes → List Token
  | 0, _ => []
  | _, [] => []
  | _ + 1, [92] => [.never]
  | fuel + 1, 92 :: b :: rest => .byte b :: parseFrom fuel rest
  | fuel + 1, 42 :: rest => .star :: parseFrom fuel rest
  | fuel + 1, 63 :: rest => .any :: parseFrom fuel rest
  | fuel + 1, 91 :: rest =>
    let (negated, members) := match rest with
      | 33 :: members => (true, members)
      | 94 :: members => (true, members)
      | members => (false, members)
    match readSet (members.length + 1) true none members with
    | some (ranges, left) => .set negated ranges :: parseFrom fuel left
    | none => [.never]
  | fuel + 1, b :: rest => .byte b :: parseFrom fuel rest

def parse (pattern : Bytes) : List Token := parseFrom pattern.length pattern

/-- All ends of a list, the longest first. -/
def ends {α : Type} : List α → List (List α)
  | [] => [[]]
  | x :: rest => (x :: rest) :: ends rest

/-- Whether a token stands for a byte. -/
def Token.accepts (b : UInt8) : Token → Bool
  | .byte c => c == b
  | .any => true
  | .star => false
  | .set negated ranges => (ranges.any fun range => range.1 ≤ b && b ≤ range.2) != negated
  | .never => false

/-- Whether tokens stand for a whole text. -/
def accepts : List Token → Bytes → Bool
  | [], text => text.isEmpty
  | .star :: rest, text => (ends text).any fun left => accepts rest left
  | token :: rest, text =>
    match text with
    | [] => false
    | b :: left => token.accepts b && accepts rest left

/-- Whether a pattern matches a whole text. -/
def isMatch (pattern text : Bytes) : Bool := accepts (parse pattern) text

/-- Whether a byte has a meaning of its own in patterns. -/
def isWildcard (b : UInt8) : Bool := b == 42 || b == 63 || b == 91

end Glob

end CommitVerdict
