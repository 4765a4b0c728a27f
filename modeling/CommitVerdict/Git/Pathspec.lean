import CommitVerdict.Path
import CommitVerdict.Text.Glob

namespace CommitVerdict

/-- A pattern of a selection. -/
structure PathPattern where
  negated : Bool
  /-- A lone star or a lone dot, which selects everything. -/
  everything : Bool
  /-- Whether it has a wildcard, and so does not select what lies below. -/
  wild : Bool
  text : Bytes
deriving DecidableEq, Repr

namespace PathPattern

def isBlankByte (b : UInt8) : Bool := (9 ≤ b && b ≤ 13) || b == 32

/-- The text of a pattern up to the first line end, and whether it has a wildcard. -/
def scan : Bytes → Bytes × Bool
  | [] => ([], false)
  | 92 :: b :: rest =>
    let (text, wild) := scan rest
    (92 :: b :: text, wild)
  | b :: rest =>
    if isBlankByte b && b != 32 && b != 9 && b != 13 then ([], false)
    else
      let (text, wild) := scan rest
      (b :: text, Glob.isWildcard b || wild)

/-- Drops blanks at the end, except one behind an odd number of backslashes; the text is given and
returned in reverse. -/
def dropBlanksReversed : Bytes → Bytes
  | [] => []
  | b :: rest =>
    if b == 32 || b == 9 then
      if (rest.takeWhile (· == 92)).length % 2 == 1 then b :: rest else dropBlanksReversed rest
    else b :: rest

/-- Drops the backslash in front of each blank, and one at the end that stands in front of nothing. -/
def unescapeBlanks : Bytes → Bytes
  | 92 :: b :: rest => if isBlankByte b then b :: unescapeBlanks rest else 92 :: b :: unescapeBlanks rest
  | [92] => []
  | b :: rest => b :: unescapeBlanks rest
  | [] => []

/-- Whether a text is a lone star or a lone dot. -/
def isWhole (text : Bytes) : Bool := text == [42] || text == [46]

/-- The pattern that a text writes; none if it writes nothing, or a comment. -/
def parse? (text : Bytes) : Option PathPattern :=
  if isWhole text then some ⟨false, true, false, []⟩
  else
    match text with
    | [] => none
    | first :: afterFirst =>
      if first == 35 || first == 10 then none
      else
        let negated := first == 33
        let body := if negated then afterFirst else text
        let (scanned, wild) := scan body
        let scanned := if scanned.head? == some 47 then scanned.tail else scanned
        let scanned := if scanned.getLast? == some 13 then scanned.dropLast else scanned
        let trimmed := (dropBlanksReversed scanned.reverse).reverse
        if trimmed.isEmpty then none
        else
          let named := if trimmed.getLast? == some 47 then trimmed.dropLast else trimmed
          some ⟨negated, false, wild, unescapeBlanks named⟩

/-- What a pattern says about a path, if anything. -/
def judge (p : PathPattern) (path : Bytes) : Option Bool :=
  let below := p.text ++ [47]
  let covers := p.everything || p.text == path || Glob.isMatch p.text path
    || (!p.wild && below.isPrefixOf path)
  let marked := 33 :: p.text
  if covers then some (!p.negated)
  else if p.negated && (marked == path || (marked ++ [47]).isPrefixOf path) then some true
  else none

end PathPattern

/-- Patterns that select paths. A pattern is compared with the text of a path as it stands. -/
structure Pathspec where
  /-- How the text of every selected path begins. -/
  stem : Bytes
  patterns : List PathPattern
deriving DecidableEq, Repr

namespace Pathspec

/-- The longest common beginning of two lists. -/
def commonStart : Bytes → Bytes → Bytes
  | a :: as, b :: bs => if a = b then a :: commonStart as bs else []
  | _, _ => []

/-- The text before the first wildcard that no backslash stands in front of. -/
def beforeWildcard (before : UInt8) : Bytes → Bytes
  | [] => []
  | b :: rest => if Glob.isWildcard b && before != 92 then [] else b :: beforeWildcard b rest

/-- Drops each backslash that stands in front of another byte. -/
def unescape : Bytes → Bytes
  | 92 :: b :: rest => b :: unescape rest
  | b :: rest => b :: unescape rest
  | [] => []

def ofTexts (texts : List String) : Pathspec :=
  let texts := texts.map Utf8.encode
  let stem := match texts with
    | [] => []
    | first :: rest => unescape (beforeWildcard 0 (rest.foldl commonStart first))
  ⟨stem, texts.filterMap PathPattern.parse?⟩

/-- Whether the selection has a path. The first pattern that says something about the path decides; without
any patterns every path is selected. -/
def selects (spec : Pathspec) (p : Path) : Bool :=
  let text := Utf8.encode p.toText
  spec.stem.isPrefixOf text
    && (spec.patterns.isEmpty
      || ((spec.patterns.findSome? fun pattern => pattern.judge text).getD false))

end Pathspec

end CommitVerdict
