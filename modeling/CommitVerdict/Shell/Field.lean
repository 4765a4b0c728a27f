import CommitVerdict.FileSystem
import CommitVerdict.Text.Glob

namespace CommitVerdict

namespace Shell

/-- Where a character of an expanded word comes from. -/
inductive Source where
  | quoted
  | plain
  /-- An unquoted substitution. -/
  | substituted
deriving DecidableEq, Repr

/-- A piece of an expanded word. -/
inductive Piece where
  | char (c : Char) (source : Source)
  /-- Nothing, but it makes a field even if it is alone. -/
  | empty
  /-- The end of a field. -/
  | boundary
deriving DecidableEq, Repr

namespace Piece

def ofChars (source : Source) (cs : List Char) : List Piece := cs.map (.char · source)

end Piece

/-- A character of a field, and whether it is quoted. -/
abbrev FieldChar := Char × Bool

abbrev Field := List FieldChar

namespace Field

def text (f : Field) : String := String.ofList (f.map (·.1))

/-- The separators that are blank. -/
def isBlankSeparator (c : Char) : Bool := c == ' ' || c == '\t' || c == '\n'

/-- What has been seen of a field. -/
inductive Progress where
  | none
  /-- The characters of the field, the last one first. -/
  | started (chars : List FieldChar)
  /-- A field has ended at a blank; a separator that follows belongs to its end. -/
  | ended

/-- Cuts pieces into fields at separators. Blank separators around a field are dropped; every other
separator ends a field, an empty one too. -/
def split (separators : List Char) : Progress → List Piece → List Field
  | .started chars, [] => [chars.reverse]
  | _, [] => []
  | .started chars, .boundary :: rest => chars.reverse :: split separators .none rest
  | _, .boundary :: rest => split separators .none rest
  | .started chars, .empty :: rest => split separators (.started chars) rest
  | _, .empty :: rest => split separators (.started []) rest
  | progress, .char c source :: rest =>
    if source = .substituted && separators.contains c then
      if isBlankSeparator c then
        match progress with
        | .started chars => chars.reverse :: split separators .ended rest
        | other => split separators other rest
      else
        match progress with
        | .started chars => chars.reverse :: split separators .none rest
        | .ended => split separators .none rest
        | .none => [] :: split separators .none rest
    else
      let chars := match progress with
        | .started chars => chars
        | _ => []
      split separators (.started ((c, source == .quoted) :: chars)) rest

/-- The characters of pieces that are not cut. -/
def ofPieces (pieces : List Piece) : Field :=
  pieces.filterMap fun piece => match piece with
    | .char c source => some (c, source == .quoted)
    | .empty => none
    | .boundary => some (' ', true)

/-- The pattern that a field is: quoted characters mean only themselves. -/
def pattern (f : Field) : Bytes :=
  f.flatMap fun (c, isQuoted) =>
    let bytes := Utf8.encodeChars [c]
    if isQuoted then bytes.flatMap fun b => if b < 128 then [92, b] else [b] else bytes

/-- Whether a field has wildcards. -/
def hasWildcards (f : Field) : Bool :=
  f.any fun (c, isQuoted) => !isQuoted && (c == '*' || c == '?' || c == '[')

/-- Splits a field at slashes. -/
def atSlashes : Field → List Field
  | [] => [[]]
  | x :: rest =>
    match atSlashes rest with
    | [] => [[x]]
    | part :: more => if x.1 = '/' then [] :: part :: more else (x :: part) :: more

/-- The names in a directory that match a pattern, in order. Names that start with a dot match
only a pattern that does. -/
def matchingNames (fs : FileSystem) (directory : Path) (base : String) (part : Field) :
    List String :=
  match FileSystem.canonicalize fs directory (if base.isEmpty then "." else base) with
  | .error _ => []
  | .ok place =>
    if !fs.isDirectoryAt place then []
    else
      let tokens := Glob.parse part.pattern
      let fits (name : String) : Bool :=
        (!name.startsWith "." || (part.head?.map (·.1)) == some '.')
          && Glob.accepts tokens (Utf8.encode name)
      ((fs.names place).filter fits).mergeSort fun a b => decide (a ≤ b)

/-- The paths that match the parts of a pattern behind some starts. -/
def matchParts (fs : FileSystem) (directory : Path) : List String → List Field → List String
  | starts, [] => starts
  | starts, part :: rest =>
    let separator := if rest.isEmpty then "" else "/"
    let next := starts.flatMap fun start =>
      if part.hasWildcards then
        (matchingNames fs directory start part).map fun name => start ++ name ++ separator
      else [start ++ part.text ++ separator]
    matchParts fs directory next rest

/-- Whether a path names anything, a link itself included. -/
def leadsSomewhere (fs : FileSystem) (directory : Path) (path : String) : Bool :=
  match FileSystem.place fs directory path false with
  | .ok found => fs.isDirectoryAt found || fs.contains found
  | .error _ => false

/-- The texts of a field: the paths that match it, or itself if there are none. -/
def paths (fs : FileSystem) (directory : Path) (f : Field) : List String :=
  if !f.hasWildcards then [f.text]
  else
    let found := (matchParts fs directory [""] (atSlashes f)).filter (leadsSomewhere fs directory)
    if found.isEmpty then [f.text] else found

end Field

end Shell

end CommitVerdict
