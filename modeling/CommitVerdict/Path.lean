import CommitVerdict.PathText

namespace CommitVerdict

/-- The names from the root down; the empty list is the root itself. Paths are ordered name by name, so
everything below a directory stands together, right after the directory's own path. -/
abbrev Path := List String

namespace Path

/-- Splits a text at slashes, dropping empty pieces. -/
def ofText (text : String) : Path :=
  ((PathText.pieces text.toList).filter fun piece => !piece.isEmpty).map String.ofList

/-- The names joined by slashes. -/
def toText (p : Path) : String := "/".intercalate p

/-- The text of a path from the root of a file system. -/
def toAbsolute (p : Path) : String := "/" ++ toText p

/-- Whether one of two paths is the other one or lies below it. Two files never stand in this
relation, since a file has nothing below it. -/
def conflicts (p q : Path) : Bool := p.isPrefixOf q || q.isPrefixOf p

/-- Whether a repository can track something under a name: a name that is there, that is no way to
another directory, and that is not where the repository keeps its own data, in either case. -/
def isTrackableName (name : String) : Bool :=
  let cs := name.toList
  !cs.isEmpty && cs.all (fun c => c != '/' && c != '\x00') && cs != ['.'] && cs != ['.', '.']
    && cs.map Char.toLower != ['.', 'g', 'i', 't']

/-- Whether a repository can track a file at a path. -/
def isTrackable (p : Path) : Bool := !p.isEmpty && p.all isTrackableName

end Path

end CommitVerdict
