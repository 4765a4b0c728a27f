import CommitVerdict.Tree
import CommitVerdict.Text.Utf8

namespace CommitVerdict

/-- What a repository tracks. -/
inductive Entry where
  | file (content : Bytes)
  | executable (content : Bytes)
  | link (target : String)
deriving DecidableEq, Repr

/-- What stands in a working directory, where there are also directories with nothing below them. -/
inductive Leaf where
  | entry (e : Entry)
  | emptyDirectory
deriving DecidableEq, Repr

namespace Leaf

def asEntry : Leaf → Option Entry
  | .entry e => some e
  | .emptyDirectory => none

end Leaf

/-- What a repository tracks: the tree of a commit, or an index. -/
abbrev Snapshot := Tree Entry

/-- What stands on a disk below some directory. -/
abbrev Directory := Tree Leaf

namespace Directory

/-- The directory that holds the entries of a snapshot. -/
def ofSnapshot (s : Snapshot) : Directory := s.mapLeaves .entry

/-- The entry at a path. -/
def entryAt? (d : Directory) (p : Path) : Option Entry := (d.get? p).bind Leaf.asEntry

/-- Whether there is a directory at the path; the root is always one. -/
def isDirectoryAt (d : Directory) (p : Path) : Bool :=
  p.isEmpty || d.hasBelow p || d.get? p == some .emptyDirectory

/-- Makes a directory at a path where there is nothing yet. -/
def makeDirectory (d : Directory) (p : Path) : Directory :=
  if d.contains p then d else d.put p .emptyDirectory

/-- Leaves an empty directory where the last leaf below a path has gone. -/
def keepDirectory (d : Directory) (p : Path) : Directory :=
  if p.isEmpty || d.contains p then d else d.put p .emptyDirectory

/-- Removes what stands at and below a path; the directory that held it stays. -/
def removeAt (d : Directory) (p : Path) : Directory :=
  if d.contains p then keepDirectory (d.removeBelow p) p.dropLast else d

end Directory

end CommitVerdict
