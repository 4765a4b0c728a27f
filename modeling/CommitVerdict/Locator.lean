import CommitVerdict.FileSystem
import CommitVerdict.VerificationError

namespace CommitVerdict

namespace Locator

/-- How many directories are searched, the start included. -/
def searchDepth : Nat := 10

/-- The name that marks the root of a repository. -/
def marker : String := ".git"

/-- A path and the paths of the directories above it, nearest first. -/
def ancestors (p : Path) : List Path :=
  ((List.range (p.length + 1)).map fun n => p.take n).reverse

/-- Whether a directory is the root of a repository. -/
def isMarked (fs : FileSystem) (p : Path) : Bool := FileSystem.existsAt fs p marker

/-- The root of the repository around a place without links. -/
def enclosing? (fs : FileSystem) (start : Path) : Option Path :=
  ((ancestors start).take searchDepth).find? (isMarked fs)

/-- The root of the repository around a path. The search starts at the place of the path, without links on the
way to it, and walks upward. -/
def locate (fs : FileSystem) (directory : Path) (start : String) :
    Except VerificationError Path :=
  match FileSystem.canonicalize fs directory start with
  | .error e => .error (.workspace e)
  | .ok found =>
    match enclosing? fs found with
    | some root => .ok root
    | none => .error (.repositoryNotFound found.toAbsolute searchDepth)

end Locator

end CommitVerdict
