import CommitVerdict.Leaf

namespace CommitVerdict

namespace Path

/-- Puts a path into an ordered list, unless it is in it. -/
def insertInto (p : Path) : List Path → List Path
  | [] => [p]
  | q :: rest =>
    if p < q then p :: q :: rest
    else if q < p then q :: insertInto p rest
    else q :: rest

/-- The paths of a list, each once and in order. -/
def orderedSet (paths : List Path) : List Path := paths.foldl (fun set p => insertInto p set) []

end Path

/-- A difference between two snapshots. Each side may name a path: where the file stood before, and where it
stands after. Renames are not detected, so a moved file makes two differences. -/
structure Delta where
  before : Option Path
  after : Option Path
deriving DecidableEq, Repr

namespace Delta

/-- The differences between two snapshots: one for each path at which they differ, which both sides
name. -/
def between (before after : Snapshot) : List Delta :=
  (Tree.differences before after).map fun p => ⟨some p, some p⟩

/-- The paths that the sides name. -/
def paths (d : Delta) : List Path := [d.before, d.after].filterMap id

/-- The paths that differences name, each once and in order. -/
def allPaths (deltas : List Delta) : List Path := Path.orderedSet (deltas.flatMap paths)

end Delta

end CommitVerdict
