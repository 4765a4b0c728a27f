import CommitVerdict.Git.CommitId

namespace CommitVerdict

/-- A failure of the repository itself. -/
inductive GitFailure where
  | objectNotFound (id : CommitId)
  | indexLocked
  /-- The source of a clone is a directory without a repository. -/
  | noRepository (path : String)
  /-- The source of a clone is not a directory. -/
  | unsupportedSource
  /-- The destination of a clone is neither missing nor an empty directory. -/
  | destinationOccupied (path : String)
  /-- A link file leads to a path that does not exist. -/
  | danglingLink (path : String)
  /-- A link file does not have the form of one. -/
  | malformedLink (path : String)
  | other (text : String)
deriving DecidableEq, Repr

namespace GitFailure

def message : GitFailure → String
  | .objectNotFound id =>
    s!"object not found - no match for id ({id.hex}); class=Odb (9); code=NotFound (-3)"
  | .indexLocked =>
    "the index is locked; this might be due to a concurrent or crashed process; "
      ++ "class=Index (10); code=Locked (-14)"
  | .noRepository path =>
    s!"could not find repository at '{path}'; class=Repository (6); code=NotFound (-3)"
  | .unsupportedSource => "unsupported URL protocol; class=Net (12)"
  | .destinationOccupied path =>
    s!"'{path}' exists and is not an empty directory; class=Invalid (3); code=Exists (-4)"
  | .danglingLink path =>
    s!"failed to resolve path '{path}': No such file or directory; "
      ++ "class=Os (2); code=NotFound (-3)"
  | .malformedLink path => s!"the `.git` file at '{path}' is malformed; class=Repository (6)"
  | .other text => text

end GitFailure

/-- Why an operation on a repository fails. -/
inductive GitError where
  | operationFailed (cause : GitFailure)
  | unresolvableReference (reference : String)
  /-- A path whose bytes are no text; the path is given as a terminal shows it. -/
  | pathNotText (path : String)
deriving DecidableEq, Repr

namespace GitError

def message : GitError → String
  | .operationFailed cause => s!"Git operation failed: {cause.message}"
  | .unresolvableReference reference => s!"Cannot resolve reference '{reference}' to a commit"
  | .pathNotText path => s!"Path is not valid UTF-8: {path}"

end GitError

end CommitVerdict
