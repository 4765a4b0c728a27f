import CommitVerdict.Git.Error
import CommitVerdict.OsError

namespace CommitVerdict

/-- Why a verification ends without a report. -/
inductive VerificationError where
  | repositoryNotFound (start : String) (depth : Nat)
  | unresolvableReference (reference : String)
  | git (cause : GitError)
  | suiteUnavailable (program : String)
  | workspace (cause : OsError)
deriving DecidableEq, Repr

namespace VerificationError

/-- A reference without a commit is reported as such, not as a failure of the repository. -/
def ofGit : GitError → VerificationError
  | .unresolvableReference reference => .unresolvableReference reference
  | other => .git other

def message : VerificationError → String
  | .repositoryNotFound start depth =>
    s!"No git repository found within {depth} directories of {start}"
  | .unresolvableReference reference => s!"Cannot resolve reference '{reference}' to a commit"
  | .git cause => s!"Git error: {cause.message}"
  | .suiteUnavailable program =>
    s!"Test runner '{program}' is not available. Make sure it's installed and in PATH."
  | .workspace cause => s!"Workspace error: {cause.message}"

/-- The error behind this one, shown under it. -/
def cause? : VerificationError → Option String
  | .workspace cause => some cause.message
  | _ => none

end VerificationError

/-- Why a command of the suite does not become a test run. -/
inductive CommandError where
  | spawnFailed (cause : OsError)
  | emptyCommand
  | executionFailed (reason : String)
deriving DecidableEq, Repr

namespace CommandError

def message : CommandError → String
  | .spawnFailed cause => s!"Failed to spawn test process: {cause.message}"
  | .emptyCommand => "Test command is empty"
  | .executionFailed reason => s!"Test execution failed: {reason}"

end CommandError

end CommitVerdict
