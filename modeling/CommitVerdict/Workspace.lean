import CommitVerdict.Host
import CommitVerdict.VerificationError

namespace CommitVerdict

/-- A temporary directory that holds a clone while a verification lasts. -/
structure Workspace where
  /-- The temporary directory. -/
  root : String
  copy : WorkingCopy

namespace Workspace

/-- How the names of temporary directories begin. -/
def nameStart : String := "legitest-"

/-- The name of the clone in its temporary directory. -/
def cloneName : String := "repo"

def clonePath (root : String) : String := PathText.join root cloneName

/-- The path of the clone. -/
def path (w : Workspace) : String := clonePath w.root

/-- Clones a repository into a fresh temporary directory, unless something keeps the directory from
being made. -/
def create (host : Host) (repository root : String) (obstacle : Option OsError := none) :
    Except VerificationError Workspace :=
  match obstacle with
  | some cause => .error (.workspace cause)
  | none =>
    match host.cloneInto repository (clonePath root) with
    | .ok copy => .ok ⟨root, copy⟩
    | .error e => .error (.ofGit e)

/-- Removes the temporary directory, unless something keeps it from being removed. -/
def close (w : Workspace) (obstacle : Option OsError) : Except VerificationError String :=
  match obstacle with
  | some cause => .error (.workspace cause)
  | none => .ok w.root

end Workspace

end CommitVerdict
