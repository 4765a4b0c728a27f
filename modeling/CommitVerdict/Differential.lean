import CommitVerdict.Git.WorkingCopy
import CommitVerdict.Report
import CommitVerdict.Suite
import CommitVerdict.VerificationError

namespace CommitVerdict

/-- What a verification carries along: the clone, what the suite remembers, the events so far, and the working
directories that the suite was given. -/
structure Progress (σ : Type) where
  copy : WorkingCopy
  memory : σ
  /-- The events so far, in order. -/
  events : List Event
  /-- The working directory at the start of each run of the suite, in order. -/
  seen : List Directory

namespace Progress

variable {σ : Type}

def start (copy : WorkingCopy) (memory : σ) : Progress σ := ⟨copy, memory, [], []⟩

def log (p : Progress σ) (event : Event) : Progress σ := { p with events := p.events ++ [event] }

/-- Applies an operation to the clone. -/
def change (p : Progress σ) (operation : WorkingCopy → WorkingCopy × Except GitError Unit) :
    Progress σ × Except VerificationError Unit :=
  let (copy, result) := operation p.copy
  ({ p with copy := copy }, result.mapError VerificationError.ofGit)

/-- Asks the clone something. -/
def ask {α : Type} (p : Progress σ) (question : WorkingCopy → Except GitError α) :
    Except VerificationError α :=
  (question p.copy).mapError VerificationError.ofGit

/-- Runs the suite once and records its output between two events. -/
def runPhase (p : Progress σ) (suite : Suite σ) (commit : CommitId) (phase : Phase) :
    Progress σ × TestRun :=
  let short := commit.abbreviated
  let result := suite.invoke p.memory p.copy.files
  let lines := result.output.map fun line => Event.outputLine short phase line.1 line.2
  let completed := Event.phaseCompleted short phase result.run.passed result.run.exitCode
    result.run.duration.toSeconds
  ({ copy := { p.copy with files := result.files }
     memory := result.memory
     events := p.events ++ .phaseStarted short phase :: lines ++ [completed]
     seen := p.seen ++ [p.copy.files] },
   result.run)

/-- Evaluates a commit in two phases. In the first one the clone stands on the commit. For the second one the
production code is made that of the first parent, while all other files stay as the first run left them. A
root commit is compared with no code at all. -/
def evaluate (p : Progress σ) (suite : Suite σ) (layout : ProjectLayout) (commit : CommitId) :
    Progress σ × Except VerificationError PhaseResults :=
  match p.change fun copy => copy.resetHard commit with
  | (p, .error e) => (p, .error e)
  | (p, .ok ()) =>
    let (p, postChange) := p.runPhase suite commit .postChange
    match p.ask fun copy => copy.parent commit with
    | .error e => (p, .error e)
    | .ok parent =>
      match p.change fun copy => copy.restorePaths parent [layout.codeDir] with
      | (p, .error e) => (p, .error e)
      | (p, .ok ()) =>
        let (p, preChange) := p.runPhase suite commit .preChange
        (p, .ok ⟨postChange, preChange⟩)

end Progress

end CommitVerdict
