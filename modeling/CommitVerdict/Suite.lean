import CommitVerdict.Event.Basic
import CommitVerdict.Leaf
import CommitVerdict.TestRun
import CommitVerdict.Text.Lines

namespace CommitVerdict

/-- What one run of a suite leaves behind. -/
structure Invocation (σ : Type) where
  run : TestRun
  /-- The lines of output in the order in which they arrived. -/
  output : List (OutputStream × String)
  /-- The working directory after the run. -/
  files : Directory
  /-- What the suite remembers. -/
  memory : σ

/-- A suite is run against a working directory. It may remember something from one run to the next and may
change any file, the clone's own data included. -/
structure Suite (σ : Type) where
  /-- How the suite is named to users. -/
  name : String
  /-- The program that every run starts. -/
  program : String
  /-- Whether that program can be started at all. -/
  available : Bool
  invoke : σ → Directory → Invocation σ

namespace Suite

/-- The lines of the output texts of a run, those of the standard output first. -/
def outputLines (r : TestRun) : List (OutputStream × String) :=
  (textLines r.stdout).map (OutputStream.stdout, ·)
    ++ (textLines r.stderr).map (OutputStream.stderr, ·)

/-- The error of a suite that is not available. -/
def checkAvailable {σ : Type} (s : Suite σ) : Except String Unit :=
  if s.available then .ok () else .error s.program

end Suite

end CommitVerdict
