import CommitVerdict.Event.Basic
import CommitVerdict.Process.Stream
import CommitVerdict.TestRun
import CommitVerdict.VerificationError

namespace CommitVerdict

/-- What a process writes to its two streams. -/
structure Output where
  stdout : Transmission
  stderr : Transmission
deriving DecidableEq, Repr

def Output.through (o : Output) : OutputStream → Transmission
  | .stdout => o.stdout
  | .stderr => o.stderr

/-- What has been read from the two streams of a process. -/
structure Capture where
  stdout : StreamReader
  stderr : StreamReader
  /-- The lines that have been delivered, in order. -/
  lines : List (OutputStream × String)

namespace Capture

def start (o : Output) : Capture := ⟨.start o.stdout, .start o.stderr, []⟩

def reader (c : Capture) : OutputStream → StreamReader
  | .stdout => c.stdout
  | .stderr => c.stderr

def setReader (c : Capture) (stream : OutputStream) (r : StreamReader) : Capture :=
  match stream with
  | .stdout => { c with stdout := r }
  | .stderr => { c with stderr := r }

/-- Breaks off the attempts in progress. -/
def interrupt (c : Capture) : Capture :=
  { c with stdout := c.stdout.interrupt, stderr := c.stderr.interrupt }

/-- Delivers a line and adds it to the text of its stream. -/
def deliver (c : Capture) (stream : OutputStream) (r : StreamReader) (line : String) : Capture :=
  { c.setReader stream (r.push line) with lines := c.lines ++ [(stream, line)] }

/-- Asks the reader of a stream for a line, if it is open. As soon as one of the readers has got somewhere,
the attempts on both streams end, and the one that has got nowhere is broken off. -/
def poll (c : Capture) (stream : OutputStream) : Capture :=
  if (c.reader stream).isOpen then
    match (c.reader stream).nextLine with
    | (r, .waits) => c.setReader stream r
    | (r, .line text) => (c.deliver stream r text).interrupt
    | (r, .exhausted) => (c.setReader stream r.close).interrupt
    | (r, .fails) => (c.setReader stream r.close).interrupt
  else c

/-- Something that happens while the streams are read. -/
inductive Move where
  /-- The next chunk of a stream arrives, or its end. -/
  | arrive (stream : OutputStream)
  | poll (stream : OutputStream)
deriving DecidableEq, Repr

def move (c : Capture) : Move → Capture
  | .arrive stream => c.setReader stream (c.reader stream).arrive
  | .poll stream => c.poll stream

def run (c : Capture) (moves : List Move) : Capture := moves.foldl move c

/-- Whether the loop has come to its end. -/
def isFinished (c : Capture) : Bool := !c.stdout.isOpen && !c.stderr.isOpen

/-- The moves of a round in which everything gets its turn. -/
def round : List Move := [.arrive .stdout, .arrive .stderr, .poll .stdout, .poll .stderr]

/-- Goes on for at most so many rounds. -/
def goOn : Nat → Capture → Capture
  | 0, c => c
  | rounds + 1, c => if c.isFinished then c else goOn rounds (c.run round)

/-- A bound on the rounds until the loop comes to its end. -/
def remaining (c : Capture) : Nat := c.stdout.remaining + c.stderr.remaining

/-- Goes on to the end of the loop. -/
def finish (c : Capture) : Capture := goOn c.remaining c

/-- The lines of one stream that have been delivered. -/
def linesOf (c : Capture) (stream : OutputStream) : List String :=
  (c.lines.filter fun line => line.1 == stream).map (·.2)

end Capture

/-- What is written to the two streams, and how the reading of it begins. Behind these moves everything
gets its turn in rounds. -/
structure Reception where
  output : Output
  moves : List Capture.Move
deriving DecidableEq, Repr

/-- What the loop has read at its end. -/
def Reception.capture (t : Reception) : Capture := ((Capture.start t.output).run t.moves).finish

/-- How a process ended. -/
inductive ExitStatus where
  | code (value : UInt8)
  | signal (number : Nat)
deriving DecidableEq, Repr

namespace ExitStatus

/-- The exit code that is reported for it. -/
def exitCode : ExitStatus → Int
  | .code value => value.toNat
  | .signal _ => -1

end ExitStatus

/-- What becomes of an attempt to run a program. -/
inductive ProcessFate where
  | notStarted (cause : OsError)
  /-- It was started, but one of its streams cannot be read. Nobody waits for it. -/
  | uncaptured (stream : OutputStream)
  /-- It was started, but the system cannot tell how it ended. -/
  | lost (reception : Reception) (cause : OsError)
  | ended (reception : Reception) (status : ExitStatus)
deriving DecidableEq, Repr

namespace ProcessFate

/-- The lines that were delivered, in order. -/
def lines : ProcessFate → List (OutputStream × String)
  | .notStarted _ => []
  | .uncaptured _ => []
  | .lost reception _ => reception.capture.lines
  | .ended reception _ => reception.capture.lines

/-- The run of a process that came to its end, or why there is none. -/
def completed (fate : ProcessFate) (duration : Duration) : Except CommandError TestRun :=
  match fate with
  | .notStarted cause => .error (.spawnFailed cause)
  | .uncaptured stream => .error (.executionFailed s!"{stream.name} not captured")
  | .lost _ cause => .error (.spawnFailed cause)
  | .ended reception status =>
    .ok (.finished reception.capture.stdout.text reception.capture.stderr.text status.exitCode
      duration)

/-- The run of a suite that had this fate. What did not come to its end is reported as a failed run. -/
def testRun (fate : ProcessFate) (duration : Duration) : TestRun :=
  match fate.completed duration with
  | .ok run => run
  | .error e => .notStarted e.message duration

end ProcessFate

end CommitVerdict
