import CommitVerdict.Json.Decode

namespace CommitVerdict

inductive TestOutcome where
  | passed
  | failed
deriving DecidableEq, Repr

namespace TestOutcome

def names : List (String × TestOutcome) := [("passed", .passed), ("failed", .failed)]

def name : TestOutcome → String
  | .passed => "passed"
  | .failed => "failed"

def ofExitCode (code : Int) : TestOutcome := if code = 0 then .passed else .failed

def isPass : TestOutcome → Bool
  | .passed => true
  | .failed => false

def toJson (o : TestOutcome) : Json := .string o.name

def decode : Json → Decoded TestOutcome := Json.decodeName names

end TestOutcome

/-- The result of running the suite once. -/
structure TestRun where
  outcome : TestOutcome
  stdout : String
  stderr : String
  /-- The exit code of the suite; -1 when a signal ended it or it never ran. -/
  exitCode : Int
  duration : Duration
deriving DecidableEq, Repr

namespace TestRun

/-- The run of a suite that ended with an exit code. -/
def finished (stdout stderr : String) (exitCode : Int) (duration : Duration) : TestRun :=
  ⟨.ofExitCode exitCode, stdout, stderr, exitCode, duration⟩

/-- A suite that could not be started is a failed run whose error output holds the reason; there is no other
channel for such errors. -/
def notStarted (reason : String) (duration : Duration) : TestRun :=
  ⟨.failed, "", reason, -1, duration⟩

def passed (r : TestRun) : Bool := r.outcome.isPass

def toJson (r : TestRun) : Json :=
  .object
    [("outcome", r.outcome.toJson), ("stdout", .string r.stdout), ("stderr", .string r.stderr),
     ("exit_code", .ofInt r.exitCode), ("duration", .number r.duration.toSeconds.literal)]

def decode (j : Json) : Decoded TestRun := do
  let fields ← Json.recordFields "TestRun"
    [Json.rule "outcome" TestOutcome.decode, Json.rule "stdout" Json.decodeString,
     Json.rule "stderr" Json.decodeString, Json.rule "exit_code" Json.decodeExitCode,
     Json.rule "duration" Json.decodeDuration] j
  return {
    outcome := ← Json.require fields "outcome" TestOutcome.decode
    stdout := ← Json.require fields "stdout" Json.decodeString
    stderr := ← Json.require fields "stderr" Json.decodeString
    exitCode := ← Json.require fields "exit_code" Json.decodeExitCode
    duration := ← Json.require fields "duration" Json.decodeDuration }

end TestRun

end CommitVerdict
