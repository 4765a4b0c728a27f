import CommitVerdict.Json.Decode

namespace CommitVerdict

/-- Which production code a run of the suite was made with. -/
inductive Phase where
  /-- Tests and production code of the commit. -/
  | postChange
  /-- Tests of the commit, production code of its parent. -/
  | preChange
deriving DecidableEq, Repr

namespace Phase

def names : List (String × Phase) := [("post_change", .postChange), ("pre_change", .preChange)]

def name : Phase → String
  | .postChange => "post_change"
  | .preChange => "pre_change"

def label : Phase → String
  | .postChange => "post-change"
  | .preChange => "pre-change"

def banner : Phase → String
  | .postChange => "POST-CHANGE"
  | .preChange => "PRE-CHANGE"

def letter : Phase → String
  | .postChange => "A"
  | .preChange => "B"

/-- Whether the suite of a legitimate commit passes in this phase. -/
def expectsPass : Phase → Bool
  | .postChange => true
  | .preChange => false

def toJson (p : Phase) : Json := .string p.name

def decode : Json → Decoded Phase := Json.decodeName names

end Phase

/-- The two output streams of a suite. -/
inductive OutputStream where
  | stdout
  | stderr
deriving DecidableEq, Repr

namespace OutputStream

def names : List (String × OutputStream) := [("stdout", .stdout), ("stderr", .stderr)]

def name : OutputStream → String
  | .stdout => "stdout"
  | .stderr => "stderr"

def toJson (s : OutputStream) : Json := .string s.name

def decode : Json → Decoded OutputStream := Json.decodeName names

end OutputStream

/-- An event records one step of a run. -/
inductive Event where
  | runStarted (repository : String) (references : List String) (testCommand : String)
  | workspaceCreated (path : String)
  | referenceResolved (reference commit : String)
  | commitClassified (commit : String) (filesChanged : Nat) (touchesTests touchesCode : Bool)
  | phaseStarted (commit : String) (phase : Phase)
  /-- A line of the suite's output, as it arrives. -/
  | outputLine (commit : String) (phase : Phase) (stream : OutputStream) (line : String)
  | phaseCompleted (commit : String) (phase : Phase) (passed : Bool) (exitCode : Int)
      (seconds : Binary64)
  | verdictReached (commit verdict : String) (legitimate : Bool)
  | runCompleted (commits failures : Nat) (seconds : Binary64)
  | workspaceRemoved (path : String)
  | errorEncountered (error : String)
deriving DecidableEq, Repr

namespace Event

def tag : Event → String
  | .runStarted .. => "run_started"
  | .workspaceCreated .. => "workspace_created"
  | .referenceResolved .. => "reference_resolved"
  | .commitClassified .. => "commit_classified"
  | .phaseStarted .. => "phase_started"
  | .outputLine .. => "test_output_line"
  | .phaseCompleted .. => "phase_completed"
  | .verdictReached .. => "verdict_reached"
  | .runCompleted .. => "run_completed"
  | .workspaceRemoved .. => "workspace_removed"
  | .errorEncountered .. => "error_encountered"

def isOutputLine : Event → Bool
  | .outputLine .. => true
  | _ => false

/-- The fields of an event besides its tag. -/
def fields : Event → List (String × Json)
  | .runStarted repository references testCommand =>
    [("repository", .string repository), ("references", .ofStrings references),
     ("test_command", .string testCommand)]
  | .workspaceCreated path => [("path", .string path)]
  | .referenceResolved reference commit =>
    [("reference", .string reference), ("commit", .string commit)]
  | .commitClassified commit filesChanged touchesTests touchesCode =>
    [("commit", .string commit), ("files_changed", .ofNat filesChanged),
     ("touches_tests", .bool touchesTests), ("touches_code", .bool touchesCode)]
  | .phaseStarted commit phase => [("commit", .string commit), ("phase", phase.toJson)]
  | .outputLine commit phase stream line =>
    [("commit", .string commit), ("phase", phase.toJson), ("stream", stream.toJson),
     ("line", .string line)]
  | .phaseCompleted commit phase passed exitCode seconds =>
    [("commit", .string commit), ("phase", phase.toJson), ("passed", .bool passed),
     ("exit_code", .ofInt exitCode), ("duration_secs", .number seconds.literal)]
  | .verdictReached commit verdict legitimate =>
    [("commit", .string commit), ("verdict", .string verdict), ("legitimate", .bool legitimate)]
  | .runCompleted commits failures seconds =>
    [("commits", .ofNat commits), ("failures", .ofNat failures),
     ("duration_secs", .number seconds.literal)]
  | .workspaceRemoved path => [("path", .string path)]
  | .errorEncountered error => [("error", .string error)]

def toJson (e : Event) : Json := .object (("event", .string e.tag) :: e.fields)

/-- The shapes of the kinds of event in documents. -/
def variantRules : List Json.VariantRule :=
  let text (name : String) := Json.rule name Json.decodeString
  let flag (name : String) := Json.rule name Json.decodeBool
  let count (name : String) := Json.rule name Json.decodeCount
  let phase := Json.rule "phase" Phase.decode
  let seconds := Json.rule "duration_secs" Json.decodeReal
  let path (name : String) := Json.rule name Json.decodePath
  [⟨"run_started", "RunStarted",
     [path "repository", Json.rule "references" (Json.decodeList Json.decodeString),
      text "test_command"]⟩,
   ⟨"workspace_created", "WorkspaceCreated", [path "path"]⟩,
   ⟨"reference_resolved", "ReferenceResolved", [text "reference", text "commit"]⟩,
   ⟨"commit_classified", "CommitClassified",
     [text "commit", count "files_changed", flag "touches_tests", flag "touches_code"]⟩,
   ⟨"phase_started", "PhaseStarted", [text "commit", phase]⟩,
   ⟨"test_output_line", "TestOutputLine",
     [text "commit", phase, Json.rule "stream" OutputStream.decode, text "line"]⟩,
   ⟨"phase_completed", "PhaseCompleted",
     [text "commit", phase, flag "passed", Json.rule "exit_code" Json.decodeExitCode, seconds]⟩,
   ⟨"verdict_reached", "VerdictReached", [text "commit", text "verdict", flag "legitimate"]⟩,
   ⟨"run_completed", "RunCompleted", [count "commits", count "failures", seconds]⟩,
   ⟨"workspace_removed", "WorkspaceRemoved", [path "path"]⟩,
   ⟨"error_encountered", "ErrorEncountered", [text "error"]⟩]

def decode (j : Json) : Decoded Event := do
  let (tag, fields) ← Json.taggedFields "LogEvent" "event" variantRules j
  let text (name : String) := Json.require fields name Json.decodeString
  let flag (name : String) := Json.require fields name Json.decodeBool
  let count (name : String) := Json.require fields name Json.decodeCount
  let path (name : String) := Json.require fields name Json.decodePath
  let phase := Json.require fields "phase" Phase.decode
  let seconds := Json.require fields "duration_secs" Json.decodeReal
  match tag with
  | "run_started" =>
    return .runStarted (← path "repository")
      (← Json.require fields "references" (Json.decodeList Json.decodeString))
      (← text "test_command")
  | "workspace_created" => return .workspaceCreated (← path "path")
  | "reference_resolved" => return .referenceResolved (← text "reference") (← text "commit")
  | "commit_classified" =>
    return .commitClassified (← text "commit") (← count "files_changed") (← flag "touches_tests")
      (← flag "touches_code")
  | "phase_started" => return .phaseStarted (← text "commit") (← phase)
  | "test_output_line" =>
    return .outputLine (← text "commit") (← phase)
      (← Json.require fields "stream" OutputStream.decode) (← text "line")
  | "phase_completed" =>
    return .phaseCompleted (← text "commit") (← phase) (← flag "passed")
      (← Json.require fields "exit_code" Json.decodeExitCode) (← seconds)
  | "verdict_reached" =>
    return .verdictReached (← text "commit") (← text "verdict") (← flag "legitimate")
  | "run_completed" => return .runCompleted (← count "commits") (← count "failures") (← seconds)
  | "workspace_removed" => return .workspaceRemoved (← path "path")
  | _ => return .errorEncountered (← text "error")

end Event

end CommitVerdict
