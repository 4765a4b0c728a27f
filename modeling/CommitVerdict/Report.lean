import CommitVerdict.ChangeSet
import CommitVerdict.Git.CommitId
import CommitVerdict.Json.Printer

namespace CommitVerdict

namespace CommitId

def toJson (id : CommitId) : Json := .string id.hex

def decode (j : Json) : Decoded CommitId := do
  let text ← Json.decodeString j
  (parse text).mapError fun e => .refused e.message

end CommitId

/-- Both runs of the suite on one commit. -/
structure PhaseResults where
  /-- The run with the production code of the commit. -/
  postChange : TestRun
  /-- The run with the production code of its parent. -/
  preChange : TestRun
deriving DecidableEq, Repr

namespace PhaseResults

def couldNotPass (r : PhaseResults) : Bool := !r.postChange.passed

def testsDoNotBreakAnything (r : PhaseResults) : Bool := r.preChange.passed

def verdict (r : PhaseResults) : Verdict :=
  .ofPhases r.postChange.outcome r.preChange.outcome

end PhaseResults

/-- What a report keeps of one run. -/
structure PhaseRecord where
  outcome : TestOutcome
  exitCode : Int
  seconds : Binary64
deriving DecidableEq, Repr

namespace PhaseRecord

def ofRun (r : TestRun) : PhaseRecord := ⟨r.outcome, r.exitCode, r.duration.toSeconds⟩

def toJson (r : PhaseRecord) : Json :=
  .object
    [("outcome", r.outcome.toJson), ("exit_code", .ofInt r.exitCode),
     ("duration_secs", .number r.seconds.literal)]

end PhaseRecord

structure PhaseSummary where
  postChange : PhaseRecord
  preChange : PhaseRecord
deriving DecidableEq, Repr

namespace PhaseSummary

def ofResults (r : PhaseResults) : PhaseSummary := ⟨.ofRun r.postChange, .ofRun r.preChange⟩

def toJson (s : PhaseSummary) : Json :=
  .object [("post_change", s.postChange.toJson), ("pre_change", s.preChange.toJson)]

end PhaseSummary

/-- The verdict on one commit and what it rests on. -/
structure CommitReport where
  /-- The reference as it was given. -/
  reference : String
  commit : CommitId
  verdict : Verdict
  changeSet : ChangeSet
  /-- The two runs, if the commit was run at all. -/
  phases : Option PhaseSummary
deriving DecidableEq, Repr

namespace CommitReport

/-- An entry for a commit that was settled without a run. -/
def triaged (reference : String) (commit : CommitId) (changeSet : ChangeSet)
    (verdict : Verdict) : CommitReport :=
  ⟨reference, commit, verdict, changeSet, none⟩

/-- An entry for a commit that was run twice. -/
def evaluated (reference : String) (commit : CommitId) (changeSet : ChangeSet)
    (results : PhaseResults) : CommitReport :=
  ⟨reference, commit, results.verdict, changeSet, some (.ofResults results)⟩

/-- One line for each finding: the abbreviated id, a space and the message. -/
def lines (c : CommitReport) : List String :=
  c.verdict.messages.map fun message => s!"{c.commit.abbreviated} {message}"

def toJson (c : CommitReport) : Json :=
  .object
    ([("reference", .string c.reference), ("commit", c.commit.toJson),
      ("verdict", c.verdict.toJson), ("change_set", c.changeSet.toJson)]
      ++ match c.phases with
        | some phases => [("phases", phases.toJson)]
        | none => [])

end CommitReport

/-- The report of a batch: its entries in the order in which they were added, duplicates kept. -/
structure RunReport where
  commits : List CommitReport
deriving DecidableEq, Repr

namespace RunReport

def empty : RunReport := ⟨[]⟩

def push (r : RunReport) (entry : CommitReport) : RunReport := ⟨r.commits ++ [entry]⟩

def failures (r : RunReport) : Nat := r.commits.countP (·.verdict.isFailure)

def isSuccess (r : RunReport) : Bool := r.failures == 0

/-- Zero when no entry fails, one otherwise. -/
def exitCode (r : RunReport) : Nat := if r.isSuccess then 0 else 1

/-- The lines of all entries, in order. -/
def lines (r : RunReport) : List String := r.commits.flatMap (·.lines)

def toJson (r : RunReport) : Json :=
  .object
    [("commits", .array (r.commits.map (·.toJson))), ("failures", .ofNat r.failures),
     ("exit_code", .ofNat r.exitCode)]

/-- The document of the report, indented. -/
def document (r : RunReport) : String := r.toJson.pretty

end RunReport

end CommitVerdict
