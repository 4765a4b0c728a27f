import CommitVerdict.Differential
import CommitVerdict.Git.Revision

namespace CommitVerdict

/-- What a batch leaves behind. -/
structure BatchResult (σ : Type) where
  progress : Progress σ
  /-- The entries that were handed on, in order. -/
  delivered : List CommitReport
  outcome : Except VerificationError RunReport

namespace Progress

variable {σ : Type}

/-- Resolves references in order, up to the first one without a commit. -/
def resolveAll (p : Progress σ) :
    List String → Progress σ × Except VerificationError (List (String × CommitId))
  | [] => (p, .ok [])
  | reference :: rest =>
    match p.ask fun copy => copy.resolve reference with
    | .error e => (p, .error e)
    | .ok commit =>
      match (p.log (.referenceResolved reference commit.abbreviated)).resolveAll rest with
      | (p, .error e) => (p, .error e)
      | (p, .ok resolved) => (p, .ok ((reference, commit) :: resolved))

/-- Judges one commit. One that touches both areas is evaluated, every other one is settled at once. -/
def examine (p : Progress σ) (suite : Suite σ) (layout : ProjectLayout) (reference : String)
    (commit : CommitId) : Progress σ × Except VerificationError CommitReport :=
  match p.ask fun copy => copy.changedFiles commit with
  | .error e => (p, .error e)
  | .ok files =>
    let changes := ChangeSet.classify files layout
    let p := p.log (.commitClassified commit.abbreviated changes.filesChanged
      changes.touchesTests changes.touchesProductionCode)
    match changes.triage with
    | some verdict => (p, .ok (.triaged reference commit changes verdict))
    | none =>
      match p.evaluate suite layout commit with
      | (p, .error e) => (p, .error e)
      | (p, .ok results) => (p, .ok (.evaluated reference commit changes results))

/-- The event of an entry. -/
def verdictEvent (entry : CommitReport) : Event :=
  .verdictReached entry.commit.abbreviated entry.verdict.shortDescription
    (!entry.verdict.isFailure)

/-- Judges commits in order, up to the first error. The entries that are known are returned also
then. -/
def examineAll (p : Progress σ) (suite : Suite σ) (layout : ProjectLayout) :
    List (String × CommitId) →
      Progress σ × List CommitReport × Except VerificationError Unit
  | [] => (p, [], .ok ())
  | (reference, commit) :: rest =>
    match p.examine suite layout reference commit with
    | (p, .error e) => (p, [], .error e)
    | (p, .ok entry) =>
      let (p, entries, outcome) := (p.log (verdictEvent entry)).examineAll suite layout rest
      (p, entry :: entries, outcome)

/-- Verifies a batch; `elapsed` is the time that it took. All references are resolved before anything is run,
so a reference without a commit ends the batch while the clone is still untouched. -/
def verify (p : Progress σ) (suite : Suite σ) (layout : ProjectLayout) (elapsed : Duration)
    (references : List String) : BatchResult σ :=
  match p.resolveAll references with
  | (p, .error e) => ⟨p, [], .error e⟩
  | (p, .ok resolved) =>
    match p.examineAll suite layout resolved with
    | (p, entries, .error e) => ⟨p, entries, .error e⟩
    | (p, entries, .ok ()) =>
      let report : RunReport := ⟨entries⟩
      let completed := Event.runCompleted report.commits.length report.failures elapsed.toSeconds
      ⟨p.log completed, entries, .ok report⟩

end Progress

end CommitVerdict
