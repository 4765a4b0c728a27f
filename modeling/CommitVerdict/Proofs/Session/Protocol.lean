import CommitVerdict.Proofs.Batch.Protocol
import CommitVerdict.Proofs.Session.Startup

namespace CommitVerdict

namespace Session

variable {σ : Type} {o : Options} {s : Surroundings} {startup : Startup} {log : Option Path}
  {files : FileSystem}

/-- The events for the end of a workspace: it is removed, or told to be left behind. -/
inductive CleanupEvent (root : String) : Event → Prop
  | removed : CleanupEvent root (.workspaceRemoved root)
  | failed (cause : OsError) :
      CleanupEvent root
        (.errorEncountered s!"Failed to remove workspace: Workspace error: {cause.message}")

/-- The events of a session that passes the checks at its start, with the entries that its batch hands on
and how it ends. -/
inductive SessionEvents (s : Surroundings) (root : String) (layout : ProjectLayout) (suite : Suite σ)
    (memory : σ) (references : List String) :
    List CommitReport → Except VerificationError RunReport → List Event → Prop
  | uncloned {e} :
      createWorkspace s root = .error e →
      SessionEvents s root layout suite memory references [] (.error e)
        [.runStarted root references suite.name]
  | succeeded {workspace entries report batch cleanup} :
      createWorkspace s root = .ok workspace →
      BatchEvents suite workspace.copy layout memory s.batchTime references entries (.ok report)
        batch →
      CleanupEvent workspace.root cleanup →
      SessionEvents s root layout suite memory references entries (.ok report)
        (.runStarted root references suite.name :: .workspaceCreated workspace.path :: batch ++ [cleanup])
  | failed {workspace entries e batch cleanup} :
      createWorkspace s root = .ok workspace →
      BatchEvents suite workspace.copy layout memory s.batchTime references entries (.error e)
        batch →
      CleanupEvent workspace.root cleanup →
      SessionEvents s root layout suite memory references entries (.error e)
        (.runStarted root references suite.name :: .workspaceCreated workspace.path :: batch ++
          [cleanup, .errorEncountered e.message])

theorem cleanupEvent_cleanup (s : Surroundings) (workspace : Workspace) :
    CleanupEvent workspace.root (cleanupEvent s workspace) := by
  unfold cleanupEvent Workspace.close
  cases s.removalObstacle with
  | none => exact .removed
  | some cause => exact .failed cause

/-- Whatever the suite is, the events of its session follow the grammar. -/
theorem sessionEvents_of_conduct (s : Surroundings) (root : String) (layout : ProjectLayout)
    (suite : Suite σ) (memory : σ) (references : List String) :
    let conducted := (conduct s root layout suite memory references).1
    SessionEvents s root layout suite memory references conducted.delivered conducted.outcome
      conducted.events := by
  intro conducted
  cases hcreate : createWorkspace s root with
  | error e =>
    have hconducted : conducted = ⟨[.runStarted root references suite.name], [], .error e⟩ := by
      simp only [conducted, conduct, hcreate]
    rw [hconducted]
    exact .uncloned hcreate
  | ok workspace =>
    obtain ⟨batch, hbatch, hevents⟩ := Progress.batchEvents_of_verify
      (Progress.start workspace.copy memory) suite layout s.batchTime references
    have hcleanup := cleanupEvent_cleanup s workspace
    have hconducted : conducted.events =
        .runStarted root references suite.name :: .workspaceCreated workspace.path :: batch ++
          cleanupEvent s workspace :: endingEvents conducted.outcome := by
      simp only [conducted, conduct, hcreate, hevents]
      rfl
    have hresult : conducted.delivered = ((Progress.start workspace.copy memory).verify suite layout
        s.batchTime references).delivered ∧ conducted.outcome = ((Progress.start workspace.copy memory).verify
          suite layout s.batchTime references).outcome := by
      simp only [conducted, conduct, hcreate, and_self]
    rw [← hresult.1, ← hresult.2] at hbatch
    rw [hconducted]
    cases hend : conducted.outcome with
    | ok report => exact .succeeded hcreate (hend ▸ hbatch) hcleanup
    | error e => exact .failed hcreate (hend ▸ hbatch) hcleanup

/-- A session that passes the checks at its start, and is no dry run, logs events that follow the grammar,
for the entries and the outcome that its batch has. This is so whatever its command does in its runs. -/
theorem run_events_follow_grammar (b : Behaviour σ) (hpasses : Passes o s startup log files) :
    let conducted := (b.work o (s.withFiles files) startup).1
    SessionEvents (s.withFiles files) startup.root.toAbsolute startup.layout
      (b.suite startup (s.withFiles files)) (b.initial (s.withFiles files)) o.references
      conducted.delivered conducted.outcome (runAs b o s).events := by
  intro conducted
  rw [runAs, hpasses.runWith_eq]
  exact sessionEvents_of_conduct (s.withFiles files) startup.root.toAbsolute startup.layout
    (b.suite startup (s.withFiles files)) (b.initial (s.withFiles files)) o.references

theorem run_events_follow_grammar_sample :
    let conducted := (work Sample.options Sample.surroundings Sample.startup).1
    Passes Sample.options Sample.surroundings Sample.startup none Sample.surroundings.host.files ∧
      SessionEvents Sample.surroundings Sample.startup.root.toAbsolute .default
        (suiteOf Sample.startup Sample.surroundings) Sample.surroundings.host.files ["main", "main~"]
        conducted.delivered conducted.outcome (run Sample.options Sample.surroundings).events :=
  ⟨Sample.passes, run_events_follow_grammar .machine Sample.passes⟩

end Session

end CommitVerdict
