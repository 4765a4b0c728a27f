import CommitVerdict.Proofs.Batch.Results
import CommitVerdict.Proofs.Json.Documents
import CommitVerdict.Proofs.Session.Protocol
import CommitVerdict.Proofs.Session.Summary

namespace CommitVerdict

/-- The line that shows one message of an entry. -/
def CommitReport.line (entry : CommitReport) (message : String) : String :=
  String.ofList (entry.commit.hex.toList.take 10) ++ " " ++ message

theorem CommitReport.lines_eq (entry : CommitReport) : entry.lines = entry.verdict.messages.map entry.line := by
  have habbreviated : String.ofList (entry.commit.hex.toList.take 10) = entry.commit.abbreviated := by
    rw [CommitId.hex, String.toList_ofList, CommitId.abbreviated, CommitId.abbreviatedWidth]
  unfold lines line
  rw [habbreviated]
  apply List.map_congr_left
  intro message _
  simp [toString]

/-- Since only results complain, the other events need not be looked at. -/
theorem Event.countP_isComplaint (events : List Event) :
    events.countP isComplaint = (events.filter isResult).countP isComplaint := by
  rw [List.countP_filter]
  apply List.countP_congr
  intro event _
  have hresult : event.isComplaint = true → event.isResult = true := isResult_of_isComplaint
  simpa using hresult

theorem Event.countP_isComplaint_verdicts (entries : List CommitReport) :
    (entries.map Progress.verdictEvent).countP isComplaint = complaints entries := by
  rw [complaints_eq_failures, List.countP_map, RunReport.failures]
  apply List.countP_congr
  intro entry _
  simp [Progress.verdictEvent, isComplaint]

theorem RunReport.exitCode_eq_zero_iff_peaceful {report : RunReport} : report.exitCode = 0 ↔
    ∀ entry ∈ report.commits, ∀ message ∈ entry.verdict.messages, Verdict.IsPeaceful message := by
  have hpeaceful (entry : CommitReport) : entry.verdict.isFailure = false ↔
      ∀ message ∈ entry.verdict.messages, Verdict.IsPeaceful message := by
    rw [Bool.eq_false_iff, ne_eq, Verdict.isFailure_eq_true_iff]
    simp
  have hexit : report.exitCode = 0 ↔ report.failures = 0 := by
    simp [exitCode, isSuccess]
  rw [hexit, failures, List.countP_eq_zero]
  simp [hpeaceful]

namespace Session

section Grammar

variable {σ : Type} {s : Surroundings} {root : String} {layout : ProjectLayout} {suite : Suite σ}
  {memory : σ} {references : List String} {entries : List CommitReport} {events : List Event}
  {outcome : Except VerificationError RunReport} {workspace : Workspace}

/-- The results that a session tells are those of its batch. -/
theorem SessionEvents.batch
    (hsession : SessionEvents s root layout suite memory references entries outcome events)
    (hcreate : createWorkspace s root = .ok workspace) :
    ∃ batch, BatchEvents suite workspace.copy layout memory s.batchTime references entries outcome batch ∧
      events.filter Event.isResult = batch.filter Event.isResult := by
  have hsame {other : Workspace} (hother : createWorkspace s root = .ok other) : other = workspace :=
    Except.ok.inj (hother.symm.trans hcreate)
  cases hsession with
  | uncloned h => rw [hcreate] at h; cases h
  | @succeeded other entries report batch cleanup hother hbatch hend =>
    obtain rfl := hsame hother
    refine ⟨batch, hbatch, ?_⟩
    cases hend <;> simp [Event.isResult]
  | @failed other entries e batch cleanup hother hbatch hend =>
    obtain rfl := hsame hother
    refine ⟨batch, hbatch, ?_⟩
    cases hend <;> simp [Event.isResult]

end Grammar

/-- What a session shows of a batch that succeeds. -/
structure ShowsReport (o : Options) (s : Surroundings) (report : RunReport) (t : Transcript) : Prop where
  references : report.commits.map (·.reference) = o.references
  stdout : t.stdout =
    if o.jsonOutput then report.toJson.pretty ++ "\n" else String.join (report.lines.map (· ++ "\n"))
  /-- The document is all that there is to read. -/
  reading : o.jsonOutput = true → Json.parse? t.stdout = some report.toJson
  document : report.toJson = .object
    [("commits", .array (report.commits.map (·.toJson))),
     ("failures", .ofNat (complaints report.commits)), ("exit_code", .ofNat t.exitCode)]
  results : t.events.filter Event.isResult = report.commits.map Progress.verdictEvent ++
    [.runCompleted o.references.length (complaints report.commits) s.batchTime.toSeconds]
  complaints : t.events.countP Event.isComplaint = complaints report.commits
  /-- The title of the summary goes by the exit code, and its counts by the messages. -/
  summary : o.jsonOutput = false →
    let logger := logger o s.host
    let word := if t.exitCode = 0 then "=== LEGITIMATE ===" else "=== ILLEGITIMATE ==="
    let style := if t.exitCode = 0 then Style.brightGreen else Style.brightRed
    let title := style.bold.paint logger.colored word
    word.toList <:+: title.toList ∧ ∃ counts, Tallies counts report.commits ∧
      let lines := ["", title, s!"Commits: {o.references.length}"]
        ++ counts.map (fun entry => s!"  {entry.1}: {entry.2}")
        ++ [s!"Duration: {s.totalTime.toSeconds.oneDecimal}s"]
      let texts := logger.consoleTexts (stamped s.clock t.events) ++ [String.join (lines.map (· ++ "\n"))]
      t.stderr = String.join (texts.zipIdx.map fun (text, number) =>
        s.diagnostics (diagnosticFilters o s.host) o.logFormat number ++ text)

/-- What a session shows of a batch that fails behind some entries. -/
structure ShowsError (o : Options) (entries : List CommitReport) (t : Transcript) : Prop where
  references : ∃ k < o.references.length, entries.map (·.reference) = o.references.take k
  stdout : t.stdout =
    if o.jsonOutput then "" else String.join ((entries.flatMap (·.lines)).map (· ++ "\n"))
  results : t.events.filter Event.isResult = entries.map Progress.verdictEvent

/-- What a session shows of a batch on a clone, by the entries it hands on and how it ends. -/
structure Shows (o : Options) (s : Surroundings) (copy : WorkingCopy) (entries : List CommitReport)
    (outcome : Except VerificationError RunReport) (t : Transcript) : Prop where
  commits : ∀ entry ∈ entries, copy.resolve entry.reference = .ok entry.commit
  stdout : o.jsonOutput = false → t.stdout =
    String.join ((entries.flatMap fun entry => entry.verdict.messages.map entry.line).map (· ++ "\n"))
  exitCode_eq_zero_iff : t.exitCode = 0 ↔ (∃ report, outcome = .ok report) ∧
    ∀ entry ∈ entries, ∀ message ∈ entry.verdict.messages, Verdict.IsPeaceful message
  exitCode : t.exitCode = 0 ∨ t.exitCode = 1
  report : ∀ report, outcome = .ok report → report.commits = entries ∧ ShowsReport o s report t
  error : ∀ e, outcome = .error e → ShowsError o entries t

section Transcript

variable {σ : Type} {o : Options} {s : Surroundings} {startup : Startup} {log : Option Path}
  {files : FileSystem} {layout : ProjectLayout} {suite : Suite σ} {memory : σ} {conducted : Conducted}
  {workspace : Workspace} {batch : List Event} {report : RunReport} {e : VerificationError}

theorem showsReport_of_batch (hend : conducted.outcome = .ok report)
    (hbatch : BatchEvents suite workspace.copy layout memory s.batchTime o.references conducted.delivered
      (.ok report) batch)
    (hfilter : conducted.events.filter Event.isResult = batch.filter Event.isResult) :
    ShowsReport o s report (transcript o s log files conducted) := by
  obtain ⟨hentries, hreferences⟩ := hbatch.references_of_ok
  have hlength : report.commits.length = o.references.length := by
    rw [← hreferences, hentries, List.length_map]
  have hfailures : report.failures = complaints report.commits :=
    (complaints_eq_failures report.commits).symm
  have hexit : (transcript o s log files conducted).exitCode = report.exitCode := by
    simp only [transcript, Session.exitCode, hend]
  have hresults : conducted.events.filter Event.isResult = report.commits.map Progress.verdictEvent ++
      [.runCompleted o.references.length (complaints report.commits) s.batchTime.toSeconds] := by
    rw [hfilter, hbatch.filter_events_of_ok, ← hentries, hfailures]
  constructor
  case references => rw [hentries, hreferences]
  case stdout =>
    simp only [transcript, output, hend, RunReport.document, RunReport.lines, hentries, Logger.ofLines]
  case reading =>
    intro hjson
    have hline : Json.Blank "\n".toList := by simp [Json.Blank, Json.isSpace]
    simp only [transcript, output, hend, hjson, if_true, RunReport.document]
    exact Json.parse?_pretty_append _ hline
  case document => rw [hexit, RunReport.toJson, hfailures]
  case results => exact hresults
  case complaints =>
    show conducted.events.countP Event.isComplaint = _
    rw [Event.countP_isComplaint, hresults, List.countP_append, Event.countP_isComplaint_verdicts]
    rfl
  case summary =>
    intro htext logger word style title
    have htitle : title = if report.isSuccess
        then Style.brightGreen.bold.paint logger.colored "=== LEGITIMATE ==="
        else Style.brightRed.bold.paint logger.colored "=== ILLEGITIMATE ===" := by
      simp only [title, word, style, hexit, RunReport.exitCode]
      cases report.isSuccess <;> rfl
    have hword : '\x1b' ∉ word.toList := by
      simp only [word]
      split <;> decide
    refine ⟨Style.isInfix_paint _ _ hword, messageCounts report, tallies_messageCounts report, ?_⟩
    rw [htitle, ← hlength]
    simp only [transcript, closing, hend, htext, Bool.false_eq_true, if_false, Session.summary]
    rfl

theorem showsError_of_batch (hend : conducted.outcome = .error e)
    (hbatch : BatchEvents suite workspace.copy layout memory s.batchTime o.references conducted.delivered
      (.error e) batch)
    (hfilter : conducted.events.filter Event.isResult = batch.filter Event.isResult) :
    ShowsError o conducted.delivered (transcript o s log files conducted) where
  references := hbatch.references_of_error
  stdout := by simp only [transcript, output, hend, Logger.ofLines]
  results := hfilter.trans hbatch.filter_events_of_error

/-- The transcript of a batch shows the batch. -/
theorem shows_transcript
    (hbatch : BatchEvents suite workspace.copy layout memory s.batchTime o.references conducted.delivered
      conducted.outcome batch)
    (hfilter : conducted.events.filter Event.isResult = batch.filter Event.isResult) :
    Shows o s workspace.copy conducted.delivered conducted.outcome
      (transcript o s log files conducted) := by
  constructor
  case commits =>
    intro entry hmem
    exact hbatch.resolve_of_mem hmem
  case stdout =>
    intro htext
    simp only [transcript, output, htext, Bool.false_eq_true, if_false, CommitReport.lines_eq, Logger.ofLines]
  case exitCode_eq_zero_iff =>
    cases hend : conducted.outcome with
    | ok report =>
      rw [hend] at hbatch
      have hexit : (transcript o s log files conducted).exitCode = report.exitCode := by
        simp only [transcript, Session.exitCode, hend]
      rw [hexit, RunReport.exitCode_eq_zero_iff_peaceful, hbatch.references_of_ok.1]
      simp
    | error e => simp [transcript, Session.exitCode, hend]
  case exitCode =>
    simp only [transcript, Session.exitCode]
    cases conducted.outcome with
    | ok report =>
      simp only [RunReport.exitCode]
      cases report.isSuccess <;> simp
    | error e => exact .inr rfl
  case report =>
    intro report hend
    rw [hend] at hbatch
    exact ⟨hbatch.references_of_ok.1, showsReport_of_batch hend hbatch hfilter⟩
  case error =>
    intro e hend
    rw [hend] at hbatch
    exact showsError_of_batch hend hbatch hfilter

/-- A session with a workspace shows one batch in all that it shows, whatever its command does in its runs. -/
theorem run_outputs_agree {workspace : Workspace} (b : Behaviour σ)
    (hpasses : Passes o s startup log files)
    (hworkspace : createWorkspace (s.withFiles files) startup.root.toAbsolute = .ok workspace) :
    let conducted := (b.work o (s.withFiles files) startup).1
    Shows o (s.withFiles files) workspace.copy conducted.delivered conducted.outcome (runAs b o s) := by
  intro conducted
  have hevents := sessionEvents_of_conduct (s.withFiles files) startup.root.toAbsolute startup.layout
    (b.suite startup (s.withFiles files)) (b.initial (s.withFiles files)) o.references
  obtain ⟨batch, hbatch, hfilter⟩ := hevents.batch hworkspace
  rw [runAs, hpasses.runWith_eq]
  exact shows_transcript hbatch hfilter

end Transcript

end Session

/-- The directory of the workspace is free, and the repository is found. -/
theorem Sample.createWorkspace_eq :
    Session.createWorkspace Sample.surroundings Sample.startup.root.toAbsolute =
      .ok ⟨"/t", .clone Sample.repository⟩ := by
  have habsolute : Sample.startup.root.toAbsolute = "/r" := by decide
  have hpath : Workspace.clonePath "/t" = "/t/repo" := by
    rw [Workspace.clonePath, PathText.join, endsWith_eq_false (by decide)]
    decide
  have hfree : Sample.surroundings.host.files.existsAt [] "/t/repo" = false := by
    have hspells : FileSystem.Spells "/t/repo" ["t", "repo"] := by decide
    have hstep : FileSystem.IsStep Sample.surroundings.host.files (FileSystem.origin [] "/t/repo") "t" := by
      decide
    exact FileSystem.existsAt_eq_false
      (hstep.canonicalize_eq_error hspells (List.cons_ne_nil _ _) (by decide))
  have hcanonical := hasRoot.canonicalize_eq []
  have hroot : Sample.surroundings.host.files.isDirectoryAt ["r"] = true := by decide
  have hrepository : Sample.surroundings.host.repositoryAt? ["r"] = some Sample.repository := by
    simp [Host.repositoryAt?, Sample.surroundings]
  have hopen : Sample.surroundings.host.openRepository "/r" = .ok Sample.repository := by
    simp [Host.openRepository, hcanonical, hroot, hrepository]
  have hclone : Sample.surroundings.host.cloneInto "/r" "/t/repo" = .ok (.clone Sample.repository) := by
    simp [Host.cloneInto, hfree, hopen, bind, Except.bind]
  have hsurroundings : Sample.surroundings.workspaceRoot = "/t" ∧
      Sample.surroundings.creationObstacle = none := ⟨rfl, rfl⟩
  simp only [Session.createWorkspace, Workspace.create, habsolute, hsurroundings, hpath, hclone]

theorem Session.run_outputs_agree_sample :
    let conducted := (Session.work Sample.options Sample.surroundings Sample.startup).1
    Session.Passes Sample.options Sample.surroundings Sample.startup none Sample.surroundings.host.files ∧
      Session.createWorkspace Sample.surroundings Sample.startup.root.toAbsolute =
        .ok ⟨"/t", .clone Sample.repository⟩ ∧
      Session.Shows Sample.options Sample.surroundings (.clone Sample.repository) conducted.delivered
        conducted.outcome (Session.run Sample.options Sample.surroundings) :=
  ⟨Sample.passes, Sample.createWorkspace_eq,
    Session.run_outputs_agree .machine Sample.passes Sample.createWorkspace_eq⟩

end CommitVerdict
