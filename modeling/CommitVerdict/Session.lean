import CommitVerdict.Batch
import CommitVerdict.CommandLine.Parser
import CommitVerdict.Locator
import CommitVerdict.LogFile
import CommitVerdict.Suite.Command
import CommitVerdict.Workspace

namespace CommitVerdict

/-- What ends a session without a report. -/
inductive FatalError where
  | verification (e : VerificationError)
  | config (e : ConfigError)
  | command (e : CommandError)
  | logFile (path : String) (cause : OsError)
deriving DecidableEq, Repr

namespace FatalError

def message : FatalError → String
  | .verification e => e.message
  | .config e => e.message
  | .command _ => s!"Invalid test command in flags or {ProjectConfig.fileName}"
  | .logFile path _ => s!"Failed to open log file {path}"

/-- The error behind this one. -/
def cause? : FatalError → Option String
  | .verification e => e.cause?
  | .config e => some e.cause
  | .command e => some e.message
  | .logFile _ cause => some cause.message

/-- The error as it is told at the end of a session. -/
def text (e : FatalError) : String :=
  match e.cause? with
  | some cause => s!"Error: {e.message}\n\nCaused by:\n    {cause}\n"
  | none => s!"Error: {e.message}\n"

end FatalError

/-- Where and when a session takes place. -/
structure Surroundings where
  host : Host
  directory : Path
  /-- The temporary directory that a workspace would get. -/
  workspaceRoot : String
  /-- What keeps that directory from being made, if anything does. -/
  creationObstacle : Option OsError := none
  /-- What keeps that directory from being removed, if anything does. -/
  removalObstacle : Option OsError := none
  /-- The time of each event, by its number. -/
  clock : Nat → Stamp
  /-- The time that every run of the suite takes. -/
  runTime : Duration
  /-- The time that the batch takes. -/
  batchTime : Duration := .zero
  /-- The time that the whole session takes. -/
  totalTime : Duration
  /-- What the diagnostics write to the error output ahead of the text of a number that the session itself
  writes there, with the filters that they try in their order, and with a format. -/
  diagnostics : List String → LogFormat → Nat → String := fun _ _ _ => ""

namespace Surroundings

/-- The same surroundings with other files. -/
def withFiles (s : Surroundings) (files : FileSystem) : Surroundings :=
  { s with host := { s.host with files := files } }

end Surroundings

/-- What a session leaves behind. -/
structure Transcript where
  stdout : String
  stderr : String
  exitCode : Nat
  /-- The events that were logged, in order. -/
  events : List Event
  files : FileSystem

/-- What the checks at the start find. -/
structure Startup where
  root : Path
  layout : ProjectLayout
  command : TestCommand
deriving DecidableEq, Repr

namespace Session

/-- The checks that a dry run makes too. -/
def start (o : Options) (s : Surroundings) : Except FatalError Startup := do
  let files := s.host.files
  let root ← (Locator.locate files s.directory (o.workingDir.getD s.directory.toAbsolute)).mapError
    FatalError.verification
  let config ← (ProjectConfig.load files root.toAbsolute).mapError FatalError.config
  let settings := (config.getD .empty).resolve o.overrides
  let command ← (TestCommand.ofParts settings.testCommand).mapError FatalError.command
  return ⟨root, settings.layout, command⟩

/-- What a dry run shows. -/
def dryRunLines (o : Options) (startup : Startup) : List String :=
  ["=== Dry Run ===",
   s!"Repository: {startup.root.toAbsolute}",
   s!"Tests dir: {startup.layout.testsDir}",
   s!"Code dir: {startup.layout.codeDir}",
   s!"Test command: {startup.command.name}",
   "Commits: " ++ " ".intercalate o.references]

/-- Opens the log file, if there is one: its place, if it can be opened, and the files behind the attempt. -/
def openLog (o : Options) (s : Surroundings) : Except FatalError (Option Path) × FileSystem :=
  match o.logFile with
  | none => (.ok none, s.host.files)
  | some path =>
    match LogFile.attempt s.host.files s.directory path with
    | (.ok place, files) => (.ok (some place), files)
    | (.error e, files) => (.error (.logFile path e), files)

/-- The filters of the diagnostics in the order in which they are tried. -/
def diagnosticFilters (o : Options) (host : Host) : List String :=
  (host.variableValue "RUST_LOG").toList ++ [o.logLevel]

/-- The error output of a session that writes some texts there, each of them behind the diagnostics that come
ahead of it. -/
def errorOutput (o : Options) (s : Surroundings) (texts : List String) : String :=
  String.join (texts.zipIdx.map fun (text, number) =>
    s.diagnostics (diagnosticFilters o s.host) o.logFormat number ++ text)

/-- What is left of a batch in its workspace. -/
structure Conducted where
  events : List Event
  /-- The entries that were handed on. -/
  delivered : List CommitReport
  outcome : Except VerificationError RunReport

/-- The event that tells an error. -/
def errorEvent (e : VerificationError) : Event := .errorEncountered e.message

/-- Makes a workspace for a repository. -/
def createWorkspace (s : Surroundings) (root : String) : Except VerificationError Workspace :=
  Workspace.create s.host root s.workspaceRoot s.creationObstacle

/-- The event of the removal of a workspace. -/
def cleanupEvent (s : Surroundings) (workspace : Workspace) : Event :=
  match workspace.close s.removalObstacle with
  | .ok path => .workspaceRemoved path
  | .error e => .errorEncountered s!"Failed to remove workspace: {e.message}"

/-- What is logged at the end of a session for its outcome. -/
def endingEvents : Except VerificationError RunReport → List Event
  | .ok _ => []
  | .error e => [errorEvent e]

/-- Clones the repository, verifies the references with a suite, and removes the workspace before the outcome
is told, whatever it is. -/
def conduct {σ : Type} (s : Surroundings) (root : String) (layout : ProjectLayout) (suite : Suite σ)
    (memory : σ) (references : List String) : Conducted × σ :=
  let started := Event.runStarted root references suite.name
  match createWorkspace s root with
  | .error e => (⟨[started], [], .error e⟩, memory)
  | .ok workspace =>
    let result := (Progress.start workspace.copy memory).verify suite layout s.batchTime references
    let events := started :: .workspaceCreated workspace.path :: result.progress.events
      ++ cleanupEvent s workspace :: endingEvents result.outcome
    (⟨events, result.delivered, result.outcome⟩, result.progress.memory)

/-- The suite that a session runs in its workspace. -/
def suiteOf (startup : Startup) (s : Surroundings) : Suite FileSystem :=
  startup.command.suite s.host (startup.command.isAvailable s.host s.directory)
    (Path.ofText (Workspace.clonePath s.workspaceRoot)) s.runTime

/-- What a session does when its checks have passed and its log file is open. -/
def work (o : Options) (s : Surroundings) (startup : Startup) : Conducted × FileSystem :=
  conduct s startup.root.toAbsolute startup.layout (suiteOf startup s) s.host.files o.references

/-- What the runs of a session's command come to. A program may do in them as it likes, and may remember
anything from one run to the next. -/
structure Behaviour (σ : Type) where
  /-- What is remembered before the first run. -/
  initial : Surroundings → σ
  invoke : Startup → Surroundings → σ → Directory → Invocation σ
  /-- The files outside the workspace, which the runs may change too. -/
  files : σ → FileSystem

namespace Behaviour

variable {σ : Type}

/-- The suite of a session whose command behaves in some way. -/
def suite (b : Behaviour σ) (startup : Startup) (s : Surroundings) : Suite σ where
  name := startup.command.name
  program := startup.command.program
  available := startup.command.isAvailable s.host s.directory
  invoke := b.invoke startup s

/-- What a session does behind its checks when its command behaves in some way. -/
def work (b : Behaviour σ) (o : Options) (s : Surroundings) (startup : Startup) :
    Conducted × FileSystem :=
  let (conducted, memory) := conduct s startup.root.toAbsolute startup.layout (b.suite startup s)
    (b.initial s) o.references
  (conducted, b.files memory)

/-- The command as the machine runs it. -/
def machine : Behaviour FileSystem where
  initial s := s.host.files
  invoke startup s := (suiteOf startup s).invoke
  files := id

end Behaviour

/-- The messages of a report with the number of commits that have each of them, by message. -/
def messageCounts (report : RunReport) : List (String × Nat) :=
  let messages := report.commits.flatMap fun entry => entry.verdict.messages
  let names := (messages.mergeSort fun a b => decide (a ≤ b)).eraseDups
  names.map fun name => (name, messages.count name)

/-- The summary of a report. -/
def summary (colored : Bool) (report : RunReport) (elapsed : Duration) : List String :=
  let title :=
    if report.isSuccess then Style.brightGreen.bold.paint colored "=== LEGITIMATE ==="
    else Style.brightRed.bold.paint colored "=== ILLEGITIMATE ==="
  ["", title, s!"Commits: {report.commits.length}"]
    ++ (messageCounts report).map (fun entry => s!"  {entry.1}: {entry.2}")
    ++ [s!"Duration: {elapsed.toSeconds.oneDecimal}s"]

/-- Whether output is coloured. Nothing is written to a terminal, so it has to be forced. -/
def isColored (host : Host) : Bool :=
  match host.variableValue "CLICOLOR_FORCE" with
  | some value => value != "0"
  | none => false

/-- The logger that the options ask for. -/
def logger (o : Options) (host : Host) : Logger := ⟨o.logFormat, o.showTestOutput, isColored host⟩

/-- Events with the times at which they were logged. -/
def stamped (clock : Nat → Stamp) (events : List Event) : List (Stamp × Event) :=
  events.zipIdx.map fun (event, number) => (clock number, event)

/-- What goes to the standard output. Without the document, the lines of each commit go out as it is judged,
so a later error leaves them standing. -/
def output (o : Options) (conducted : Conducted) : String :=
  if o.jsonOutput then
    match conducted.outcome with
    | .ok report => report.document ++ "\n"
    | .error _ => ""
  else Logger.ofLines (conducted.delivered.flatMap fun entry => entry.lines)

/-- What follows the events on the console. -/
def closing (o : Options) (colored : Bool) (elapsed : Duration) (conducted : Conducted) : String :=
  match conducted.outcome with
  | .error e => (FatalError.verification e).text
  | .ok report =>
    if o.jsonOutput then "" else Logger.ofLines (summary colored report elapsed)

/-- The exit code of a batch. -/
def exitCode (conducted : Conducted) : Nat :=
  match conducted.outcome with
  | .ok report => report.exitCode
  | .error _ => 1

/-- The transcript of a batch whose events are logged to the console and to a log file. -/
def transcript (o : Options) (s : Surroundings) (log : Option Path) (files : FileSystem)
    (conducted : Conducted) : Transcript :=
  let logger := logger o s.host
  let events := stamped s.clock conducted.events
  { stdout := output o conducted
    stderr := errorOutput o s
      (logger.consoleTexts events ++ [closing o logger.colored s.totalTime conducted])
    exitCode := exitCode conducted
    events := conducted.events
    files := match log with
      | some place => LogFile.record files place events
      | none => files }

/-- A session that ends with an error before anything is logged. -/
def failed (o : Options) (s : Surroundings) (e : FatalError) : Transcript :=
  ⟨"", errorOutput o s [e.text], 1, [], s.host.files⟩

/-- Runs a session with options; behind its checks it does the given work. The first check that fails ends the
session before anything is cloned, run or logged, and a dry run ends behind the first three. -/
def runWith (work : Options → Surroundings → Startup → Conducted × FileSystem) (o : Options)
    (s : Surroundings) : Transcript :=
  match start o s with
  | .error e => failed o s e
  | .ok startup =>
    if o.dryRun then
      ⟨Logger.ofLines (dryRunLines o startup), errorOutput o s [""], 0, [], s.host.files⟩
    else
      match openLog o s with
      | (.error e, files) => failed o (s.withFiles files) e
      | (.ok log, files) =>
        let s := s.withFiles files
        match (suiteOf startup s).checkAvailable with
        | .error program => failed o s (.verification (.suiteUnavailable program))
        | .ok () =>
          let (conducted, files) := work o s startup
          transcript o s log files conducted

/-- Runs a session whose command behaves in some way. -/
def runAs {σ : Type} (b : Behaviour σ) (o : Options) (s : Surroundings) : Transcript :=
  runWith b.work o s

/-- Runs a session with options. -/
def run (o : Options) (s : Surroundings) : Transcript := runWith work o s

theorem run_eq_runAs (o : Options) (s : Surroundings) : run o s = runAs .machine o s := rfl

end Session

namespace CommandLine

def programName : String := "legitest"

def version : String := "0.1.0"

/-- What is printed when help is asked for. -/
def helpLines : List String :=
  ["Check that the unit tests added by a commit actually exercise its code change", "",
   s!"Usage: {programName} [OPTIONS] <COMMITS>...", "",
   "Options:"]
    ++ Setting.all.map (fun setting => s!"  {setting.shown}")
    ++ Switch.all.map fun switch => s!"  {switch.shown}"

/-- Runs a session from its arguments. -/
def run (arguments : List String) (s : Surroundings) : Transcript :=
  match parse arguments with
  | .error e => ⟨"", s!"error: {e.message}\n", 2, [], s.host.files⟩
  | .ok .version => ⟨s!"{programName} {version}\n", "", 0, [], s.host.files⟩
  | .ok .help => ⟨Logger.ofLines helpLines, "", 0, [], s.host.files⟩
  | .ok (.run options) => Session.run options s

end CommandLine

end CommitVerdict
