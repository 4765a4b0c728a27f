import CommitVerdict.Proofs.FileSystem.Contents
import CommitVerdict.Proofs.Session.Settings
import CommitVerdict.Proofs.Session.Startup

namespace CommitVerdict

/-- The value of a setting that a flag and a file may give: the flag goes before the file, and the file before
the value that is built in. -/
inductive Prevails {α : Type} (flag file : Option α) (builtIn : α) : α → Prop
  | flag {a} : flag = some a → Prevails flag file builtIn a
  | file {a} : flag = none → file = some a → Prevails flag file builtIn a
  | builtIn : flag = none → file = none → Prevails flag file builtIn builtIn

theorem prevails_iff {α : Type} {flag file : Option α} {builtIn a : α} :
    Prevails flag file builtIn a ↔ (flag.orElse fun _ => file).getD builtIn = a := by
  constructor
  · rintro (hflag | ⟨hflag, hfile⟩ | ⟨hflag, hfile⟩) <;> simp [*]
  · rintro rfl
    cases hflag : flag with
    | some a => exact .flag rfl
    | none =>
      cases hfile : file with
      | some a => exact .file rfl rfl
      | none => exact .builtIn rfl rfl

/-- The settings that are in effect with options, and with a file of settings if there is one. -/
structure InEffect (o : Options) (file : Option ProjectConfig) (settings : Settings) : Prop where
  testsDir : Prevails o.testsDir (file.bind (·.testsDir)) "tests" settings.layout.testsDir
  codeDir : Prevails o.codeDir (file.bind (·.codeDir)) "src" settings.layout.codeDir
  testCommand : Prevails (o.testCommand.map Options.words) (file.bind (·.testCommand))
    ["python3", "-m", "unittest", "discover"] settings.testCommand

theorem inEffect_iff {o : Options} {file : Option ProjectConfig} {settings : Settings} :
    InEffect o file settings ↔ (file.getD .empty).resolve o.overrides = settings := by
  have hnames : ProjectConfig.resolve (file.getD .empty) o.overrides =
      ⟨⟨(o.testsDir.orElse fun _ => file.bind (·.testsDir)).getD "tests",
        (o.codeDir.orElse fun _ => file.bind (·.codeDir)).getD "src"⟩,
        ((o.testCommand.map Options.words).orElse fun _ => file.bind (·.testCommand)).getD
          ["python3", "-m", "unittest", "discover"]⟩ := by
    cases file <;> rfl
  rw [hnames]
  constructor
  · rintro ⟨htests, hcode, hcommand⟩
    rw [prevails_iff.mp htests, prevails_iff.mp hcode, prevails_iff.mp hcommand]
  · rintro rfl
    exact ⟨prevails_iff.mpr rfl, prevails_iff.mpr rfl, prevails_iff.mpr rfl⟩

namespace Session

/-- What the first check comes to: the search for the repository, from the directory that is asked for. -/
structure Locates (o : Options) (s : Surroundings) (found : Except VerificationError Path) : Prop where
  eq : Locator.locate s.host.files s.directory (o.workingDir.getD s.directory.toAbsolute) = found

/-- The first two checks pass: there is a repository, and settings are in effect for it. -/
structure Settles (o : Options) (s : Surroundings) (root : Path) (settings : Settings) : Prop where
  locates : Locates o s (.ok root)
  loads : ∃ file, ProjectConfig.Loads s.host.files root.toAbsolute (.ok file) ∧ InEffect o file settings

/-- The first three checks pass, and the test command is made of the settings in effect. -/
structure Prepares (o : Options) (s : Surroundings) (root : Path) (settings : Settings)
    (command : TestCommand) : Prop where
  settles : Settles o s root settings
  makes : TestCommand.ofParts settings.testCommand = .ok command

/-- The error of one of the first three checks, the ones before it having passed. -/
inductive Unprepared (o : Options) (s : Surroundings) : FatalError → Prop
  | repository {e} : Locates o s (.error e) → Unprepared o s (.verification e)
  | settings {root e} :
      Locates o s (.ok root) → ProjectConfig.Loads s.host.files root.toAbsolute (.error e) →
      Unprepared o s (.config e)
  | command {root settings e} :
      Settles o s root settings → TestCommand.ofParts settings.testCommand = .error e →
      Unprepared o s (.command e)

/-- The error of one of the five checks, the ones before it having passed. -/
inductive FirstFailure (o : Options) (s : Surroundings) : FatalError → Prop
  | unprepared {e} : Unprepared o s e → FirstFailure o s e
  | logFile {root settings command path e} :
      Prepares o s root settings command → o.dryRun = false → o.logFile = some path →
      LogFile.openAt s.host.files s.directory path = .error e →
      FirstFailure o s (.logFile path e)
  | program {root settings command log files} :
      Prepares o s root settings command → o.dryRun = false → openLog o s = (.ok log, files) →
      command.isAvailable (s.withFiles files).host s.directory = false →
      FirstFailure o s (.verification (.suiteUnavailable command.program))

variable {o : Options} {s : Surroundings} {root : Path} {settings : Settings} {command : TestCommand}
  {e : FatalError}

theorem Prepares.start_eq (hprepares : Prepares o s root settings command) :
    start o s = .ok ⟨root, settings.layout, command⟩ := by
  obtain ⟨⟨hlocates, file, hloads, heffect⟩, hmakes⟩ := hprepares
  rw [← inEffect_iff.mp heffect] at hmakes ⊢
  simp only [start, bind, Except.bind, Except.mapError, hlocates.eq, ProjectConfig.load_of_loads hloads, hmakes]
  rfl

theorem Unprepared.start_eq (hunprepared : Unprepared o s e) : start o s = .error e := by
  cases hunprepared with
  | repository hlocates => simp only [start, bind, Except.bind, Except.mapError, hlocates.eq]
  | settings hlocates hloads =>
    simp only [start, bind, Except.bind, Except.mapError, hlocates.eq, ProjectConfig.load_of_loads hloads]
  | command hsettles hmakes =>
    obtain ⟨hlocates, file, hloads, heffect⟩ := hsettles
    rw [← inEffect_iff.mp heffect] at hmakes
    simp only [start, bind, Except.bind, Except.mapError, hlocates.eq, ProjectConfig.load_of_loads hloads, hmakes]

theorem Unprepared.runWith_eq (hunprepared : Unprepared o s e) (work) : runWith work o s = failed o s e := by
  simp only [runWith, hunprepared.start_eq]

theorem openLog_eq {path : String} (hpath : o.logFile = some path) :
    let attempt := LogFile.attempt s.host.files s.directory path
    openLog o s = ((attempt.1.map some).mapError (.logFile path), attempt.2) := by
  simp only [openLog, hpath]
  cases LogFile.attempt s.host.files s.directory path with
  | mk result files => cases result <;> rfl

theorem openLog_eq_error_iff : (openLog o s).1 = .error e ↔ ∃ path cause, o.logFile = some path ∧
    LogFile.openAt s.host.files s.directory path = .error cause ∧ .logFile path cause = e := by
  cases hpath : o.logFile with
  | none => simp [openLog, hpath]
  | some path =>
    rw [openLog_eq hpath]
    simp only [LogFile.openAt_eq_error_iff]
    cases hattempt : (LogFile.attempt s.host.files s.directory path).1 <;>
      simp [hattempt, Except.map, Except.mapError]

/-- A log file that cannot be opened leaves every file and link as it is. -/
theorem entryAt?_openLog (hfails : (openLog o s).1 = .error e) {p : Path} (hne : p ≠ []) :
    (openLog o s).2.entryAt? p = s.host.files.entryAt? p := by
  obtain ⟨path, cause, hpath, hopen, -⟩ := openLog_eq_error_iff.mp hfails
  rw [openLog_eq hpath]
  exact LogFile.entryAt?_attempt (LogFile.openAt_eq_error_iff.mp hopen) hne

/-- The first check that fails ends the session with its error, whatever the work would be. Before a log file
has been opened, no file and no link has changed. -/
theorem FirstFailure.runWith_eq (hfailure : FirstFailure o s e) :
    ∃ files, (∀ work, runWith work o s = failed o (s.withFiles files) e) ∧
      ((∀ program, e ≠ .verification (.suiteUnavailable program)) →
        ∀ p, p ≠ [] → files.entryAt? p = s.host.files.entryAt? p) := by
  cases hfailure with
  | unprepared hunprepared => exact ⟨s.host.files, hunprepared.runWith_eq, fun _ _ _ => rfl⟩
  | @logFile root settings command path cause hprepares hdry hpath hopen =>
    have hlog : (openLog o s).1 = .error (.logFile path cause) :=
      openLog_eq_error_iff.mpr ⟨path, cause, hpath, hopen, rfl⟩
    refine ⟨(openLog o s).2, fun work => ?_, fun _ p hne => entryAt?_openLog hlog hne⟩
    have hpair : openLog o s = (.error (.logFile path cause), (openLog o s).2) := Prod.ext hlog rfl
    simp only [runWith, hprepares.start_eq, hdry]
    rw [hpair]
    rfl
  | @program root settings command log files hprepares hdry hopen hmissing =>
    have hsuite : (suiteOf ⟨root, settings.layout, command⟩ (s.withFiles files)).checkAvailable =
        .error command.program := by
      rw [Suite.checkAvailable]
      exact if_neg (ne_true_of_eq_false hmissing)
    refine ⟨files, fun work => ?_, fun hother => absurd rfl (hother command.program)⟩
    simp only [runWith, hprepares.start_eq, hdry, hopen, hsuite]
    rfl

end Session

namespace Sample

end Sample

end CommitVerdict
