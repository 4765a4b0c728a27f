import CommitVerdict.Config
import CommitVerdict.Logger

namespace CommitVerdict

/-- Options that take a value. -/
inductive Setting where
  | workingDir
  | testsDir
  | codeDir
  | testCommand
  | logFormat
  | logLevel
  | logFile
deriving DecidableEq, Repr

namespace Setting

def all : List Setting :=
  [.workingDir, .testsDir, .codeDir, .testCommand, .logFormat, .logLevel, .logFile]

def name : Setting → String
  | .workingDir => "working-dir"
  | .testsDir => "tests-dir"
  | .codeDir => "code-dir"
  | .testCommand => "test-command"
  | .logFormat => "log-format"
  | .logLevel => "log-level"
  | .logFile => "log-file"

/-- The letter that stands for the setting, if there is one. -/
def letter? : Setting → Option Char
  | .workingDir => some 'd'
  | _ => none

/-- Whether the value is a path, which must not be empty. -/
def isPath : Setting → Bool
  | .workingDir => true
  | .testsDir => true
  | .codeDir => true
  | .logFile => true
  | _ => false

/-- What stands for the value in messages. -/
def placeholder (s : Setting) : String :=
  String.ofList (s.name.toList.map fun c => if c = '-' then '_' else c.toUpper)

/-- The setting as it is shown in messages. -/
def shown (s : Setting) : String := s!"--{s.name} <{s.placeholder}>"

end Setting

/-- Options that take no value. -/
inductive Switch where
  | showTestOutput
  | jsonOutput
  | dryRun
  | help
  | version
deriving DecidableEq, Repr

namespace Switch

def all : List Switch := [.showTestOutput, .jsonOutput, .dryRun, .help, .version]

def name : Switch → String
  | .showTestOutput => "show-test-output"
  | .jsonOutput => "json-output"
  | .dryRun => "dry-run"
  | .help => "help"
  | .version => "version"

def letter? : Switch → Option Char
  | .help => some 'h'
  | .version => some 'V'
  | _ => none

def shown (s : Switch) : String := s!"--{s.name}"

end Switch

/-- What a run is asked to do. -/
structure Options where
  /-- The references to verify, in order. -/
  references : List String
  workingDir : Option String
  testsDir : Option String
  codeDir : Option String
  testCommand : Option String
  logFormat : LogFormat
  logLevel : String
  logFile : Option String
  showTestOutput : Bool
  jsonOutput : Bool
  dryRun : Bool
deriving DecidableEq, Repr

namespace Options

def default : Options where
  references := []
  workingDir := none
  testsDir := none
  codeDir := none
  testCommand := none
  logFormat := .default
  logLevel := "warn"
  logFile := none
  showTestOutput := false
  jsonOutput := false
  dryRun := false

/-- The parts of a text between blanks. -/
def wordsFrom : List Char → List Char → List String
  | current, [] => if current.isEmpty then [] else [String.ofList current.reverse]
  | current, c :: rest =>
    if isBlank c then
      if current.isEmpty then wordsFrom [] rest
      else String.ofList current.reverse :: wordsFrom [] rest
    else wordsFrom (c :: current) rest

def words (text : String) : List String := wordsFrom [] text.toList

/-- The settings of the project that the options override. -/
def overrides (o : Options) : ProjectConfig :=
  ⟨o.testsDir, o.codeDir, o.testCommand.map words⟩

end Options

/-- What is wrong with a command line. -/
inductive UsageError where
  | unexpectedArgument (argument : String)
  | unexpectedValue (value : String) (switch : Switch)
  | missingValue (setting : Setting)
  | invalidValue (value : String) (setting : Setting)
  | repeatedSetting (setting : Setting)
  | repeatedSwitch (switch : Switch)
  | missingReferences
deriving DecidableEq, Repr

namespace UsageError

def message : UsageError → String
  | .unexpectedArgument argument => s!"unexpected argument '{argument}' found"
  | .unexpectedValue value switch =>
    s!"unexpected value '{value}' for '{switch.shown}' found; no more were expected"
  | .missingValue setting =>
    s!"a value is required for '{setting.shown}' but none was supplied"
  | .invalidValue value setting => s!"invalid value '{value}' for '{setting.shown}'"
  | .repeatedSetting setting => s!"the argument '{setting.shown}' cannot be used multiple times"
  | .repeatedSwitch switch => s!"the argument '{switch.shown}' cannot be used multiple times"
  | .missingReferences => "the following required arguments were not provided:"

end UsageError

end CommitVerdict
