import CommitVerdict.ChangeSet
import CommitVerdict.FileSystem
import CommitVerdict.Toml.Reader

namespace CommitVerdict

/-- Settings that may be given or not. -/
structure ProjectConfig where
  testsDir : Option String
  codeDir : Option String
  testCommand : Option (List String)
deriving DecidableEq, Repr

/-- The settings of a run. -/
structure Settings where
  layout : ProjectLayout
  testCommand : List String
deriving DecidableEq, Repr

/-- Why the settings of a file cannot be used. -/
inductive ConfigError where
  | unreadable (path : String) (cause : OsError)
  | notText (path : String)
  | malformed (path : String)
  | wrongContent (path : String) (cause : DecodeError)
deriving DecidableEq, Repr

namespace ConfigError

def message : ConfigError → String
  | .unreadable path _ => s!"Failed to read {path}"
  | .notText path => s!"Failed to read {path}"
  | .malformed path => s!"Failed to parse {path}"
  | .wrongContent path _ => s!"Failed to parse {path}"

/-- The error behind this one. What is wrong with a TOML text is not told. -/
def cause : ConfigError → String
  | .unreadable _ cause => cause.message
  | .notText _ => "stream did not contain valid UTF-8"
  | .malformed _ => "TOML parse error"
  | .wrongContent _ _ => "TOML parse error"

end ConfigError

namespace ProjectConfig

def fileName : String := "legitest.toml"

/-- The command that runs the suite if no other is given. -/
def defaultTestCommand : List String := ["python3", "-m", "unittest", "discover"]

def empty : ProjectConfig := ⟨none, none, none⟩

def fieldNames : List String := ["tests_dir", "code_dir", "test_command"]

/-- A value as something that was not expected. -/
def unexpected : Toml → Unexpected
  | .string s => .string s
  | .integer i => .integer i
  | .float x => .real x.text
  | .boolean b => .bool b
  | .datetime => .map
  | .array _ => .sequence
  | .table _ _ => .map
  | .tables _ => .sequence

/-- A text; `expected` says what anything else should have been. -/
def decodeString (expected : String) : Toml → Decoded String
  | .string s => .ok s
  | other => .error (.invalidType (unexpected other) expected)

def decodeTexts : Toml → Decoded (List String)
  | .array items => items.mapM (decodeString "a string")
  | .tables _ => .error (.invalidType .map "a string")
  | other => .error (.invalidType (unexpected other) "a sequence")

/-- Takes over one entry of the file. -/
def addEntry (config : ProjectConfig) (entry : String × Toml) : Decoded ProjectConfig :=
  match entry.1 with
  | "tests_dir" => (decodeString "path string" entry.2).map fun path => { config with testsDir := some path }
  | "code_dir" => (decodeString "path string" entry.2).map fun path => { config with codeDir := some path }
  | "test_command" =>
    (decodeTexts entry.2).map fun command => { config with testCommand := some command }
  | name => .error (.unknownField name fieldNames)

/-- The settings that a document holds; the first wrong entry is the error. -/
def ofToml (document : TomlEntries) : Decoded ProjectConfig := List.foldlM addEntry empty document

/-- The settings of the repository at a root, if it has a file of settings. A file that cannot be read, that
is no TOML, or that has other content than the three settings is an error. -/
def load (fs : FileSystem) (root : String) : Except ConfigError (Option ProjectConfig) := do
  let path := PathText.join root fileName
  if !FileSystem.existsAt fs [] path then return none
  let content ← (FileSystem.read fs [] path).mapError (ConfigError.unreadable path)
  match Utf8.decode? content with
  | none => throw (.notText path)
  | some text =>
    match Toml.parse? text with
    | none => throw (.malformed path)
    | some document =>
      let config ← (ofToml document).mapError (ConfigError.wrongContent path)
      return some config

/-- The settings that hold when some are overridden. -/
def resolve (config overrides : ProjectConfig) : Settings where
  layout :=
    ⟨(overrides.testsDir.orElse fun _ => config.testsDir).getD ProjectLayout.default.testsDir,
     (overrides.codeDir.orElse fun _ => config.codeDir).getD ProjectLayout.default.codeDir⟩
  testCommand :=
    (overrides.testCommand.orElse fun _ => config.testCommand).getD defaultTestCommand

end ProjectConfig

end CommitVerdict
