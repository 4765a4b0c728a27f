import CommitVerdict.TestCommand
import CommitVerdict.Utility.Catalogue

namespace CommitVerdict

/-- A program that is ready to run. -/
structure Loaded where
  /-- The name in the catalogue of programs. -/
  program : String
  /-- The name under which it is started. -/
  name : String
  arguments : List String
deriving DecidableEq, Repr

namespace Launch

/-- How many interpreters may lead to one another. -/
def scriptDepth : Nat := 5

/-- Loads the file at a path. -/
def load (files : FileSystem) (directory : Path) :
    Nat → String → String → List String → Except OsError Loaded
  | 0, _, _, _ => .error .tooManyLinks
  | fuel + 1, path, name, arguments => do
    let place ← FileSystem.canonicalize files directory path
    match files.entryAt? place with
    | some (.executable content) =>
      match Image.read? content with
      | some (.program program) => .ok ⟨program, name, arguments⟩
      | some (.script interpreter argument) =>
        load files directory fuel interpreter interpreter
          (argument.toList ++ path :: arguments)
      | none => .error .executableFormat
    | _ => .error .permissionDenied

/-- Whether the search goes on after an error. -/
def isPassedOver : OsError → Bool
  | .notFound => true
  | .notDirectory => true
  | .permissionDenied => true
  | _ => false

/-- Searches directories for a program. The first file that can be run is taken, and a file that is there but
may not be run counts only if no other one is found; `found` is the error to report if there is none. -/
def search (files : FileSystem) (directory : Path) (program : String) (arguments : List String)
    (found : OsError) : List String → Except OsError Loaded
  | [] => .error found
  | place :: rest =>
    match load files directory scriptDepth (PathText.join place program) program arguments with
    | .ok loaded => .ok loaded
    | .error .permissionDenied =>
      search files directory program arguments .permissionDenied rest
    | .error e =>
      if isPassedOver e then search files directory program arguments found rest else .error e

/-- The search path if the environment has none. -/
def defaultSearchPath : String := "/bin:/usr/bin"

/-- Finds the program of a command. -/
def resolve (files : FileSystem) (directory : Path) (searchPath : Option String)
    (program : String) (arguments : List String) : Except OsError Loaded :=
  if program.contains '/' then load files directory scriptDepth program program arguments
  else if program.isEmpty then .error .notFound
  else
    search files directory program arguments .notFound
      (TestCommand.searchDirectories (searchPath.getD defaultSearchPath))

/-- The variables that a program is given. -/
abbrev Environment := List (String × String)

/-- What starting a program comes to once changes of its environment have been made. -/
inductive Target where
  | program (loaded : Loaded) (environment : Environment)
  /-- The environment is printed. -/
  | listing (environment : Environment)
  | failed (status : UInt8) (complaint : String)

def setVariable (environment : Environment) (name value : String) : Environment :=
  (environment.filter fun entry => entry.1 != name) ++ [(name, value)]

/-- Reads the arguments of the program that changes the environment: the environment, and the
command that is left. -/
def readChanges : Environment → List String → Environment × List String
  | environment, [] => (environment, [])
  | environment, "-i" :: rest => readChanges (environment.filter fun _ => false) rest
  | environment, "-u" :: name :: rest =>
    readChanges (environment.filter fun entry => entry.1 != name) rest
  | environment, argument :: rest =>
    let name := argument.toList.takeWhile fun c => c != '='
    if name.length < argument.length then
      readChanges (setVariable environment (String.ofList name)
        (String.ofList (argument.toList.drop (name.length + 1)))) rest
    else (environment, argument :: rest)

/-- The value of the search path in an environment. -/
def searchPathOf (environment : Environment) : Option String :=
  (environment.find? fun entry => entry.1 == TestCommand.searchVariable).map (·.2)

/-- Makes the changes of the environment that a loaded program stands for. -/
def target (files : FileSystem) (directory : Path) :
    Nat → Loaded → Environment → Target
  | 0, _, _ => .failed 126 OsError.tooManyLinks.reason
  | fuel + 1, loaded, environment =>
    if loaded.program != Image.environmentName then .program loaded environment
    else
      match readChanges environment loaded.arguments with
      | (environment, []) => .listing environment
      | (environment, program :: arguments) =>
        match resolve files directory (searchPathOf environment) program arguments with
        | .ok next => target files directory fuel next environment
        | .error e =>
          .failed (if e = .notFound then 127 else 126) s!"{loaded.name}: '{program}': {e.reason}"

end Launch

end CommitVerdict
