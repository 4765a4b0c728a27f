import CommitVerdict.CommandLine.Options

namespace CommitVerdict

/-- What a command line asks for. -/
inductive Request where
  | run (options : Options)
  | version
  | help
deriving DecidableEq, Repr

namespace CommandLine

/-- A setting whose value has not been judged yet: it is judged only when the argument after it is known to be
something else, so an unknown option that follows is reported first. -/
inductive Pending where
  | nothing
  /-- The setting still lacks its value. -/
  | awaiting (setting : Setting)
  | holding (setting : Setting) (value : String)
deriving DecidableEq, Repr

/-- What has been read so far. -/
structure Progress where
  options : Options
  settings : List Setting
  switches : List Switch
  pending : Pending
  /-- Whether the options have ended. -/
  onlyReferences : Bool
deriving DecidableEq, Repr

/-- Why the reading stops. -/
inductive Stop where
  | request (r : Request)
  | error (e : UsageError)
deriving DecidableEq, Repr

abbrev Step := Except Stop Progress

def Progress.start : Progress := ⟨.default, [], [], .nothing, false⟩

def refuse {α : Type} (e : UsageError) : Except Stop α := .error (.error e)

/-- The format of a name. -/
def format? (name : String) : Option LogFormat :=
  match name with
  | "pretty" => some .pretty
  | "json" => some .json
  | "compact" => some .compact
  | _ => none

/-- Options with one setting changed. -/
def Progress.set (p : Progress) (setting : Setting) (value : String) : Except UsageError Options :=
  let o := p.options
  match setting with
  | .workingDir => .ok { o with workingDir := some value }
  | .testsDir => .ok { o with testsDir := some value }
  | .codeDir => .ok { o with codeDir := some value }
  | .testCommand => .ok { o with testCommand := some value }
  | .logLevel => .ok { o with logLevel := value }
  | .logFile => .ok { o with logFile := some value }
  | .logFormat =>
    if value.isEmpty then .error (.missingValue .logFormat)
    else
      match format? value with
      | some format => .ok { o with logFormat := format }
      | none => .error (.invalidValue value .logFormat)

/-- Takes the value of a setting. -/
def Progress.accept (p : Progress) (setting : Setting) (value : String) : Step :=
  if p.settings.contains setting then refuse (.repeatedSetting setting)
  else if setting.isPath && value.isEmpty then refuse (.missingValue setting)
  else
    match p.set setting value with
    | .ok options => .ok { p with options := options, settings := setting :: p.settings }
    | .error e => refuse e

/-- Judges a value that has been put off. -/
def Progress.resolve (p : Progress) : Step :=
  match p.pending with
  | .nothing => .ok p
  | .awaiting setting => refuse (.missingValue setting)
  | .holding setting value => { p with pending := .nothing }.accept setting value

/-- Takes a setting, with its value if that is attached. -/
def Progress.takeSetting (p : Progress) (setting : Setting) (value : Option String) : Step := do
  let p ← p.resolve
  match value with
  | some value => p.accept setting value
  | none => return { p with pending := .awaiting setting }

/-- Takes a switch. -/
def Progress.takeSwitch (p : Progress) (switch : Switch) : Step := do
  let p ← p.resolve
  if p.switches.contains switch then refuse (.repeatedSwitch switch)
  else
    let p := { p with switches := switch :: p.switches }
    match switch with
    | .showTestOutput => return { p with options := { p.options with showTestOutput := true } }
    | .jsonOutput => return { p with options := { p.options with jsonOutput := true } }
    | .dryRun => return { p with options := { p.options with dryRun := true } }
    | .version => throw (.request .version)
    | .help => throw (.request .help)

/-- Takes a reference. -/
def Progress.takeReference (p : Progress) (reference : String) : Step := do
  let p ← p.resolve
  return { p with options :=
    { p.options with references := p.options.references ++ [reference] } }

/-- Takes an option that is written with two hyphens, given without them. -/
def Progress.takeLong (p : Progress) (text : List Char) : Step :=
  let name := text.takeWhile fun c => c != '='
  let value := match text.drop name.length with
    | [] => none
    | _ :: value => some (String.ofList value)
  let name := String.ofList name
  match Setting.all.find? fun s => s.name == name, Switch.all.find? fun s => s.name == name with
  | some setting, _ => p.takeSetting setting value
  | none, some switch =>
    match value with
    | some value => refuse (.unexpectedValue value switch)
    | none => p.takeSwitch switch
  | none, none => refuse (.unexpectedArgument s!"--{name}")

/-- Takes options that are written with one hyphen, given without it. What follows the letter of a
setting is its value, an equals sign between them aside. -/
def Progress.takeShort (p : Progress) : List Char → Step
  | [] => .ok p
  | letter :: rest =>
    match Setting.all.find? fun s => s.letter? == some letter,
      Switch.all.find? fun s => s.letter? == some letter with
    | some setting, _ =>
      match rest with
      | [] => p.takeSetting setting none
      | '=' :: value => p.takeSetting setting (some (String.ofList value))
      | value => p.takeSetting setting (some (String.ofList value))
    | none, some switch => do
      let p ← p.takeSwitch switch
      p.takeShort rest
    | none, none => refuse (.unexpectedArgument (String.ofList ['-', letter]))

/-- Takes an argument. -/
def Progress.take (p : Progress) (argument : String) : Step :=
  if p.onlyReferences then p.takeReference argument
  else
    match argument.toList with
    | ['-', '-'] => .ok { p with onlyReferences := true }
    | '-' :: '-' :: text => p.takeLong text
    | '-' :: c :: text => p.takeShort (c :: text)
    | _ =>
      match p.pending with
      | .awaiting setting => .ok { p with pending := .holding setting argument }
      | _ => p.takeReference argument

/-- The end of the command line; at least one reference is needed. -/
def Progress.finish (p : Progress) : Except Stop Request := do
  let p ← p.resolve
  if p.options.references.isEmpty then refuse .missingReferences
  else return .run p.options

/-- Reads a command line. -/
def parse (arguments : List String) : Except UsageError Request :=
  match arguments.foldlM Progress.take .start with
  | .error (.request r) => .ok r
  | .error (.error e) => .error e
  | .ok p =>
    match p.finish with
    | .ok r => .ok r
    | .error (.request r) => .ok r
    | .error (.error e) => .error e

end CommandLine

end CommitVerdict
