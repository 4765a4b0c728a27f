import CommitVerdict.Shell.Expansion

namespace CommitVerdict

namespace Shell

/-- Writes output to the two descriptors for it; the result says whether all of it was written. -/
def writeOutput (output : List (OutputStream × Bytes)) : Exec Bool := do
  let written ← output.mapM fun (stream, bytes) =>
    if bytes.isEmpty then return true
    else
      match stream with
      | .stdout => write 1 bytes
      | .stderr => write 2 bytes
  return written.all id

/-- Runs a utility; a complaint is made if its output cannot be written. -/
def runUtility (utility : Utility) (complaint name : String) (arguments : List String) :
    Exec Unit := do
  let input ← remaining 0
  let files := (← world).files
  let reply := utility ⟨name, arguments, input, files, (← context).directory⟩
  changeWorld fun w => { w with files := reply.files }
  setRemaining 0 reply.input
  if ← writeOutput reply.output then setStatus reply.status
  else
    let _ ← write 2 (Utf8.encode s!"{name}: {complaint}\n")
    setStatus 1

/-- How a shell is called: its letters, and what is left of the arguments. -/
def shellOptions : List String → List Char × List String
  | [] => ([], [])
  | argument :: rest =>
    match argument.toList with
    | ['-', '-'] => ([], rest)
    | '-' :: letter :: letters =>
      let (more, operands) := shellOptions rest
      (letter :: letters ++ more, operands)
    | _ => ([], argument :: rest)

/-- Where a shell gets its commands from. -/
inductive Commands where
  | text (name : String) (script : List Char) (arguments : List String)
  | failed (reason : String)

/-- The commands of a shell that is called with arguments. -/
def shellCommands (files : FileSystem) (directory : Path) (input : Bytes) (name : String)
    (letters : List Char) (operands : List String) : Commands :=
  if letters.contains 'c' then
    match operands with
    | [] => .failed "-c requires an argument"
    | [script] => .text name script.toList []
    | script :: name :: arguments => .text name script.toList arguments
  else
    match operands with
    | [] => .text name (Utf8.decodeLossy input) []
    | path :: arguments =>
      match FileSystem.read files directory path with
      | .ok content => .text path (Utf8.decodeLossy content) arguments
      | .error .notFound => .failed s!"cannot open {path}: No such file"
      | .error e => .failed s!"cannot open {path}: {e.reason}"

/-- Runs a shell that is called with arguments in an environment. -/
def runShell (inner : Runner) (name : String) (arguments : List String)
    (environment : Launch.Environment) : Exec ExitStatus := do
  let outer ← context
  let (letters, operands) := shellOptions arguments
  let input ← remaining 0
  match shellCommands (← world).files outer.directory input name letters operands with
  | .failed reason =>
    let _ ← write 2 (Utf8.encode s!"{name}: 0: {reason}\n")
    return .code 2
  | .text name script arguments =>
    if operands.isEmpty then setRemaining 0 []
    changeContext fun _ =>
      { name := name
        process := outer.process + 1
        arguments := arguments
        bindings := ⟨"PPID", some (toString outer.process), false, false⟩ :: Context.variablesOf
          (Launch.setVariable environment "PWD" outer.directory.toAbsolute)
        functions := []
        directory := outer.directory
        descriptors := outer.descriptors
        status := 0
        line := 1
        substituted := 0
        traps := []
        stopsOnFailure := letters.contains 'e'
        requiresParameters := letters.contains 'u'
        isTested := false
        loops := 0
        locals := none }
    let left ← attempt (runScript inner script)
    let ending ← runExitTrap inner left
    changeContext fun _ => outer
    match ending with
    | .exit status => return .code status
    | .signal n => return .signal n
    | .exhausted => leave .exhausted
    | _ => return .code 0

/-- The status that a shell sees of a program that has ended. -/
def seenStatus : ExitStatus → UInt8
  | .code status => status
  | .signal n => UInt8.ofNat (128 + n)

/-- Runs a program that has been found. -/
def runTarget (inner : Runner) : Launch.Target → Exec ExitStatus
  | .program loaded environment => do
    if Image.shellNames.contains loaded.program then
      runShell inner loaded.name loaded.arguments environment
    else
      match Utility.named? loaded.program with
      | none => return .code 127
      | some utility =>
        runUtility utility "write error: Bad file descriptor" loaded.name loaded.arguments
        return .code (← context).status
  | .listing environment => do
    let lines := environment.map fun entry => s!"{entry.1}={entry.2}"
    let _ ← write 1 (Utility.linesOf lines)
    return .code 0
  | .failed status complaint => do
    let _ ← write 2 (Utf8.encode s!"{complaint}\n")
    return .code status

/-- How many changes of the environment may lead to one another. -/
def environmentDepth : Nat := 20

/-- Runs a program for a command and takes its status. Complaints about it have a given start. -/
def runProgram (inner : Runner) (complaintStart name : String) (arguments : List String)
    (environment : Launch.Environment) : Exec Unit := do
  let c ← context
  let files := (← world).files
  let searchPath := (c.value TestCommand.searchVariable).getD ""
  let run (loaded : Loaded) : Exec Unit := do
    let status ← runTarget inner
      (Launch.target files c.directory environmentDepth loaded environment)
    match status with
    | .signal n => let _ ← write 2 (Utf8.encode s!"{signalDescription n}\n")
    | .code _ => pure ()
    setStatus (seenStatus status)
  match Launch.resolve files c.directory (some searchPath) name arguments with
  | .ok loaded => run loaded
  | .error .executableFormat => run ⟨"sh", c.name, name :: arguments⟩
  | .error .notFound =>
    complain s!"{complaintStart}{name}: not found"
    setStatus 127
  | .error .notDirectory =>
    complain s!"{complaintStart}{name}: not found"
    setStatus 127
  | .error e =>
    complain s!"{complaintStart}{name}: {e.reason}"
    setStatus 126

end Shell

end CommitVerdict
