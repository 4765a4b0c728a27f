import CommitVerdict.Shell.Builtin

namespace CommitVerdict

namespace Shell

/-- How often the body of a loop may be run. -/
def loopBudget : Nat := 1000000

/-- How deep commands may be nested, function calls included. -/
def nestingBudget : Nat := 100000

/-- The complaint about a file that cannot be opened. -/
def openingComplaint (isMade : Bool) (path : String) (e : OsError) : String :=
  match isMade, e with
  | true, .notFound => s!"cannot create {path}: Directory nonexistent"
  | true, e => s!"cannot create {path}: {e.reason}"
  | false, .notFound => s!"cannot open {path}: No such file"
  | false, e => s!"cannot open {path}: {e.reason}"

/-- The descriptor that a path of the device directory stands for. -/
def deviceDescriptor? (path : String) : Option Nat :=
  match path with
  | "/dev/stdin" => some 0
  | "/dev/stdout" => some 1
  | "/dev/stderr" => some 2
  | "/dev/fd/1" => some 1
  | "/dev/fd/2" => some 2
  | _ => none

/-- The place of the file that takes everything and holds nothing. -/
def nullPlace : Path := ["dev", "null"]

/-- Opens a path; an error is a complaint. -/
def openPath (kind : RedirectionKind) (path : String) : Exec (Except String Descriptor) := do
  let c ← context
  let files := (← world).files
  match deviceDescriptor? path with
  | some n => return .ok ((c.descriptor? n).getD .null)
  | none =>
    if (FileSystem.canonicalize files c.directory path).toOption = some nullPlace then
      return .ok .null
    else
      match kind with
      | .input =>
        match FileSystem.canonicalize files c.directory path with
        | .ok place => return .ok (← inputOf (files.contentAt place))
        | .error e => return .error (openingComplaint false path e)
      | .append =>
        match FileSystem.openForAppending files c.directory path with
        | .ok (place, files) =>
          changeWorld fun w => { w with files := files }
          return .ok (.file place)
        | .error e => return .error (openingComplaint true path e)
      | _ =>
        match FileSystem.placeForWriting files c.directory path with
        | .ok place =>
          changeWorld fun w => { w with files := files.setContent place [] }
          return .ok (.file place)
        | .error e => return .error (openingComplaint true path e)

/-- Leads descriptors elsewhere; the result is a complaint if that fails. -/
def redirect (inner : Runner) : List Redirection → Exec (Option String)
  | [] => return none
  | .given n text :: rest => do
    let content ← expandText inner text
    let d ← inputOf (Utf8.encode content)
    changeContext fun c => c.withDescriptor n (some d)
    redirect inner rest
  | .path n .duplicate target :: rest => do
    let text ← expandText inner target
    let c ← context
    if text = "-" then
      changeContext fun c => c.withDescriptor n none
      redirect inner rest
    else if !text.isEmpty && text.toList.all Char.isDigit then
      match c.descriptor? (Utility.Print.decimalValue text.toList) with
      | some d =>
        changeContext fun c => c.withDescriptor n (some d)
        redirect inner rest
      | none => return some s!"{text}: Bad file descriptor"
    else abort "Syntax error: Bad fd number"
  | .path n kind target :: rest => do
    let path ← expandText inner target
    match ← openPath kind path with
    | .error text => return some text
    | .ok d =>
      changeContext fun c => c.withDescriptor n (some d)
      redirect inner rest

/-- Runs steps with descriptors led elsewhere. -/
def redirecting (inner : Runner) (isSpecial : Bool) (redirections : List Redirection)
    (steps : Exec Unit) : Exec Unit := do
  let saved := (← context).descriptors
  let left ← attempt do
    match ← redirect inner redirections with
    | none => steps
    | some text =>
      changeContext fun c => { c with descriptors := saved }
      complain text
      setStatus 2
      if isSpecial then leave (.exit 2)
  changeContext fun c => { c with descriptors := saved }
  match left with
  | some l => leave l
  | none => return

/-- Runs steps whose failure ends nothing. -/
def tested (steps : Exec Unit) : Exec Unit := do
  let before := (← context).isTested
  changeContext fun c => { c with isTested := true }
  let left ← attempt steps
  changeContext fun c => { c with isTested := before }
  match left with
  | some l => leave l
  | none => return

/-- Ends the shell after a failure, if it is to end then. -/
def stopOnFailure : Exec Unit := do
  let c ← context
  if c.stopsOnFailure && !c.isTested && c.status != 0 then leave (.exit c.status)

/-- Gives variables the values that they had. -/
def restoreVariables (saved : List (String × Option Variable)) : Exec Unit :=
  changeContext fun c => saved.foldl (fun c entry =>
    let c := c.unset entry.1
    match entry.2 with
    | some v => { c with bindings := v :: c.bindings }
    | none => c) c

/-- Runs steps with variables set and exported for them. -/
def withVariables (values : List (String × String)) (steps : Exec Unit) : Exec Unit := do
  let c ← context
  let saved := values.reverse.map fun entry => (entry.1, c.lookup entry.1)
  values.forM fun (name, value) =>
    changeContext fun c => (c.assign name value).exportVariable name
  let left ← attempt steps
  restoreVariables saved
  match left with
  | some l => leave l
  | none => return

/-- Calls a function with arguments. -/
def callFunction (inner : Runner) (body : Command) (arguments : List String) : Exec Unit := do
  let outer ← context
  changeContext fun c => { c with arguments := arguments, locals := some [] }
  let left ← attempt (inner body)
  restoreVariables ((← context).locals.getD [])
  changeContext fun c => { c with arguments := outer.arguments, locals := outer.locals }
  match left with
  | none => return
  | some .returned => return
  | some other => leave other

/-- What a name stands for, as a command that asks for it says; none if nothing does. -/
def meaning? (inner : Runner) (name : String) : Exec (Option String) := do
  let c ← context
  if (c.functions.any fun f => f.1 == name) || (plainBuiltin? inner name).isSome
      || name == "exec" || name == "command" || name == "type" then
    return some name
  else
    let files := (← world).files
    let isFile (path : String) : Bool := FileSystem.isFile files c.directory path
    if name.contains '/' then return if isFile name then some name else none
    else
      let searchPath := (c.value TestCommand.searchVariable).getD Launch.defaultSearchPath
      let candidates := (TestCommand.searchDirectories searchPath).map fun place =>
        PathText.join place name
      return candidates.find? isFile

/-- Words that the language itself knows. -/
def languageWords : List String :=
  closingWords ++ ["if", "while", "until", "for", "case", "in", "\x7b", "!"]

/-- Tells what names stand for. -/
def describeNames (inner : Runner) (names : List String) : Exec Unit := do
  let c ← context
  let found ← names.mapM fun name => do
    if languageWords.contains name then return (true, s!"{name} is a shell keyword")
    else if c.functions.any fun f => f.1 == name then
      return (true, s!"{name} is a shell function")
    else
      match ← meaning? inner name with
      | none => return (false, s!"{name}: not found")
      | some path =>
        if specialNames.contains name then return (true, s!"{name} is a special shell builtin")
        else if path = name && !name.contains '/' then
          return (true, s!"{name} is a shell builtin")
        else return (true, s!"{name} is {path}")
  let _ ← write 1 (Utility.linesOf (found.map (·.2)))
  setStatus (if found.all (·.1) then 0 else 127)

/-- Runs a program in the environment of the shell. -/
def runExternal (inner : Runner) (complaintStart name : String) (arguments : List String) :
    Exec Unit := do
  runProgram inner complaintStart name arguments (← context).environment

/-- Runs the command of a name. -/
def runNamed (inner : Runner) (withFunctions : Bool) (name : String) (arguments : List String) :
    Exec Unit := do
  let c ← context
  match (if withFunctions then c.functions.find? fun f => f.1 == name else none) with
  | some (_, body) => callFunction inner body arguments
  | none =>
    match plainBuiltin? inner name with
    | some run => run arguments
    | none => runExternal inner "" name arguments

/-- Runs a command that may be about another one. -/
def runPrefixed (inner : Runner) (name : String) (arguments : List String) : Exec Unit := do
  match name, arguments with
  | "exec", program :: rest =>
    runExternal inner "exec: " program rest
    leave (.exit (← context).status)
  | "exec", [] => setStatus 0
  | "command", "-v" :: names =>
    let found ← names.mapM (meaning? inner)
    let _ ← write 1 (Utility.linesOf (found.filterMap id))
    setStatus (if found.all Option.isSome then 0 else 127)
  | "type", names => describeNames inner names
  | "command", rest =>
    match rest.filter fun argument => argument != "-p" && argument != "--" with
    | [] => setStatus 0
    | name :: rest => runNamed inner false name rest
  | _, _ => runNamed inner true name arguments

/-- The values of assignments, expanded in order. -/
def expandAssignments (inner : Runner) (assignments : List (String × Word)) :
    Exec (List (String × String)) :=
  assignments.mapM fun (name, w) => do return (name, ← expandText inner w)

/-- Sets variables one after the other, each before the next value is expanded. -/
def assignAll (inner : Runner) (assignments : List (String × Word)) : Exec Unit :=
  assignments.forM fun (name, w) => do assignOrAbort name (← expandText inner w)

/-- Runs a simple command. -/
def runSimple (inner : Runner) (line : Nat) (assignments : List (String × Word))
    (words : List Word) (redirections : List Redirection) : Exec Unit := do
  changeContext fun c => { c with line := line, substituted := 0 }
  let fields ← words.mapM (expandFields inner)
  match fields.flatten with
  | [] =>
    redirecting inner false redirections do
      assignAll inner assignments
      setStatus (← context).substituted
  | ["exec"] =>
    assignAll inner assignments
    match ← redirect inner redirections with
    | none => setStatus 0
    | some text => abort text
  | name :: arguments =>
    let isSpecial := specialNames.contains name
      && !((← context).functions.any fun f => f.1 == name)
    redirecting inner isSpecial redirections do
      if isSpecial then
        assignAll inner assignments
        runPrefixed inner name arguments
      else
        let values ← expandAssignments inner assignments
        withVariables values (runPrefixed inner name arguments)

/-- Runs the stages of a pipeline, each with the output of the one before it. -/
def runStages (inner : Runner) : Option Descriptor → List Command → Exec Unit
  | _, [] => return
  | input, [last] => isolated inner do
    match input with
    | some d => changeContext fun c => c.withDescriptor 0 (some d)
    | none => pure ()
    inner last
  | input, stage :: rest => do
    let output ← captured inner do
      match input with
      | some d => changeContext fun c => c.withDescriptor 0 (some d)
      | none => pure ()
      inner stage
    let d ← inputOf output
    runStages inner (some d) rest

/-- Whether the loop around a body goes on after the body was left; loops further out are left
here. -/
def continuesAfter (left : Option Leave) : Exec Bool := do
  match left with
  | none => return true
  | some (.breakLoop levels) =>
    if 1 < levels then leave (.breakLoop (levels - 1))
    else
      setStatus 0
      return false
  | some (.continueLoop levels) =>
    if 1 < levels then leave (.continueLoop (levels - 1)) else return true
  | some other => leave other

/-- Runs the body of a loop. -/
def runBody (inner : Runner) (body : Command) : Exec (Option Leave) := do
  changeContext fun c => { c with loops := c.loops + 1 }
  let left ← attempt (inner body)
  changeContext fun c => { c with loops := c.loops - 1 }
  return left

/-- Runs a loop; `last` is the status of its body so far. -/
def runLoop (inner : Runner) (untilSuccess : Bool) (test body : Command) :
    Nat → UInt8 → Exec Unit
  | 0, _ => leave .exhausted
  | budget + 1, last => do
    let testing ← attempt (tested (inner test))
    if ← continuesAfter testing then
      if ((← context).status == 0) != untilSuccess then
        let left ← runBody inner body
        if ← continuesAfter left then
          runLoop inner untilSuccess test body budget (← context).status
      else setStatus last

/-- Runs a command for each of some values. -/
def runEach (inner : Runner) (name : String) (body : Command) : List String → Exec Unit
  | [] => return
  | value :: rest => do
    assignOrAbort name value
    let left ← runBody inner body
    if ← continuesAfter left then runEach inner name body rest

/-- Whether a text matches one of some patterns. -/
def matchesAny (inner : Runner) (text : String) : List Word → Exec Bool
  | [] => return false
  | w :: rest => do
    let pattern ← expandPattern inner w
    if Glob.isMatch pattern (Utf8.encode text) then return true
    else matchesAny inner text rest

/-- Runs the first clause that has a matching pattern. -/
def runClauses (inner : Runner) (text : String) : List (List Word × Command) → Exec Unit
  | [] => setStatus 0
  | (patterns, body) :: rest => do
    if ← matchesAny inner text patterns then
      match body with
      | .nothing => setStatus 0
      | body => inner body
    else runClauses inner text rest

/-- Whether a command succeeded. -/
def succeeded : Exec Bool := do return (← context).status == 0

/-- Runs one command, the commands inside it with a given runner. -/
def step (inner : Runner) : Runner
  | .nothing => return
  | .simple line assignments words redirections => do
    runSimple inner line assignments words redirections
    stopOnFailure
  | .pipeline stages => do
    runStages inner none stages
    stopOnFailure
  | .negated c => do
    tested (inner c)
    setStatus (if ← succeeded then 1 else 0)
  | .conjunction left right => do
    tested (inner left)
    if ← succeeded then inner right
  | .disjunction left right => do
    tested (inner left)
    if !(← succeeded) then inner right
  | .sequence first second => do
    inner first
    inner second
  | .background c => do
    isolated inner do
      changeContext fun context => context.withDescriptor 0 (some .null)
      inner c
    setStatus 0
  | .conditional test yes no => do
    tested (inner test)
    if ← succeeded then inner yes
    else
      match no with
      | .nothing => setStatus 0
      | no => inner no
  | .loop untilSuccess test body => runLoop inner untilSuccess test body loopBudget 0
  | .each name words body => do
    let values ← match words with
      | some words => do
        let fields ← words.mapM (expandFields inner)
        pure fields.flatten
      | none => do pure (← context).arguments
    if values.isEmpty then setStatus 0 else runEach inner name body values
  | .choice subject clauses => do
    let text ← expandText inner subject
    runClauses inner text clauses
  | .subshell c => do
    isolated inner (inner c)
    stopOnFailure
  | .redirected line c redirections => do
    changeContext fun context => { context with line := line }
    redirecting inner false redirections (inner c)
  | .definition name body => do
    changeContext fun c =>
      { c with functions := (name, body) :: c.functions.filter fun f => f.1 != name }
    setStatus 0

/-- Runs commands that are nested no deeper than a budget, so running ends for every script. -/
def run : Nat → Runner
  | 0, _ => leave .exhausted
  | budget + 1, c => step (run budget) c

end Shell

end CommitVerdict
