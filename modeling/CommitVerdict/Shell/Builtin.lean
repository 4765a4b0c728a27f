import CommitVerdict.Shell.Program

namespace CommitVerdict

namespace Shell

/-- The commands before which an assignment stays, and in which a fault ends the shell. -/
def specialNames : List String :=
  [":", ".", "break", "continue", "eval", "exec", "exit", "export", "readonly", "return", "set",
   "shift", "times", "trap", "unset"]

/-- The number that an argument writes; another argument ends the shell. -/
def numberOrAbort (name argument : String) : Exec Nat :=
  if !argument.isEmpty && argument.toList.all Char.isDigit then
    return Utility.Print.decimalValue argument.toList
  else abort s!"{name}: Illegal number: {argument}"

/-- Splits an assignment at its equals sign. -/
def splitAssignment (argument : String) : String × Option String :=
  let name := argument.toList.takeWhile fun c => c != '='
  if name.length < argument.length then
    (String.ofList name, some (String.ofList (argument.toList.drop (name.length + 1))))
  else (argument, none)

/-- Sets a variable, unless it is read-only. -/
def assignOrAbort (name value : String) : Exec Unit := do
  match (← context).lookup name with
  | some ⟨_, _, _, true⟩ => abort s!"{name}: is read only"
  | _ => changeContext fun c => c.assign name value

/-- Changes the directory of the shell. -/
def changeDirectory (arguments : List String) : Exec Unit := do
  let c ← context
  let files := (← world).files
  let operands := arguments.filter fun argument => argument != "--" && argument != "-P"
    && argument != "-L"
  let target := match operands with
    | [] => (c.value "HOME").getD ""
    | "-" :: _ => (c.value "OLDPWD").getD ""
    | path :: _ => path
  match FileSystem.canonicalize files c.directory target with
  | .ok place =>
    if files.isDirectoryAt place then
      changeContext fun c =>
        ({ c with directory := place }.assign "OLDPWD" c.directory.toAbsolute).assign "PWD"
          place.toAbsolute
      setStatus 0
      if operands.head? = some "-" then
        let _ ← write 1 (Utility.linesOf [place.toAbsolute])
    else
      complain s!"cd: can't cd to {target}"
      setStatus 2
  | .error _ =>
    complain s!"cd: can't cd to {target}"
    setStatus 2

/-- Marks variables, which may be set at the same time. -/
def mark (change : Variable → Variable) (arguments : List String) : Exec Unit := do
  arguments.forM fun argument => do
    let (name, value) := splitAssignment argument
    match value with
    | some value => assignOrAbort name value
    | none => pure ()
    changeContext fun c => c.mark name change
  setStatus 0

/-- Turns options of the shell on or off. -/
def setOption (isOn : Bool) (letter : Char) : Exec Unit :=
  match letter with
  | 'e' => changeContext fun c => { c with stopsOnFailure := isOn }
  | 'u' => changeContext fun c => { c with requiresParameters := isOn }
  | _ => return

/-- Sets options and arguments of the shell. -/
def setArguments : List String → Exec Unit
  | [] => setStatus 0
  | argument :: rest =>
    match argument.toList with
    | ['-', '-'] => do
      changeContext fun c => { c with arguments := rest }
      setStatus 0
    | ['-', 'o'] => do
      match rest with
      | "errexit" :: _ => setOption true 'e'
      | "nounset" :: _ => setOption true 'u'
      | name :: _ => abort s!"set: Illegal option -o {name}"
      | [] => setStatus 0
    | '-' :: letter :: letters => do
      (letter :: letters).forM (setOption true)
      setArguments rest
    | '+' :: letter :: letters => do
      (letter :: letters).forM (setOption false)
      setArguments rest
    | _ => do
      changeContext fun c => { c with arguments := argument :: rest }
      setStatus 0

/-- Drops the first arguments of the shell. -/
def shiftArguments (arguments : List String) : Exec Unit := do
  let n ← match arguments with
    | [] => pure 1
    | argument :: _ => numberOrAbort "shift" argument
  let c ← context
  if c.arguments.length < n then abort "shift: can't shift that many"
  else
    changeContext fun c => { c with arguments := c.arguments.drop n }
    setStatus 0

/-- Assigns the fields of a line to variables; the last one gets all that is left. -/
def assignFields (separators : List Char) : List String → List Char → Exec Unit
  | [], _ => return
  | [name], cs => do
    let isBlank (c : Char) : Bool := separators.contains c && Field.isBlankSeparator c
    let value := ((cs.dropWhile isBlank).reverse.dropWhile isBlank).reverse
    assignOrAbort name (String.ofList value)
  | name :: more, cs => do
    let isSeparator (c : Char) : Bool := separators.contains c
    let isBlank (c : Char) : Bool := isSeparator c && Field.isBlankSeparator c
    let cs := cs.dropWhile isBlank
    let value := cs.takeWhile fun c => !isSeparator c
    let rest := (cs.drop value.length).dropWhile isBlank
    let rest := match rest with
      | c :: others => if isSeparator c then others.dropWhile isBlank else rest
      | [] => []
    assignOrAbort name (String.ofList value)
    assignFields separators more rest

/-- Takes backslashes out of a line. -/
def withoutBackslashes : List Char → List Char
  | '\\' :: c :: rest => c :: withoutBackslashes rest
  | c :: rest => c :: withoutBackslashes rest
  | [] => []

/-- Reads a line of the input into variables; the status tells whether the line was complete. -/
def readVariables (arguments : List String) : Exec Unit := do
  let (letters, names) := Utility.options arguments
  let input ← remaining 0
  let line := input.takeWhile fun b => b != 10
  let isComplete := line.length < input.length
  setRemaining 0 (input.drop (line.length + 1))
  let cs := Utf8.decodeLossy (line.filter fun b => b != 0)
  let cs := if letters.contains 'r' then cs else withoutBackslashes cs
  assignFields (← context).separators names cs
  setStatus (if isComplete then 0 else 1)

/-- Sends a signal to the shell itself. -/
def sendSignal (inner : Runner) (number : Nat) : Exec Unit := do
  let c ← context
  if number = 0 then setStatus 0
  else
    match c.traps.find? fun trap => trap.1 == number && number != 9 with
    | some (_, action) =>
      setStatus 0
      runScript inner action.toList
      setStatus 0
    | none => if harmlessSignals.contains number then setStatus 0 else leave (.signal number)

/-- Prints the names of signals that are given by their numbers or by a status. -/
def listSignals (arguments : List String) : Exec Unit := do
  let names := arguments.filterMap fun argument => do
    let number ← signalNumber? argument
    let entry ← signalNames.find? fun row => row.2 == number || row.2 + 128 == number
    some entry.1
  let _ ← write 1 (Utility.linesOf names)
  setStatus 0

/-- Sends signals to processes, of which only the shell itself can be reached. -/
def kill (inner : Runner) (arguments : List String) : Exec Unit := do
  if arguments.head? = some "-l" then listSignals arguments.tail else
  let (signal, targets) := match arguments with
    | "-s" :: name :: rest => (name, rest)
    | "--" :: rest => ("TERM", rest)
    | argument :: rest =>
      if argument.startsWith "-" then (String.ofList (argument.toList.drop 1), rest)
      else ("TERM", argument :: rest)
    | [] => ("TERM", [])
  let refuse (text : String) : Exec Unit := do
    complain text
    setStatus 2
  match (signalNumber? signal).filter fun number => number ≤ lastSignal with
  | none =>
    let letter := String.ofList (signal.toList.take 1)
    refuse s!"kill: Illegal option -{letter}"
  | some number =>
    if targets.isEmpty then refuse "kill: No process or job ID specified"
    else
      targets.forM fun target => do
        if target = toString (← context).process || target = "0" then sendSignal inner number
        else
          complain "kill: No such process\n"
          setStatus 1

/-- Says what is run for signals and at the end. -/
def setTraps (arguments : List String) : Exec Unit := do
  let forget (names : List String) : Exec Unit := do
    let numbers := names.filterMap signalNumber?
    changeContext fun c =>
      { c with traps := c.traps.filter fun trap => !numbers.contains trap.1 }
  match arguments.filter fun argument => argument != "--" with
  | [] => setStatus 0
  | action :: names =>
    if action = "-" then forget names
    else if names.isEmpty || (signalNumber? action).isSome && action.toList.all Char.isDigit then
      forget (action :: names)
    else
      forget names
      let numbers := names.filterMap signalNumber?
      changeContext fun c => { c with traps := numbers.map (·, action) ++ c.traps }
    setStatus (if (names.filterMap signalNumber?).length = names.length then 0 else 1)

/-- Makes variables local to the function that is run. -/
def makeLocal (arguments : List String) : Exec Unit := do
  if (← context).locals.isNone then abort "local: not in a function"
  else
    arguments.forM fun argument => do
      let (name, value) := splitAssignment argument
      changeContext fun c =>
        { c with locals := c.locals.map fun saved => (name, c.lookup name) :: saved }
      match value with
      | some value => assignOrAbort name value
      | none => pure ()
    setStatus 0

/-- Runs the commands of a file in this shell. -/
def runFile (inner : Runner) (arguments : List String) : Exec Unit := do
  match arguments with
  | [] => setStatus 0
  | name :: _ =>
    let c ← context
    let files := (← world).files
    let isFile (path : String) : Bool := FileSystem.isFile files c.directory path
    let candidates := if name.contains '/' then [name]
      else
        (TestCommand.searchDirectories ((c.value TestCommand.searchVariable).getD "")).map
          fun place => PathText.join place name
    let path := (candidates.find? isFile).getD name
    match FileSystem.read files c.directory path with
    | .ok content =>
      setStatus 0
      match ← attempt (runScript inner (Utf8.decodeLossy content)) with
      | none => return
      | some .returned => return
      | some other => leave other
    | .error _ =>
      if name.contains '/' then abort s!".: cannot open {name}: No such file"
      else abort s!".: {name}: not found"

/-- Ends the shell. -/
def exitShell (arguments : List String) : Exec Unit := do
  match arguments with
  | [] => leave (.exit (← context).status)
  | argument :: _ =>
    let n ← numberOrAbort "exit" argument
    leave (.exit (UInt8.ofNat n))

/-- Leaves a function. -/
def returnFromFunction (arguments : List String) : Exec Unit := do
  match arguments with
  | [] => leave .returned
  | argument :: _ =>
    let n ← numberOrAbort "return" argument
    setStatus (UInt8.ofNat n)
    leave .returned

/-- Leaves loops, or starts them again; outside loops it does nothing. -/
def leaveLoops (name : String) (how : Nat → Leave) (arguments : List String) : Exec Unit := do
  let levels ← match arguments with
    | [] => pure 1
    | argument :: _ => numberOrAbort name argument
  let loops := (← context).loops
  if loops = 0 then setStatus 0 else leave (how (min levels loops))

/-- Runs a utility as a command of the shell. -/
def runOwnUtility (utility : Utility) (name : String) (arguments : List String) : Exec Unit := do
  let c ← context
  runUtility utility s!"{name}: I/O error" s!"{c.name}: {c.line}: {name}" arguments

/-- The commands of the shell that need nothing but their arguments. -/
def plainBuiltin? (inner : Runner) (name : String) : Option (List String → Exec Unit) :=
  match name with
  | ":" => some fun _ => setStatus 0
  | "true" => some fun _ => setStatus 0
  | "false" => some fun _ => setStatus 1
  | "echo" => some (runOwnUtility (Utility.echo .shell) name)
  | "printf" => some (runOwnUtility (Utility.printf .shell) name)
  | "test" => some (runOwnUtility Utility.test name)
  | "[" => some (runOwnUtility Utility.test name)
  | "pwd" => some (runOwnUtility Utility.pwd name)
  | "cd" => some changeDirectory
  | "exit" => some exitShell
  | "return" => some returnFromFunction
  | "break" => some (leaveLoops name .breakLoop)
  | "continue" => some (leaveLoops name .continueLoop)
  | "export" => some (mark fun v => { v with isExported := true })
  | "readonly" => some (mark fun v => { v with isReadOnly := true })
  | "unset" => some fun arguments => do
    let (letters, names) := Utility.options arguments
    if letters.contains 'f' then
      changeContext fun c =>
        { c with functions := c.functions.filter fun f => !names.contains f.1 }
    else changeContext fun c => names.foldl Context.unset c
    setStatus 0
  | "set" => some setArguments
  | "shift" => some shiftArguments
  | "read" => some readVariables
  | "kill" => some (kill inner)
  | "trap" => some setTraps
  | "local" => some makeLocal
  | "eval" => some fun arguments => do
    setStatus 0
    runScript inner (" ".intercalate arguments).toList
  | "." => some (runFile inner)
  | "wait" => some fun _ => setStatus 0
  | "umask" => some fun arguments => do
    if arguments.isEmpty then
      let _ ← write 1 (Utility.linesOf ["0022"])
    setStatus 0
  | "times" => some fun _ => setStatus 0
  | "hash" => some fun _ => setStatus 0
  | "alias" => some fun _ => setStatus 0
  | "unalias" => some fun _ => setStatus 0
  | _ => none

end Shell

end CommitVerdict
