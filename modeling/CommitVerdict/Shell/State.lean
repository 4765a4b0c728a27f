import CommitVerdict.Process.Capture
import CommitVerdict.Process.Launch
import CommitVerdict.Shell.Command
import CommitVerdict.Shell.Field

namespace CommitVerdict

namespace Shell

/-- Where a descriptor leads. -/
inductive Descriptor where
  /-- A channel that collects what is written to it. -/
  | channel (number : Nat)
  /-- An input with the bytes that are left of it. -/
  | input (number : Nat)
  /-- The end of a file. -/
  | file (place : Path)
  | null
deriving DecidableEq, Repr

/-- What all processes share. -/
structure World where
  files : FileSystem
  inputs : List (Nat × Bytes)
  /-- What has been written to channels, the last first. -/
  written : List (Nat × Bytes)
  /-- The next number for an input or a channel. -/
  next : Nat

structure Variable where
  name : String
  /-- The value; a variable may be marked before it has one. -/
  value : Option String
  isExported : Bool
  isReadOnly : Bool
deriving DecidableEq, Repr

/-- What each shell has of its own. What runs in a shell of its own changes the world but not the context of
the shell around it. -/
structure Context where
  /-- The name of the shell or of its script. -/
  name : String
  process : Nat
  arguments : List String
  bindings : List Variable
  functions : List (String × Command)
  directory : Path
  descriptors : List (Nat × Descriptor)
  status : UInt8
  /-- The line of the command that is run. -/
  line : Nat
  /-- The status of the last script whose output was substituted. -/
  substituted : UInt8
  /-- What is run for signals, and at the end for number zero. -/
  traps : List (Nat × String)
  /-- Whether a failure ends the shell. -/
  stopsOnFailure : Bool
  /-- Whether an unset parameter ends the shell. -/
  requiresParameters : Bool
  /-- Whether the status is being tested, so that a failure ends nothing. -/
  isTested : Bool
  /-- How many loops are being run. -/
  loops : Nat
  /-- Variables that get their old values back at the end of a function; none outside functions. -/
  locals : Option (List (String × Option Variable))

structure State where
  world : World
  context : Context

/-- Why a command does not run to its end. -/
inductive Leave where
  | exit (status : UInt8)
  | signal (number : Nat)
  | breakLoop (levels : Nat)
  | continueLoop (levels : Nat)
  | returned
  /-- The shell has run longer than it is allowed to. -/
  | exhausted
deriving DecidableEq, Repr

/-- Steps of a shell. -/
abbrev Exec := ExceptT Leave (StateM State)

def context : Exec Context := do return (← get).context

def world : Exec World := do return (← get).world

def changeContext (f : Context → Context) : Exec Unit :=
  modify fun s => { s with context := f s.context }

def changeWorld (f : World → World) : Exec Unit := modify fun s => { s with world := f s.world }

def leave {α : Type} (l : Leave) : Exec α := throw l

def setStatus (status : UInt8) : Exec Unit := changeContext fun c => { c with status := status }

/-- Runs steps and returns how they were left. -/
def attempt (steps : Exec Unit) : Exec (Option Leave) :=
  tryCatch (do steps; return none) fun l => return some l

namespace Context

def descriptor? (c : Context) (n : Nat) : Option Descriptor :=
  (c.descriptors.find? fun entry => entry.1 == n).map (·.2)

def withDescriptor (c : Context) (n : Nat) (d : Option Descriptor) : Context :=
  let others := c.descriptors.filter fun entry => entry.1 != n
  match d with
  | some d => { c with descriptors := (n, d) :: others }
  | none => { c with descriptors := others }

def lookup (c : Context) (name : String) : Option Variable :=
  c.bindings.find? fun v => v.name == name

def value (c : Context) (name : String) : Option String := (c.lookup name).bind (·.value)

/-- Sets a variable, which stays exported if it was. -/
def assign (c : Context) (name value : String) : Context :=
  let others := c.bindings.filter fun v => v.name != name
  match c.lookup name with
  | some v => { c with bindings := { v with value := some value } :: others }
  | none => { c with bindings := ⟨name, some value, false, false⟩ :: others }

def unset (c : Context) (name : String) : Context :=
  { c with bindings := c.bindings.filter fun v => v.name != name }

/-- Changes the marks of a variable, which need not have a value. -/
def mark (c : Context) (name : String) (change : Variable → Variable) : Context :=
  let others := c.bindings.filter fun v => v.name != name
  let v := (c.lookup name).getD ⟨name, none, false, false⟩
  { c with bindings := change v :: others }

def exportVariable (c : Context) (name : String) : Context :=
  c.mark name fun v => { v with isExported := true }

/-- The environment of the programs that the shell starts. -/
def environment (c : Context) : Launch.Environment :=
  (c.bindings.filter (·.isExported)).reverse.filterMap fun v => v.value.map (v.name, ·)

/-- The variables that an environment makes. -/
def variablesOf (environment : Launch.Environment) : List Variable :=
  (environment.map fun entry => ⟨entry.1, some entry.2, true, false⟩).reverse

end Context

/-- A new number. -/
def freshNumber : Exec Nat := do
  let n := (← world).next
  changeWorld fun w => { w with next := n + 1 }
  return n

/-- Writes to a descriptor; the result says whether that was possible. -/
def write (n : Nat) (bytes : Bytes) : Exec Bool := do
  match (← context).descriptor? n with
  | some (.channel number) =>
    if !bytes.isEmpty then
      changeWorld fun w => { w with written := (number, bytes) :: w.written }
    return true
  | some (.file place) =>
    changeWorld fun w => { w with files := w.files.append place bytes }
    return true
  | some .null => return true
  | some (.input _) => return false
  | none => return false

def complain (text : String) : Exec Unit := do
  let c ← context
  let _ ← write 2 (Utf8.encode s!"{c.name}: {c.line}: {text}\n")

/-- The bytes that are left of the input of a descriptor. -/
def remaining (n : Nat) : Exec Bytes := do
  match (← context).descriptor? n with
  | some (.input number) =>
    return (((← world).inputs.find? fun entry => entry.1 == number).map (·.2)).getD []
  | _ => return []

/-- Leaves bytes in the input of a descriptor. -/
def setRemaining (n : Nat) (bytes : Bytes) : Exec Unit := do
  match (← context).descriptor? n with
  | some (.input number) =>
    changeWorld fun w =>
      { w with inputs := (number, bytes) :: w.inputs.filter fun entry => entry.1 != number }
  | _ => return

/-- A descriptor from which given bytes can be read. -/
def inputOf (bytes : Bytes) : Exec Descriptor := do
  let n ← freshNumber
  changeWorld fun w => { w with inputs := (n, bytes) :: w.inputs }
  return .input n

/-- What was written to a channel. -/
def World.channel (w : World) (n : Nat) : Bytes :=
  (w.written.reverse.filter fun entry => entry.1 == n).flatMap (·.2)

/-- Takes what was written to a channel. -/
def takeChannel (n : Nat) : Exec Bytes := do
  let content := (← world).channel n
  changeWorld fun w => { w with written := w.written.filter fun entry => entry.1 != n }
  return content

/-- The context in which a shell of its own starts: it keeps only the signals that are ignored. -/
def Context.forSubshell (c : Context) : Context :=
  { c with traps := c.traps.filter fun trap => trap.2.isEmpty }

/-- The signals by their names. -/
def signalNames : List (String × Nat) :=
  [("EXIT", 0), ("HUP", 1), ("INT", 2), ("QUIT", 3), ("ILL", 4), ("TRAP", 5), ("ABRT", 6),
   ("BUS", 7), ("FPE", 8), ("KILL", 9), ("USR1", 10), ("SEGV", 11), ("USR2", 12), ("PIPE", 13),
   ("ALRM", 14), ("TERM", 15), ("CHLD", 17), ("CONT", 18), ("STOP", 19), ("URG", 23), ("XCPU", 24),
   ("XFSZ", 25), ("VTALRM", 26), ("PROF", 27), ("WINCH", 28), ("SYS", 31)]

/-- The greatest number of a signal. -/
def lastSignal : Nat := 64

/-- The signals that do nothing if nothing is run for them. -/
def harmlessSignals : List Nat := [17, 18, 23, 28]

/-- What is said of a program that a signal ended. -/
def signalDescription : Nat → String
  | 1 => "Hangup"
  | 3 => "Quit"
  | 4 => "Illegal instruction"
  | 5 => "Trace/breakpoint trap"
  | 6 => "Aborted"
  | 7 => "Bus error"
  | 8 => "Floating point exception"
  | 9 => "Killed"
  | 10 => "User defined signal 1"
  | 11 => "Segmentation fault"
  | 12 => "User defined signal 2"
  | 14 => "Alarm clock"
  | 15 => "Terminated"
  | n => s!"Signal {n}"

/-- The number of a signal that is given by its name or its number. -/
def signalNumber? (text : String) : Option Nat :=
  match signalNames.find? fun entry => entry.1 == text || "SIG" ++ entry.1 == text with
  | some (_, n) => some n
  | none => if !text.isEmpty && text.toList.all Char.isDigit then text.toNat? else none

end Shell

end CommitVerdict
