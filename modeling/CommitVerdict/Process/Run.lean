import CommitVerdict.Shell.Interpreter

namespace CommitVerdict

/-- A program to be run in a directory with an environment. -/
structure ProcessRequest where
  program : String
  arguments : List String
  directory : String
  environment : List (String × String)
deriving DecidableEq, Repr

namespace ProcessRequest

/-- The number of the process that starts programs. -/
def parentProcess : Nat := 4000

/-- The signal that ends what cannot be ended otherwise. -/
def killSignal : Nat := 9

/-- Whether a text has the character that ends texts for the system. -/
def hasNul (text : String) : Bool := text.contains '\x00'

/-- Whether some text of the request cannot be handed to the system. -/
def isRefused (r : ProcessRequest) : Bool :=
  hasNul r.program || r.arguments.any hasNul || hasNul r.directory
    || r.environment.any fun entry => hasNul entry.1 || hasNul entry.2

/-- The channel of an output stream. -/
def channelOf : OutputStream → Nat
  | .stdout => 1
  | .stderr => 2

/-- The stream that a channel collects. -/
def streamOf? (channel : Nat) : Option OutputStream :=
  if channel = channelOf .stdout then some .stdout
  else if channel = channelOf .stderr then some .stderr
  else none

/-- The state in which a program starts. -/
def initialState (files : FileSystem) (directory : Path) : Shell.State where
  world := ⟨files, [], [], 3⟩
  context :=
    { name := ""
      process := parentProcess
      arguments := []
      bindings := []
      functions := []
      directory := directory
      descriptors := [(0, .null), (1, .channel 1), (2, .channel 2)]
      status := 0
      line := 0
      substituted := 0
      traps := []
      stopsOnFailure := false
      requiresParameters := false
      isTested := false
      loops := 0
      locals := none }

/-- What is written to a stream, from what has been written to channels in order. -/
def transmission (written : List (Nat × Bytes)) (stream : OutputStream) : Transmission where
  chunks := (written.filter fun (channel, _) => channel == channelOf stream).map (·.2)
  breaks := false

/-- The moves by which each chunk is read as soon as it arrives. -/
def promptMoves (written : List (Nat × Bytes)) : List Capture.Move :=
  written.flatMap fun (channel, bytes) =>
    match streamOf? channel with
    | some stream =>
      .arrive stream :: List.replicate (bytes.count LineMarks.bytes.feed + 1) (.poll stream)
    | none => []

/-- What is read of what has been written to channels in order. -/
def reception (written : List (Nat × Bytes)) : Reception where
  output := ⟨transmission written .stdout, transmission written .stderr⟩
  moves := promptMoves written

/-- Runs a target in a directory. -/
def runIn (files : FileSystem) (directory : Path) (target : Launch.Target) :
    ProcessFate × FileSystem :=
  let runner := Shell.run Shell.nestingBudget
  let (result, state) := (Shell.runTarget runner target).run (initialState files directory)
  let status := match result with
    | .ok status => status
    | .error _ => .signal killSignal
  (.ended (reception state.world.written.reverse) status, state.world.files)

/-- Runs a program: what becomes of it, and the files after it. It gets an empty input, and what it and its
children write to the two output streams arrives in the order in which it was written. -/
def run (r : ProcessRequest) (files : FileSystem) : ProcessFate × FileSystem :=
  if r.isRefused then (.notStarted .nulByte, files)
  else
    match FileSystem.canonicalize files [] r.directory with
    | .error e => (.notStarted e, files)
    | .ok directory =>
      if !files.isDirectoryAt directory then (.notStarted .notDirectory, files)
      else
        match Launch.resolve files directory (Launch.searchPathOf r.environment) r.program
            r.arguments with
        | .error e => (.notStarted e, files)
        | .ok loaded =>
          runIn files directory
            (Launch.target files directory Shell.environmentDepth loaded r.environment)

end ProcessRequest

end CommitVerdict
