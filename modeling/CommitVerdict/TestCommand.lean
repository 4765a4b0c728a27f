import CommitVerdict.Config
import CommitVerdict.Host
import CommitVerdict.Text.Blank
import CommitVerdict.VerificationError

namespace CommitVerdict

/-- The command that runs a suite. -/
structure TestCommand where
  program : String
  arguments : List String
deriving DecidableEq, Repr

namespace TestCommand

def ofParts : List String → Except CommandError TestCommand
  | [] => .error .emptyCommand
  | program :: arguments =>
    if isBlankText program then .error .emptyCommand else .ok ⟨program, arguments⟩

/-- The program and its arguments. -/
def parts (c : TestCommand) : List String := c.program :: c.arguments

/-- How the command is shown. -/
def name (c : TestCommand) : String := " ".intercalate c.parts

/-- The command that is run if no other is given: it lets the suite be discovered. -/
def default : TestCommand :=
  ⟨ProjectConfig.defaultTestCommand.headD "", ProjectConfig.defaultTestCommand.tail⟩

/-- The variable that holds the search path. -/
def searchVariable : String := "PATH"

/-- The directories of a search path; an empty one is the current directory. -/
def searchDirectories (path : String) : List String := path.splitOn ":"

/-- Whether the program can be found from a directory of the machine. An absolute path must lead to a file, a
relative path with several components is only known once a clone exists and is taken on trust, and a plain
name must be that of a file in one of the directories of the search path. -/
def isAvailable (c : TestCommand) (host : Host) (directory : Path) : Bool :=
  if PathText.isAbsolute c.program then host.files.isFile directory c.program
  else if 1 < (PathText.components c.program).length then true
  else
    match host.variableValue searchVariable with
    | none => false
    | some path =>
      (searchDirectories path).any fun place =>
        host.files.isFile directory (PathText.join place c.program)

end TestCommand

end CommitVerdict
