import CommitVerdict.Process.Run
import CommitVerdict.Suite

namespace CommitVerdict

namespace FileSystem

/-- Puts a directory at a place. -/
def mount (fs : FileSystem) (place : Path) (directory : Directory) : FileSystem :=
  let mounted := fs.graft place directory
  if mounted.contains place then mounted else mounted.put place .emptyDirectory

/-- The directory at a place. -/
def unmount (fs : FileSystem) (place : Path) : Directory := (fs.subtree place).removeLeaf []

end FileSystem

/-- A way to have programs run: what becomes of a request on some files, and the files after it. -/
abbrev Launcher := ProcessRequest → FileSystem → ProcessFate × FileSystem

namespace TestCommand

/-- What it takes to run the command in a directory. -/
def request (c : TestCommand) (directory : String) (environment : List (String × String)) :
    ProcessRequest :=
  ⟨c.program, c.arguments, directory, environment⟩

/-- The suite that has the command run in some way. The working directory stands at a place, and every
run takes some time. -/
def suiteBy (launch : Launcher) (c : TestCommand) (host : Host) (available : Bool) (place : Path)
    (elapsed : Duration) : Suite FileSystem where
  name := c.name
  program := c.program
  available := available
  invoke outside files :=
    let (fate, after) := launch (c.request place.toAbsolute host.environment)
      (outside.mount place files)
    ⟨fate.testRun elapsed, fate.lines, after.unmount place, after.removeBelow place⟩

/-- The suite that runs the command on a machine. It remembers the other files of the machine, since a command
may change them too. -/
def suite : TestCommand → Host → Bool → Path → Duration → Suite FileSystem := suiteBy ProcessRequest.run

end TestCommand

end CommitVerdict
