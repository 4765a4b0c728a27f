import CommitVerdict.Description
import CommitVerdict.Session

namespace CommitVerdict

namespace Description

/-- The time that events get when the machine has no clock. -/
def noTime : Stamp := ⟨"00:00:00", "1970-01-01T00:00:00+00:00"⟩

/-- The files of a machine, the directories of its repositories included. -/
def machineFiles (j : Json) : FileSystem :=
  let holders := (((field j "repositories").map fields).getD []).map fun entry =>
    (PathText.join entry.1 WorkingCopy.dataName, Planting.directory)
  let others := ((field j "files").map plantings).getD []
  Image.installed.plantAll [] (("/tmp", Planting.directory) :: holders ++ others)

/-- The machine that a document describes. Its programs are always the same. -/
def machine (j : Json) : Host where
  files := machineFiles j
  repositories := (((field j "repositories").map fields).getD []).map fun entry =>
    (Path.ofText entry.1, repository entry.2)
  environment :=
    let given := (((field j "environment").map fields).getD []).map fun entry =>
      (entry.1, text entry.2)
    given.foldl (fun environment entry => Launch.setVariable environment entry.1 entry.2)
      [(TestCommand.searchVariable, Image.searchPath)]

/-- Where a session takes place that a document describes. -/
def surroundings (j : Json) : Surroundings where
  host := machine j
  directory := Path.ofText (((field j "directory").map text).getD "/")
  workspaceRoot := "/tmp/" ++ Workspace.nameStart ++ "workspace"
  clock := fun _ => noTime
  runTime := .zero
  totalTime := .zero

end Description

end CommitVerdict
