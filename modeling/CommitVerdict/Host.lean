import CommitVerdict.FileSystem
import CommitVerdict.Git.WorkingCopy

namespace CommitVerdict

/-- The machine on which a verification runs: its files, the repositories among them, and the variables of its
environment. -/
structure Host where
  files : FileSystem
  /-- The repositories, by the directories that hold their working files. -/
  repositories : List (Path × Repository)
  environment : List (String × String)

namespace Host

/-- The value of a variable of the environment. -/
def variableValue (h : Host) (name : String) : Option String :=
  (h.environment.find? fun entry => entry.1 == name).map (·.2)

/-- The repository whose working directory, or whose own data, stands at a path. -/
def repositoryAt? (h : Host) (p : Path) : Option Repository :=
  (h.repositories.find? fun entry => entry.1 == p || entry.1 ++ [WorkingCopy.dataName] == p).map
    (·.2)

def failed {α : Type} (cause : GitFailure) : Except GitError α := .error (.operationFailed cause)

/-- What every link file starts with. -/
def linkStart : List Char := "gitdir:".toList

/-- The path in a link file; none if the file does not have the form of one. -/
def linkTarget? (content : Bytes) : Option String :=
  let isSpace (c : Char) : Bool := (9 ≤ c.toNat && c.toNat ≤ 13) || c == ' '
  let text := ((Utf8.decodeLossy content).reverse.dropWhile isSpace).reverse
  if linkStart.isPrefixOf text && linkStart.length < text.length then
    some (String.ofList ((text.drop linkStart.length).dropWhile isSpace))
  else none

/-- The repository that a directory holds or leads to. -/
def openRepository (h : Host) (source : String) : Except GitError Repository := do
  let missing : Except GitError Repository := failed (.noRepository source)
  match h.files.canonicalize [] source with
  | .error _ => failed .unsupportedSource
  | .ok directory =>
    if !h.files.isDirectoryAt directory then failed .unsupportedSource
    else
      match h.repositoryAt? directory with
      | some repository => .ok repository
      | none =>
        let dataPath := PathText.join source WorkingCopy.dataName
        if !h.files.isFile [] dataPath then missing
        else
          match linkTarget? ((h.files.read [] dataPath).toOption.getD []) with
          | none => failed (.malformedLink dataPath)
          | some target =>
            let linked := PathText.join source target
            match h.files.canonicalize [] linked with
            | .error _ => failed (.danglingLink linked)
            | .ok found =>
              match h.repositoryAt? found with
              | some repository => .ok repository
              | none => missing

/-- Clones the repository of one directory into another one, which must be missing or empty. -/
def cloneInto (h : Host) (source destination : String) : Except GitError WorkingCopy := do
  if h.files.existsAt [] destination
      && !(match h.files.canonicalize [] destination with
        | .ok p => h.files.isDirectoryAt p && !h.files.hasBelow p
        | .error _ => false) then
    failed (.destinationOccupied destination)
  else
    let repository ← h.openRepository source
    .ok (.clone repository)

/-- Clones from a path given in bytes, which has to be text. -/
def cloneBytesInto (h : Host) (source : Bytes) (destination : String) :
    Except GitError WorkingCopy :=
  match Utf8.decode? source with
  | some text => h.cloneInto (String.ofList text) destination
  | none => .error (.pathNotText (Utf8.text source))

end Host

end CommitVerdict
