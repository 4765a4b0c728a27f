import CommitVerdict.Leaf
import CommitVerdict.OsError
import CommitVerdict.PathText

namespace CommitVerdict

/-- A directory tree seen from its root. -/
abbrev FileSystem := Directory

namespace FileSystem

/-- How many links one look-up may follow. -/
def linkBudget : Nat := 40

/-- The names of a path in the order in which they are looked up. A trailing slash counts as a dot,
which only a directory has. -/
def steps (text : String) : List String :=
  let names := Path.ofText text
  if text.endsWith "/" && !names.isEmpty then names ++ ["."] else names

/-- Where the look-up of a path starts. -/
def origin (directory : Path) (text : String) : Path :=
  if PathText.isAbsolute text then [] else directory

/-- Looks up names from a directory on. Links are followed, a lone dot stays, and two dots go up. The last
name need not exist; whether a link of that name is followed is a choice. -/
def walk (fs : FileSystem) (follow : Bool) (budget : Nat) (names : List String) (done : Path) :
    Except OsError Path :=
  match names with
  | [] => .ok done
  | name :: rest =>
    if !fs.isDirectoryAt done then .error .notDirectory
    else if name = "." then walk fs follow budget rest done
    else if name = ".." then walk fs follow budget rest done.dropLast
    else
      let next := done ++ [name]
      match fs.get? next with
      | some (.entry (.link target)) =>
        if rest.isEmpty && !follow then .ok next
        else
          match budget with
          | 0 => .error .tooManyLinks
          | budget + 1 => walk fs follow budget (steps target ++ rest) (origin done target)
      | _ =>
        if rest.isEmpty || fs.contains next then walk fs follow budget rest next
        else .error .notFound
termination_by (budget, names.length)

/-- The place that a path means; its last name need not exist. -/
def place (fs : FileSystem) (directory : Path) (text : String) (follow : Bool) :
    Except OsError Path :=
  if text.isEmpty then .error .notFound
  else if text.contains '\x00' then .error .nulByte
  else walk fs follow linkBudget (steps text) (origin directory text)

/-- The place of something that exists, without links on the way to it. -/
def canonicalize (fs : FileSystem) (directory : Path) (text : String) : Except OsError Path := do
  let found ← place fs directory text true
  if fs.isDirectoryAt found || fs.contains found then .ok found else .error .notFound

/-- Whether a path leads to something. -/
def existsAt (fs : FileSystem) (directory : Path) (text : String) : Bool :=
  (canonicalize fs directory text).toBool

def isDirectory (fs : FileSystem) (directory : Path) (text : String) : Bool :=
  match canonicalize fs directory text with
  | .ok found => fs.isDirectoryAt found
  | .error _ => false

/-- Whether a path leads to a file. -/
def isFile (fs : FileSystem) (directory : Path) (text : String) : Bool :=
  match canonicalize fs directory text with
  | .ok found => !fs.isDirectoryAt found
  | .error _ => false

/-- The bytes of an entry that is no link. -/
def contentAt (fs : FileSystem) (p : Path) : Bytes :=
  match fs.entryAt? p with
  | some (.file content) => content
  | some (.executable content) => content
  | _ => []

/-- Reads a file. -/
def read (fs : FileSystem) (directory : Path) (text : String) : Except OsError Bytes := do
  let found ← canonicalize fs directory text
  if fs.isDirectoryAt found then .error .isDirectory else .ok (contentAt fs found)

/-- The place of a file that is to be opened for writing, and that is made if it is missing. -/
def placeForWriting (fs : FileSystem) (directory : Path) (text : String) :
    Except OsError Path := do
  let found ← place fs directory text true
  if fs.isDirectoryAt found then .error .isDirectory else .ok found

/-- Gives a file at a place its content; an executable file stays one. -/
def setContent (fs : FileSystem) (p : Path) (content : Bytes) : FileSystem :=
  match fs.entryAt? p with
  | some (.executable _) => fs.put p (.entry (.executable content))
  | _ => fs.put p (.entry (.file content))

/-- Replaces the content of a file, which is made if it is missing. -/
def write (fs : FileSystem) (directory : Path) (text : String) (content : Bytes) :
    Except OsError FileSystem := do
  let found ← placeForWriting fs directory text
  .ok (setContent fs found content)

/-- Opens a file for writing at its end: its place and its file system, in which it exists. -/
def openForAppending (fs : FileSystem) (directory : Path) (text : String) :
    Except OsError (Path × FileSystem) := do
  let found ← placeForWriting fs directory text
  .ok (found, setContent fs found (contentAt fs found))

/-- Adds bytes to the end of a file. -/
def append (fs : FileSystem) (p : Path) (content : Bytes) : FileSystem :=
  setContent fs p (contentAt fs p ++ content)

/-- A path without trailing slashes. -/
def withoutTrailingSlashes (text : String) : String :=
  let trimmed := (text.toList.reverse.dropWhile (· == '/')).reverse
  if trimmed.isEmpty then text else String.ofList trimmed

/-- Makes one directory, where there must be nothing yet. -/
def makeDirectory (fs : FileSystem) (directory : Path) (text : String) :
    Except OsError FileSystem := do
  let found ← place fs directory (withoutTrailingSlashes text) false
  if fs.isDirectoryAt found || fs.contains found then .error .exists
  else .ok (fs.put found .emptyDirectory)

/-- Joins components from the last to the first into a path. -/
def joinReversed (components : List String) : String :=
  match components.reverse with
  | "/" :: names => "/" ++ "/".intercalate names
  | names => "/".intercalate names

/-- Makes a directory and those above it that are missing; its components are given from the last to
the first. What has been made stays when the rest cannot be made. -/
def makeDirectoriesReversed (fs : FileSystem) (directory : Path) :
    List String → Except OsError Unit × FileSystem
  | [] => (.ok (), fs)
  | last :: parents =>
    let text := joinReversed (last :: parents)
    match makeDirectory fs directory text with
    | .ok made => (.ok (), made)
    | .error .notFound =>
      match makeDirectoriesReversed fs directory parents with
      | (.error e, above) => (.error e, above)
      | (.ok (), above) =>
        match makeDirectory above directory text with
        | .ok made => (.ok (), made)
        | .error e => (if isDirectory above directory text then .ok () else .error e, above)
    | .error e => (if isDirectory fs directory text then .ok () else .error e, fs)

/-- Makes a directory and those above it that are missing, as far as that is possible. -/
def attemptDirectories (fs : FileSystem) (directory : Path) (text : String) :
    Except OsError Unit × FileSystem :=
  makeDirectoriesReversed fs directory (PathText.components text).reverse

/-- Makes a directory and those above it that are missing. -/
def makeDirectories (fs : FileSystem) (directory : Path) (text : String) :
    Except OsError FileSystem :=
  let (made, fs) := attemptDirectories fs directory text
  made.map fun _ => fs

/-- Removes what a path names, with everything below it; a link is removed, not followed. -/
def removeAll (fs : FileSystem) (directory : Path) (text : String) : FileSystem :=
  match place fs directory (withoutTrailingSlashes text) false with
  | .ok found => fs.removeAt found
  | .error _ => fs

end FileSystem

/-- Something to be put into a file system. -/
inductive Planting where
  | entry (e : Entry)
  | directory
deriving DecidableEq, Repr

namespace FileSystem

/-- Puts one thing at a path, and the directories above it. -/
def plant (fs : FileSystem) (directory : Path) (text : String) (planting : Planting) :
    Except OsError FileSystem := do
  match planting with
  | .directory => makeDirectories fs directory text
  | .entry e =>
    let fs ← makeDirectories fs directory ((PathText.parent? text).getD "")
    match e with
    | .file content => write fs directory text content
    | .executable content =>
      let found ← placeForWriting fs directory text
      .ok (fs.put found (.entry (.executable content)))
    | .link target =>
      let found ← place fs directory text false
      if fs.isDirectoryAt found || fs.contains found then .error .exists
      else .ok (fs.put found (.entry (.link target)))

/-- Puts things one after the other; what cannot be put is left out. -/
def plantAll (fs : FileSystem) (directory : Path) (plantings : List (String × Planting)) :
    FileSystem :=
  plantings.foldl (fun fs row => (plant fs directory row.1 row.2).toOption.getD fs) fs

end FileSystem

end CommitVerdict
