import CommitVerdict.FileSystem
import CommitVerdict.Logger

namespace CommitVerdict

namespace LogFile

/-- Makes the directories above a log file that are missing, as far as that is possible. -/
def attemptParent (fs : FileSystem) (directory : Path) (path : String) : Except OsError Unit × FileSystem :=
  match PathText.parent? path with
  | some parent => FileSystem.attemptDirectories fs directory parent
  | none => (.ok (), fs)

/-- What an attempt to open a log file comes to: its place, if it can be opened, and the files behind the
attempt. Directories that have been made for it stay when it cannot. -/
def attempt (fs : FileSystem) (directory : Path) (path : String) : Except OsError Path × FileSystem :=
  match attemptParent fs directory path with
  | (.error e, made) => (.error e, made)
  | (.ok (), made) =>
    match FileSystem.openForAppending made directory path with
    | .ok (place, opened) => (.ok place, opened)
    | .error e => (.error e, made)

/-- Opens a log file: its place, and the file system in which it exists. What it holds stays. -/
def openAt (fs : FileSystem) (directory : Path) (path : String) :
    Except OsError (Path × FileSystem) :=
  let (opened, fs) := attempt fs directory path
  opened.map fun place => (place, fs)

/-- Adds an event to the end of the log file at a place. -/
def log (fs : FileSystem) (place : Path) (row : Stamp × Event) : FileSystem :=
  FileSystem.append fs place (Utf8.encode (Logger.fileLine row.1 row.2))

/-- Adds events to the end of the log file at a place, one after the other. -/
def record (fs : FileSystem) (place : Path) (events : List (Stamp × Event)) : FileSystem :=
  events.foldl (fun fs row => log fs place row) fs

end LogFile

end CommitVerdict
