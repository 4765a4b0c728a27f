import CommitVerdict.Event.Basic
import CommitVerdict.FileSystem

namespace CommitVerdict

namespace Utility

/-- What a program is given when it starts. -/
structure Call where
  /-- The name under which it was started. -/
  name : String
  arguments : List String
  input : Bytes
  files : FileSystem
  directory : Path

/-- What a program leaves behind. -/
structure Reply where
  output : List (OutputStream × Bytes)
  /-- The input that was not read. -/
  input : Bytes
  files : FileSystem
  status : UInt8

end Utility

/-- A program is a function from its call to its reply, since it sees nothing else. -/
abbrev Utility := Utility.Call → Utility.Reply

namespace Utility

/-- Ends without output. -/
def Call.exit (c : Call) (status : UInt8) : Reply := ⟨[], c.input, c.files, status⟩

/-- Ends well after writing some bytes. -/
def Call.print (c : Call) (content : Bytes) : Reply := ⟨[(.stdout, content)], c.input, c.files, 0⟩

/-- The line of a complaint. -/
def Call.complaint (c : Call) (text : String) : OutputStream × Bytes :=
  (.stderr, Utf8.encode s!"{c.name}: {text}\n")

/-- Ends with a complaint. -/
def Call.fail (c : Call) (status : UInt8) (text : String) : Reply :=
  ⟨[c.complaint text], c.input, c.files, status⟩

/-- Ends because the program was called in a wrong way. -/
def Call.misuse (c : Call) (status : UInt8) (text : String) : Reply :=
  let hint := Utf8.encode s!"Try '{c.name} --help' for more information.\n"
  ⟨[c.complaint text, (.stderr, hint)], c.input, c.files, status⟩

/-- Whether a file may be run. -/
def isExecutable (files : FileSystem) (directory : Path) (path : String) : Bool :=
  match FileSystem.canonicalize files directory path with
  | .ok found =>
    match files.entryAt? found with
    | some (.executable _) => true
    | _ => false
  | .error _ => false

/-- Splits the arguments at the first one that is no option. Each option is a hyphen and at least
one letter; the letters of all of them are returned. Two hyphens end the options. -/
def options : List String → List Char × List String
  | [] => ([], [])
  | argument :: rest =>
    match argument.toList with
    | ['-', '-'] => ([], rest)
    | '-' :: letter :: letters =>
      let (more, operands) := options rest
      (letter :: letters ++ more, operands)
    | _ => ([], argument :: rest)

/-- Takes effects one after the other; the complaints are collected and any of them spoils the
status. -/
def attemptAll {α : Type} (c : Call) (spoiled : UInt8) (items : List α)
    (attempt : FileSystem → α → Except String FileSystem) : Reply :=
  let start : Reply := c.exit 0
  items.foldl (fun reply item =>
    match attempt reply.files item with
    | .ok files => { reply with files := files }
    | .error text => { reply with output := reply.output ++ [c.complaint text], status := spoiled })
    start

end Utility

end CommitVerdict
