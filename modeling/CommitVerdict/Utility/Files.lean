import CommitVerdict.Utility.Basic

namespace CommitVerdict

namespace Utility

/-- What stands at a path, a link not followed. -/
def found? (files : FileSystem) (directory : Path) (path : String) : Option Path :=
  match FileSystem.place files directory (FileSystem.withoutTrailingSlashes path) false with
  | .ok place => if files.isDirectoryAt place || files.contains place then some place else none
  | .error _ => none

/-- The path of an operand inside a directory, if the target is one; otherwise the target. -/
def insideOf (files : FileSystem) (directory : Path) (target operand : String) : String :=
  if FileSystem.isDirectory files directory target then
    PathText.join target ((Path.ofText operand).getLast?.getD operand)
  else target

/-- The content that an operand names; a hyphen names the input. -/
def operandContent (c : Call) (operand : String) : Except OsError Bytes :=
  if operand = "-" then .ok c.input else FileSystem.read c.files c.directory operand

/-- Whether the input is among the operands of a program that reads it if there are none. -/
def readsInput (operands : List String) : Bool := operands.isEmpty || operands.contains "-"

/-- Writes the content of files one after the other. -/
def cat : Utility := fun c =>
  let (_, operands) := options c.arguments
  let operands := if operands.isEmpty then ["-"] else operands
  let contents := operands.map fun operand =>
    if operand = "-" then (Except.ok c.input : Except String Bytes)
    else (operandContent c operand).mapError fun e => s!"{operand}: {e.reason}"
  { output := contents.map fun content => match content with
      | .ok bytes => (.stdout, bytes)
      | .error text => c.complaint text
    input := if operands.contains "-" then [] else c.input
    files := c.files
    status := if contents.all Except.toBool then 0 else 1 }

/-- The names in a directory that a listing shows, in order. -/
def listed (c : Call) (letters : List Char) (place : Path) : List String :=
  let names := (c.files.names place).mergeSort fun a b => decide (a ≤ b)
  let dots := if letters.contains 'a' then [".", ".."] else []
  let hidden (name : String) : Bool := name.startsWith "."
  dots ++ (if letters.contains 'a' || letters.contains 'A' then names
    else names.filter fun name => !hidden name)

def linesOf (lines : List String) : Bytes := Utf8.encode (String.join (lines.map (· ++ "\n")))

/-- Lists directories, one name a line. -/
def ls : Utility := fun c =>
  let (letters, operands) := options c.arguments
  let operands := if operands.isEmpty then ["."] else operands.mergeSort fun a b => decide (a ≤ b)
  let exists? (path : String) : Bool := (found? c.files c.directory path).isSome
  let missing := operands.filter fun path => !exists? path
  let present := operands.filter exists?
  let isListed (path : String) : Bool :=
    !letters.contains 'd' && FileSystem.isDirectory c.files c.directory path
  let plain := present.filter fun path => !isListed path
  let directories := present.filter isListed
  let listing (path : String) : List String :=
    match FileSystem.canonicalize c.files c.directory path with
    | .ok place => listed c letters place
    | .error _ => []
  let sections := directories.zipIdx.flatMap fun (path, index) =>
    let gap := if index = 0 && plain.isEmpty then [] else [""]
    if operands.length = 1 then listing path else gap ++ s!"{path}:" :: listing path
  { output := missing.map (fun path =>
        c.complaint s!"cannot access '{path}': {OsError.notFound.reason}")
      ++ [(.stdout, linesOf (plain ++ sections))]
    input := c.input
    files := c.files
    status := if missing.isEmpty then 0 else 2 }

/-- Makes files that are missing. -/
def touch : Utility := fun c =>
  let (_, operands) := options c.arguments
  attemptAll c 1 operands fun files path =>
    if FileSystem.existsAt files c.directory path then .ok files
    else (FileSystem.write files c.directory path []).mapError fun e =>
      s!"cannot touch '{path}': {e.reason}"

/-- Removes files, and directories if it is asked to. -/
def rm : Utility := fun c =>
  let (letters, operands) := options c.arguments
  let recursive := letters.contains 'r' || letters.contains 'R'
  attemptAll c 1 operands fun files path =>
    match found? files c.directory path with
    | none =>
      if letters.contains 'f' then .ok files
      else .error s!"cannot remove '{path}': {OsError.notFound.reason}"
    | some place =>
      if files.isDirectoryAt place && !recursive then
        .error s!"cannot remove '{path}': {OsError.isDirectory.reason}"
      else .ok (files.removeAt place)

/-- Makes directories. -/
def mkdir : Utility := fun c =>
  let (letters, operands) := options c.arguments
  attemptAll c 1 operands fun files path =>
    let result :=
      if letters.contains 'p' then FileSystem.makeDirectories files c.directory path
      else FileSystem.makeDirectory files c.directory path
    result.mapError fun e => s!"cannot create directory '{path}': {e.reason}"

/-- Removes empty directories. -/
def rmdir : Utility := fun c =>
  let (_, operands) := options c.arguments
  attemptAll c 1 operands fun files path =>
    let complaint (reason : String) : Except String FileSystem :=
      .error s!"failed to remove '{path}': {reason}"
    match found? files c.directory path with
    | none => complaint OsError.notFound.reason
    | some place =>
      if !files.isDirectoryAt place then complaint OsError.notDirectory.reason
      else if files.hasBelow place then complaint "Directory not empty"
      else .ok (files.removeAt place)

/-- Puts a copy of what stands at one place at another. -/
def copyAt (files : FileSystem) (source target : Path) : FileSystem :=
  if files.hasBelow source then files.graft target (files.subtree source)
  else
    match files.get? source with
    | some leaf => files.put target leaf
    | none => files

/-- Copies or moves operands to a target, the last of them. -/
def transfer (isMove : Bool) : Utility := fun c =>
  let (letters, operands) := options c.arguments
  let recursive := isMove || letters.contains 'r' || letters.contains 'R' || letters.contains 'a'
  match operands.reverse with
  | target :: source :: sources =>
    attemptAll c 1 (source :: sources).reverse fun files path =>
      match found? files c.directory path,
        FileSystem.place files c.directory (insideOf files c.directory target path) true with
      | none, _ => .error s!"cannot stat '{path}': {OsError.notFound.reason}"
      | some _, .error e => .error s!"cannot create regular file '{target}': {e.reason}"
      | some place, .ok goal =>
        if files.isDirectoryAt place && !recursive then
          .error s!"-r not specified; omitting directory '{path}'"
        else
          let copied := copyAt files place goal
          .ok (if isMove then copied.removeAt place else copied)
  | _ => c.misuse 1 "missing file operand"

/-- Makes symbolic links. -/
def ln : Utility := fun c =>
  match options c.arguments with
  | (letters, [target, path]) =>
    let name := insideOf c.files c.directory path target
    let files := if letters.contains 'f' then FileSystem.removeAll c.files c.directory name
      else c.files
    match FileSystem.place files c.directory name false with
    | .error e => c.fail 1 s!"failed to create symbolic link '{name}': {e.reason}"
    | .ok place =>
      if files.isDirectoryAt place || files.contains place then
        c.fail 1 s!"failed to create symbolic link '{name}': {OsError.exists.reason}"
      else { c.exit 0 with files := files.put place (.entry (.link target)) }
  | _ => c.misuse 1 "missing file operand"

/-- Whether files of a mode may be run; none if the mode does not say. -/
def modeIsExecutable? (mode : String) : Option Bool :=
  let cs := mode.toList
  if cs.all Char.isDigit then
    (cs.drop (cs.length - 3)).head?.map fun c => (c.toNat - '0'.toNat) % 2 == 1
  else if !cs.contains 'x' then none
  else if cs.contains '-' then some false
  else some true

/-- Makes files executable or takes that from them. -/
def chmod : Utility := fun c =>
  match c.arguments with
  | mode :: operands =>
    attemptAll c 1 operands fun files path =>
      match FileSystem.canonicalize files c.directory path with
      | .error e => .error s!"cannot access '{path}': {e.reason}"
      | .ok place =>
        match modeIsExecutable? mode, files.entryAt? place with
        | some true, some (.file content) => .ok (files.put place (.entry (.executable content)))
        | some false, some (.executable content) => .ok (files.put place (.entry (.file content)))
        | _, _ => .ok files
  | [] => c.misuse 1 "missing operand"

/-- The first place at which two contents differ, counted from one, and its line. -/
def difference? : Nat → Nat → Bytes → Bytes → Option (Nat × Nat)
  | number, line, a :: rest, b :: others =>
    if a = b then difference? (number + 1) (if a = 10 then line + 1 else line) rest others
    else some (number, line)
  | _, _, _, _ => none

/-- Compares two files. -/
def cmp : Utility := fun c =>
  let (letters, operands) := options c.arguments
  let quiet := letters.contains 's'
  let say (reply : Reply) : Reply := if quiet then { reply with output := [] } else reply
  match operands with
  | first :: others =>
    let second := others.headD "-"
    match operandContent c first, operandContent c second with
    | .error e, _ => say (c.fail 2 s!"{first}: {e.reason}")
    | _, .error e => say (c.fail 2 s!"{second}: {e.reason}")
    | .ok a, .ok b =>
      match difference? 1 1 a b with
      | some (number, line) =>
        say { c.print (Utf8.encode s!"{first} {second} differ: char {number}, line {line}\n") with
          status := 1 }
      | none =>
        if a.length = b.length then c.exit 0
        else
          let shorter := if a.length < b.length then first else second
          let size := min a.length b.length
          if size = 0 then say (c.fail 1 s!"EOF on {shorter} which is empty")
          else
            let content := if a.length < b.length then a else b
            let lines := content.count 10
            let place := if content.getLast? = some 10 then s!"line {lines}"
              else s!"in line {lines + 1}"
            say (c.fail 1 s!"EOF on {shorter} after byte {size}, {place}")
  | [] => c.misuse 2 "missing operand after 'cmp'"

/-- The last name of a path. -/
def lastName (path : String) : String :=
  match Path.ofText path with
  | [] => if path.isEmpty then "" else "/"
  | names => names.getLast?.getD ""

/-- Prints the last name of a path, without a given ending. -/
def basename : Utility := fun c =>
  match (options c.arguments).2 with
  | [] => c.misuse 1 "missing operand"
  | path :: more =>
    let name := (lastName path).toList
    let ending := (more.headD "").toList
    let short := if ending.isSuffixOf name && ending != name
      then name.take (name.length - ending.length) else name
    c.print (Utf8.encodeChars (short ++ ['\n']))

/-- Prints a path without its last name. -/
def dirname : Utility := fun c =>
  let isSlash (ch : Char) : Bool := ch == '/'
  let parent (path : String) : String :=
    let trimmed := path.toList.reverse.dropWhile isSlash
    let above := (trimmed.dropWhile fun ch => !isSlash ch).dropWhile isSlash
    if !above.isEmpty then String.ofList above.reverse
    else if PathText.isAbsolute path then "/" else "."
  match (options c.arguments).2 with
  | [] => c.misuse 1 "missing operand"
  | paths => c.print (linesOf (paths.map parent))

/-- Prints the directory in which it is run. -/
def pwd : Utility := fun c => c.print (linesOf [c.directory.toAbsolute])

end Utility

end CommitVerdict
