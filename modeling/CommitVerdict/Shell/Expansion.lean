import CommitVerdict.Shell.Arithmetic
import CommitVerdict.Shell.State

namespace CommitVerdict

namespace Shell

/-- Runs commands. -/
abbrev Runner := Command → Exec Unit

/-- Ends the shell with a complaint. -/
def abort {α : Type} (text : String) : Exec α := do
  complain text
  leave (.exit 2)

/-- Runs the commands of a text; a fault in it ends the shell. -/
def runScript (inner : Runner) (text : List Char) : Exec Unit := do
  let script := Script.ofText text
  script.commands.forM inner
  match script.fault with
  | none => return
  | some (line, e) =>
    changeContext fun c => { c with line := line }
    abort e.message

/-- Runs what is to be run at the end of a shell that is being left; the result is how it is left in
the end. -/
def runExitTrap (inner : Runner) (left : Option Leave) : Exec Leave := do
  let c ← context
  let status := match left with
    | some (.exit status) => status
    | _ => c.status
  match left with
  | some (.signal n) => return .signal n
  | some .exhausted => return .exhausted
  | _ =>
    match c.traps.find? fun trap => trap.1 == 0 with
    | none => return .exit status
    | some (_, action) =>
      changeContext fun c =>
        { c with status := status, traps := c.traps.filter fun trap => trap.1 != 0 }
      match ← attempt (runScript inner action.toList) with
      | some (.exit status) => return .exit status
      | some (.signal n) => return .signal n
      | some .exhausted => return .exhausted
      | _ => return .exit status

/-- Runs steps in a shell of its own; its status becomes that of the shell around it. -/
def isolated (inner : Runner) (steps : Exec Unit) : Exec Unit := do
  let outer ← context
  changeContext Context.forSubshell
  let left ← attempt steps
  match ← runExitTrap inner left with
  | .exit status => changeContext fun _ => { outer with status := status }
  | other =>
    changeContext fun _ => outer
    leave other

/-- What steps in a shell of their own write to the standard output. -/
def captured (inner : Runner) (steps : Exec Unit) : Exec Bytes := do
  let n ← freshNumber
  isolated inner do
    changeContext fun c => c.withDescriptor 1 (some (.channel n))
    steps
  takeChannel n

/-- The value of a parameter; none if it is not set. -/
def Context.parameter? (c : Context) (name : String) : Option String :=
  match name with
  | "?" => some (toString c.status.toNat)
  | "$" => some (toString c.process)
  | "#" => some (toString c.arguments.length)
  | "0" => some c.name
  | "-" => some ""
  | "@" => if c.arguments.isEmpty then none else some (" ".intercalate c.arguments)
  | "*" => if c.arguments.isEmpty then none else some (" ".intercalate c.arguments)
  | _ =>
    if name.toList.all Char.isDigit then
      c.arguments[Utility.Print.decimalValue name.toList - 1]?
    else c.value name

/-- The characters that separate fields. -/
def Context.separators (c : Context) : List Char := ((c.value "IFS").getD " \t\n").toList

/-- The starts of a list with what is left after each of them, the shortest first. -/
def splits {α : Type} : List α → List (List α × List α)
  | [] => [([], [])]
  | x :: rest => ([], x :: rest) :: (splits rest).map fun (start, left) => (x :: start, left)

/-- What is left of a value without a start or an end that matches a pattern. -/
def trimmed (fromStart longest : Bool) (pattern : Bytes) (value : List Char) : List Char :=
  let tokens := Glob.parse pattern
  let fits (cs : List Char) : Bool := Glob.accepts tokens (Utf8.encodeChars cs)
  let candidates := if fromStart then splits value else (splits value).map fun (a, b) => (b, a)
  let ordered := if fromStart != longest then candidates else candidates.reverse
  match ordered.find? fun candidate => fits candidate.1 with
  | some (_, left) => left
  | none => value

/-- Pieces of the arguments of the shell, with boundaries between them. -/
def argumentPieces (isQuoted : Bool) (arguments : List String) : List Piece :=
  let source : Source := if isQuoted then .quoted else .substituted
  let one (argument : String) : List Piece :=
    (if isQuoted then [Piece.empty] else []) ++ Piece.ofChars source argument.toList
  List.intercalate [.boundary] (arguments.map one)

/-- A word that has been read, or the end of the shell. -/
def readOrAbort (w : Except SyntaxError Word) : Exec Word :=
  match w with
  | .ok w => return w
  | .error e => abort e.message

/-- Reads the word of a modifier, in quotes if its parameter stands in quotes. -/
def modifierWord (isQuoted : Bool) (text : List Char) : Exec Word :=
  readOrAbort (if isQuoted then Word.ofQuotedModifier text else Word.ofText text)

/-- Plain characters of a substitution are part of it. -/
def Piece.asSubstituted : Piece → Piece
  | .char c .plain => .char c .substituted
  | other => other

/-- The value of an expression; it may set variables. -/
def evaluateArithmetic (text : List Char) : Exec Int := do
  let fail {α : Type} (reason : String) : Exec α :=
    abort s!"arithmetic expression: {reason}: \"{String.ofList text}\""
  match Arithmetic.parse? text with
  | none => fail "expecting primary"
  | some e =>
    let bindings := (← context).bindings.filterMap fun v => v.value.map (v.name, ·)
    match Arithmetic.evaluate bindings e with
    | .error .divisionByZero => fail "division by zero"
    | .error (.noNumber value) => abort s!"Illegal number: {value}"
    | .ok (value, changed) =>
      changed.forM fun (name, text) => do
        if (← context).value name != some text then
          changeContext fun c => c.assign name text
      return value

/-- The pieces of a parameter; nested words are expanded by a function that is given. -/
def expandParameter (nested : Word → Exec (List Piece)) (isQuoted : Bool) (name : String)
    (modifier : Modifier) : Exec (List Piece) := do
  let c ← context
  let source : Source := if isQuoted then .quoted else .substituted
  let pieces (text : String) : List Piece := Piece.ofChars source text.toList
  let value := c.parameter? name
  let counts (orEmpty : Bool) : Bool :=
    match value with
    | none => false
    | some text => !(orEmpty && text.isEmpty)
  let word (text : List Char) : Exec (List Piece) := do
    let expanded ← nested (← modifierWord isQuoted text)
    return if isQuoted then expanded else expanded.map Piece.asSubstituted
  let plain : Exec (List Piece) :=
    if name = "@" || (name = "*" && !isQuoted) then return argumentPieces isQuoted c.arguments
    else if name = "*" then
      let separator := String.ofList (c.separators.take 1)
      return pieces (separator.intercalate c.arguments)
    else return pieces (value.getD "")
  match modifier with
  | .none =>
    if value.isNone && c.requiresParameters && name != "@" && name != "*" then
      abort s!"{name}: parameter not set"
    else plain
  | .length => return pieces (toString (value.getD "").utf8ByteSize)
  | .default orEmpty text => if counts orEmpty then plain else word text
  | .alternative orEmpty text => if counts orEmpty then word text else return []
  | .assign orEmpty text =>
    if counts orEmpty then plain
    else
      let expanded ← word text
      let result := (Field.ofPieces expanded).text
      changeContext fun c => c.assign name result
      return pieces result
  | .require orEmpty text =>
    if counts orEmpty then plain
    else
      let expanded ← word text
      let reason := (Field.ofPieces expanded).text
      abort (if reason.isEmpty then s!"{name}: parameter not set" else s!"{name}: {reason}")
  | .trimStart longest pattern =>
    let expanded ← nested (← readOrAbort (Word.ofText pattern))
    let bytes := (Field.ofPieces expanded).pattern
    return Piece.ofChars source (trimmed true longest bytes (value.getD "").toList)
  | .trimEnd longest pattern =>
    let expanded ← nested (← readOrAbort (Word.ofText pattern))
    let bytes := (Field.ofPieces expanded).pattern
    return Piece.ofChars source (trimmed false longest bytes (value.getD "").toList)

/-- What a script writes, without the line feeds at its end. -/
def substitutedOutput (inner : Runner) (script : List Char) : Exec (List Char) := do
  let bytes ← captured inner (runScript inner script)
  changeContext fun c => { c with substituted := c.status }
  let kept := bytes.filter fun b => b != 0
  return Utf8.decodeLossy (kept.reverse.dropWhile fun b => b == 10).reverse

/-- How deep words may be nested in one another. -/
def nestingDepth : Nat := 100

/-- The pieces of a word. -/
def expand (inner : Runner) : Nat → Word → Exec (List Piece)
  | 0, _ => return []
  | depth + 1, w => do
    let parts ← w.mapM fun segment => do
      match segment with
      | .plain text => return Piece.ofChars .plain text
      | .quoted text => return Piece.empty :: Piece.ofChars .quoted text
      | .parameter isQuoted name modifier =>
        expandParameter (expand inner depth) isQuoted name modifier
      | .command isQuoted script =>
        let source : Source := if isQuoted then .quoted else .substituted
        return Piece.ofChars source (← substitutedOutput inner script)
      | .arithmetic isQuoted expression =>
        let source : Source := if isQuoted then .quoted else .substituted
        let expanded ← expand inner depth (← readOrAbort (Word.ofQuoted expression))
        let value ← evaluateArithmetic (Field.ofPieces expanded).text.toList
        return Piece.ofChars source (toString value).toList
    return parts.flatten

/-- A word whose leading tilde, if it has one, is the home directory. -/
def withHome (c : Context) (w : Word) : Word :=
  match w, c.value "HOME" with
  | .plain ['~'] :: rest, some home => .quoted home.toList :: rest
  | .plain ('~' :: '/' :: text) :: rest, some home =>
    .quoted home.toList :: .plain ('/' :: text) :: rest
  | w, _ => w

/-- The arguments of the shell in quotes, which make no field if there are none. -/
def isAllArguments (w : Word) : Bool :=
  w == [.quoted [], .parameter true "@" .none]

/-- The texts of the fields of a word. -/
def expandFields (inner : Runner) (w : Word) : Exec (List String) := do
  let c ← context
  if isAllArguments w && c.arguments.isEmpty then return []
  else
    let pieces ← expand inner nestingDepth (withHome c w)
    let pieces := if isAllArguments w then pieces.drop 1 else pieces
    let c ← context
    let files := (← world).files
    return (Field.split c.separators .none pieces).flatMap (Field.paths files c.directory)

/-- The single text of a word. -/
def expandText (inner : Runner) (w : Word) : Exec String := do
  let pieces ← expand inner nestingDepth (withHome (← context) w)
  return (Field.ofPieces pieces).text

/-- The pattern that a word is. -/
def expandPattern (inner : Runner) (w : Word) : Exec Bytes := do
  let pieces ← expand inner nestingDepth w
  return (Field.ofPieces pieces).pattern

end Shell

end CommitVerdict
