import CommitVerdict.Utility.Basic

namespace CommitVerdict

namespace Utility

namespace Condition

/-- Where the files of a condition are looked up. -/
structure Place where
  files : FileSystem
  directory : Path

/-- Why a condition has no value. -/
inductive Failure where
  | noNumber (text : String)
  | unexpected (text : String)
  | incomplete (operator : String)
deriving DecidableEq, Repr

def Failure.message : Failure → String
  | .noNumber text => s!"Illegal number: {text}"
  | .unexpected text => s!"{text}: unexpected operator"
  | .incomplete operator => s!"{operator}: argument expected"

/-- The entry that a path names, a link itself included. -/
def linkAt (p : Place) (path : String) : Bool :=
  match FileSystem.place p.files p.directory path false with
  | .ok found =>
    match p.files.entryAt? found with
    | some (.link _) => true
    | _ => false
  | .error _ => false

/-- The test that a letter after a hyphen stands for. -/
def unary? (p : Place) (operator : String) : Option (String → Bool) :=
  let existing := FileSystem.existsAt p.files p.directory
  let content (path : String) : Bytes :=
    (FileSystem.read p.files p.directory path).toOption.getD []
  match operator with
  | "-n" => some fun text => !text.isEmpty
  | "-z" => some fun text => text.isEmpty
  | "-e" => some existing
  | "-f" => some (FileSystem.isFile p.files p.directory)
  | "-d" => some (FileSystem.isDirectory p.files p.directory)
  | "-r" => some existing
  | "-w" => some existing
  | "-x" => some fun path =>
    isExecutable p.files p.directory path || FileSystem.isDirectory p.files p.directory path
  | "-s" => some fun path =>
    FileSystem.isDirectory p.files p.directory path || !(content path).isEmpty
  | "-h" => some (linkAt p)
  | "-L" => some (linkAt p)
  | "-t" => some fun _ => false
  | _ => none

/-- The number that a text writes, blanks around it aside. -/
def number (text : String) : Except Failure Int :=
  let isSpace (c : Char) : Bool := c == ' ' || c == '\t' || c == '\n'
  let cs := ((text.toList.dropWhile isSpace).reverse.dropWhile isSpace).reverse
  let value (digits : List Char) : Except Failure Int :=
    if digits.isEmpty || !digits.all Char.isDigit then .error (.noNumber text)
    else .ok (digits.foldl (fun n c => n * 10 + (c.toNat - '0'.toNat)) 0 : Nat)
  match cs with
  | '-' :: digits => (value digits).map (- ·)
  | '+' :: digits => value digits
  | digits => value digits

def compareNumbers (test : Int → Int → Bool) (left right : String) : Except Failure Bool := do
  let a ← number left
  let b ← number right
  return test a b

/-- The comparison that an operator stands for. -/
def binary? (operator : String) : Option (String → String → Except Failure Bool) :=
  match operator with
  | "=" => some fun a b => .ok (a == b)
  | "!=" => some fun a b => .ok (a != b)
  | "<" => some fun a b => .ok (decide (a < b))
  | ">" => some fun a b => .ok (decide (b < a))
  | "-eq" => some (compareNumbers fun a b => a == b)
  | "-ne" => some (compareNumbers fun a b => a != b)
  | "-lt" => some (compareNumbers fun a b => decide (a < b))
  | "-le" => some (compareNumbers fun a b => decide (a ≤ b))
  | "-gt" => some (compareNumbers fun a b => decide (b < a))
  | "-ge" => some (compareNumbers fun a b => decide (b ≤ a))
  | _ => none

/-- What is read next in a long condition. -/
inductive Goal where
  | disjunction
  | conjunction
  | negation
deriving DecidableEq, Repr

/-- A single test at the start of a long condition, and what follows it. -/
def primary (p : Place) (nested : List String → Except Failure (Bool × List String)) :
    List String → Except Failure (Bool × List String)
  | [] => .error (.incomplete "test")
  | left :: operator :: right :: rest =>
    match binary? operator with
    | some compare => (compare left right).map (·, rest)
    | none =>
      if left = "(" then do
        let (value, rest) ← nested (operator :: right :: rest)
        match rest with
        | ")" :: rest => return (value, rest)
        | _ => throw (.unexpected "(")
      else
        match unary? p left with
        | some test => .ok (test operator, right :: rest)
        | none => .ok (!left.isEmpty, operator :: right :: rest)
  | [operator, operand] =>
    match unary? p operator with
    | some test => .ok (test operand, [])
    | none => .ok (!operator.isEmpty, [operand])
  | [text] => .ok (!text.isEmpty, [])

/-- Reads a long condition. -/
def read (p : Place) : Nat → Goal → List String → Except Failure (Bool × List String)
  | 0, _, _ => .error (.incomplete "test")
  | fuel + 1, .disjunction, arguments => do
    let (left, rest) ← read p fuel .conjunction arguments
    match rest with
    | "-o" :: rest =>
      let (right, rest) ← read p fuel .disjunction rest
      return (left || right, rest)
    | _ => return (left, rest)
  | fuel + 1, .conjunction, arguments => do
    let (left, rest) ← read p fuel .negation arguments
    match rest with
    | "-a" :: rest =>
      let (right, rest) ← read p fuel .conjunction rest
      return (left && right, rest)
    | _ => return (left, rest)
  | fuel + 1, .negation, arguments => do
    match arguments with
    | "!" :: rest =>
      let (value, rest) ← read p fuel .negation rest
      return (!value, rest)
    | _ => primary p (read p fuel .disjunction) arguments

/-- The value of a long condition. -/
def readAll (p : Place) (arguments : List String) : Except Failure Bool := do
  let (value, rest) ← read p (3 * arguments.length + 3) .disjunction arguments
  match rest with
  | [] => return value
  | text :: _ => throw (.unexpected text)

/-- The value of a condition of at most three arguments, where their number decides; longer ones are
read with precedence. -/
def value (p : Place) (arguments : List String) : Except Failure Bool :=
  match arguments with
  | [] => .ok false
  | [text] => .ok (!text.isEmpty)
  | ["!", text] => .ok text.isEmpty
  | [operator, operand] =>
    match unary? p operator with
    | some test => .ok (test operand)
    | none => .error (.unexpected operator)
  | [left, operator, right] =>
    match binary? operator with
    | some compare => compare left right
    | none =>
      if left = "!" || left = "(" || operator = "-a" || operator = "-o" then readAll p arguments
      else .error (.unexpected left)
  | arguments => readAll p arguments

end Condition

/-- Tests a condition: the status is zero if it holds, one if not, and two if it has no value. The
name in brackets asks for a closing bracket. -/
def test : Utility := fun c =>
  let place : Condition.Place := ⟨c.files, c.directory⟩
  let decide (arguments : List String) : Reply :=
    match Condition.value place arguments with
    | .ok holds => c.exit (if holds then 0 else 1)
    | .error e => c.fail 2 e.message
  if c.name.endsWith "[" then
    match c.arguments.getLast? with
    | some "]" => decide c.arguments.dropLast
    | _ => c.fail 2 "missing ]"
  else decide c.arguments

end Utility

end CommitVerdict
