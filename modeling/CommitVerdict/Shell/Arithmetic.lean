import CommitVerdict.Shell.Word
import CommitVerdict.Utility.Print

namespace CommitVerdict

namespace Shell

namespace Arithmetic

/-- An expression over signed words of 64 bits. -/
inductive Expression where
  | number (value : Int)
  | variable (name : String)
  | unary (operator : String) (operand : Expression)
  | binary (operator : String) (left right : Expression)
  | choose (test yes no : Expression)
  /-- Sets a variable, to the value itself or to its result with the old value. -/
  | assign (name : String) (operator : Option String) (value : Expression)
deriving DecidableEq, Repr

/-- The operators between two operands with their precedence, longer ones before their starts. -/
def binaryOperators : List (String × Nat) :=
  [("||", 2), ("&&", 3), ("<<", 9), (">>", 9), ("<=", 8), (">=", 8), ("==", 7), ("!=", 7),
   ("<", 8), (">", 8), ("|", 4), ("^", 5), ("&", 6), ("+", 10), ("-", 10), ("*", 11), ("/", 11),
   ("%", 11)]

/-- The operators that set a variable, longer ones before their ends. -/
def assigningOperators : List (String × Option String) :=
  [("<<=", some "<<"), (">>=", some ">>"), ("+=", some "+"), ("-=", some "-"), ("*=", some "*"),
   ("/=", some "/"), ("%=", some "%"), ("&=", some "&"), ("|=", some "|"), ("^=", some "^")]

def skipBlanks (cs : List Char) : List Char :=
  cs.dropWhile fun c => c == ' ' || c == '\t' || c == '\n'

def startsWith (text : String) (cs : List Char) : Bool := text.toList.isPrefixOf cs

/-- The operator between operands at the start of a text. -/
def binaryOperator? (cs : List Char) : Option (String × Nat × List Char) :=
  match assigningOperators.find? fun entry => startsWith entry.1 cs with
  | some _ => none
  | none =>
    (binaryOperators.find? fun entry => startsWith entry.1 cs).map fun entry =>
      (entry.1, entry.2, cs.drop entry.1.length)

/-- The setting of a variable at the start of a text: its name, the operator, and what follows. -/
def assignment? (cs : List Char) : Option (String × Option String × List Char) :=
  let name := cs.takeWhile isNameChar
  let rest := skipBlanks (cs.drop name.length)
  if !isName (String.ofList name) then none
  else
    match assigningOperators.find? fun entry => startsWith entry.1 rest with
    | some (text, operator) => some (String.ofList name, operator, rest.drop text.length)
    | none =>
      if startsWith "=" rest && !startsWith "==" rest then
        some (String.ofList name, none, rest.drop 1)
      else none

/-- What the reader looks for. -/
inductive Goal where
  | expression
  /-- Operands joined by operators of at least a precedence. -/
  | joined (least : Nat)
  /-- More of them after a first operand. -/
  | continued (least : Nat) (left : Expression)
  | operand

/-- Reads what a goal asks for. -/
def read : Nat → Goal → List Char → Option (Expression × List Char)
  | 0, _, _ => none
  | fuel + 1, .expression, cs =>
    let cs := skipBlanks cs
    match assignment? cs with
    | some (name, operator, rest) => do
      let (value, rest) ← read fuel .expression rest
      some (.assign name operator value, rest)
    | none => do
      let (test, rest) ← read fuel (.joined 2) cs
      match skipBlanks rest with
      | '?' :: rest =>
        let (yes, rest) ← read fuel .expression rest
        match skipBlanks rest with
        | ':' :: rest =>
          let (no, rest) ← read fuel .expression rest
          some (.choose test yes no, rest)
        | _ => none
      | rest => some (test, rest)
  | fuel + 1, .joined least, cs => do
    let (left, rest) ← read fuel .operand cs
    read fuel (.continued least left) rest
  | fuel + 1, .continued least left, cs =>
    match binaryOperator? (skipBlanks cs) with
    | some (operator, precedence, rest) =>
      if precedence < least then some (left, cs)
      else do
        let (right, rest) ← read fuel (.joined (precedence + 1)) rest
        read fuel (.continued least (.binary operator left right)) rest
    | none => some (left, cs)
  | fuel + 1, .operand, cs =>
    match skipBlanks cs with
    | '(' :: rest => do
      let (e, rest) ← read fuel .expression rest
      match skipBlanks rest with
      | ')' :: rest => some (e, rest)
      | _ => none
    | c :: rest =>
      if c = '-' || c = '+' || c = '!' || c = '~' then do
        let (e, rest) ← read fuel .operand rest
        some (.unary (String.ofList [c]) e, rest)
      else if c.isDigit then
        let digits := (c :: rest).takeWhile isNameChar
        let (value, good) := Utility.Print.number (String.ofList digits)
        if good then some (.number value, (c :: rest).drop digits.length) else none
      else if isNameStart c then
        let name := (c :: rest).takeWhile isNameChar
        some (.variable (String.ofList name), (c :: rest).drop name.length)
      else none
    | [] => none

/-- The expression that a text writes; an empty one is zero. -/
def parse? (cs : List Char) : Option Expression :=
  if (skipBlanks cs).isEmpty then some (.number 0)
  else
    match read (6 * cs.length + 6) .expression cs with
    | some (e, rest) => if (skipBlanks rest).isEmpty then some e else none
    | none => none

/-- Variables whose values are read and set. -/
abbrev Environment := List (String × String)

/-- Why an expression has no value. -/
inductive Failure where
  | divisionByZero
  | noNumber (text : String)
deriving DecidableEq, Repr

def word (value : Int) : Int := Int.bmod value (Nat.pow 2 64)

/-- The number of a truth value. -/
def truth (b : Bool) : Int := if b then 1 else 0

/-- The result of an operator that evaluates both operands. -/
def apply (operator : String) (a b : Int) : Except Failure Int :=
  let bits (f : Nat → Nat → Nat) : Int :=
    (f (a % Int.pow 2 64).toNat (b % Int.pow 2 64).toNat : Nat)
  let shift : Nat := (b % 64).toNat
  match operator with
  | "+" => .ok (a + b)
  | "-" => .ok (a - b)
  | "*" => .ok (a * b)
  | "/" => if b = 0 then .error .divisionByZero else .ok (a.tdiv b)
  | "%" => if b = 0 then .error .divisionByZero else .ok (a.tmod b)
  | "<<" => .ok (a * Nat.pow 2 shift)
  | ">>" => .ok (a / Nat.pow 2 shift)
  | "&" => .ok (bits Nat.land)
  | "|" => .ok (bits Nat.lor)
  | "^" => .ok (bits Nat.xor)
  | "==" => .ok (truth (a == b))
  | "!=" => .ok (truth (a != b))
  | "<" => .ok (truth (decide (a < b)))
  | "<=" => .ok (truth (decide (a ≤ b)))
  | ">" => .ok (truth (decide (b < a)))
  | ">=" => .ok (truth (decide (b ≤ a)))
  | _ => .ok 0

/-- The value of a variable; an unset or empty one is zero. -/
def lookup (env : Environment) (name : String) : Except Failure Int :=
  match env.find? fun entry => entry.1 == name with
  | none => .ok 0
  | some (_, text) =>
    match Utility.Print.number text with
    | (value, true) => .ok value
    | (_, false) => .error (.noNumber text)

def set (env : Environment) (name : String) (value : Int) : Environment :=
  (name, toString value) :: env.filter fun entry => entry.1 != name

/-- Evaluates an expression: its value and the variables after it. -/
def evaluate (env : Environment) : Expression → Except Failure (Int × Environment)
  | .number value => .ok (word value, env)
  | .variable name => (lookup env name).map (·, env)
  | .unary operator operand => do
    let (value, env) ← evaluate env operand
    let result := match operator with
      | "-" => -value
      | "!" => truth (value == 0)
      | "~" => -value - 1
      | _ => value
    return (word result, env)
  | .binary "&&" left right => do
    let (a, env) ← evaluate env left
    if a = 0 then return (0, env)
    let (b, env) ← evaluate env right
    return (truth (b != 0), env)
  | .binary "||" left right => do
    let (a, env) ← evaluate env left
    if a != 0 then return (1, env)
    let (b, env) ← evaluate env right
    return (truth (b != 0), env)
  | .binary operator left right => do
    let (a, env) ← evaluate env left
    let (b, env) ← evaluate env right
    let value ← apply operator a b
    return (word value, env)
  | .choose test yes no => do
    let (a, env) ← evaluate env test
    if a != 0 then evaluate env yes else evaluate env no
  | .assign name operator value => do
    let (b, env) ← evaluate env value
    let result ← match operator with
      | none => Except.ok b
      | some operator =>
        match lookup env name with
        | .ok a => apply operator a b
        | .error e => .error e
    let result := word result
    return (result, set env name result)

end Arithmetic

end Shell

end CommitVerdict
