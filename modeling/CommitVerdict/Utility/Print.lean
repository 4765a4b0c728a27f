import CommitVerdict.Text.Hex
import CommitVerdict.Utility.Basic

namespace CommitVerdict

namespace Utility

/-- The escapes that a program knows. -/
inductive Dialect where
  /-- Those of the shell's own commands. -/
  | shell
  /-- Those of programs of their own, which also know hexadecimal escapes. -/
  | program
deriving DecidableEq, Repr

namespace Print

/-- Bytes to be written, and whether the output ends with them. -/
structure Fragment where
  bytes : Bytes
  isLast : Bool
deriving DecidableEq, Repr

def isOctal (c : Char) : Bool := '0' ≤ c && c ≤ '7'

def octalValue (digits : List Char) : Nat :=
  digits.foldl (fun n c => n * 8 + (c.toNat - '0'.toNat)) 0

/-- The digits at the start of a text, at most so many. -/
def digitsUpTo (limit : Nat) (isDigit : Char → Bool) (cs : List Char) : List Char :=
  (cs.take limit).takeWhile isDigit

/-- The byte that an escape of a single letter stands for. -/
def letterEscape? : Char → Option UInt8
  | 'a' => some 7
  | 'b' => some 8
  | 't' => some 9
  | 'n' => some 10
  | 'v' => some 11
  | 'f' => some 12
  | 'r' => some 13
  | '\\' => some 92
  | _ => none

/-- What stands after a backslash: what it means, and how many characters of it belong to the
escape. In arguments an octal number starts with a zero that does not count; in formats it counts.
-/
def escape (d : Dialect) (inArgument : Bool) (cs : List Char) : Fragment × Nat :=
  match cs with
  | [] => (⟨[92], false⟩, 0)
  | c :: rest =>
    match letterEscape? c with
    | some b => (⟨[b], false⟩, 1)
    | none =>
      if c = 'c' && (inArgument || d = .program) then (⟨[], true⟩, 1)
      else if isOctal c then
        let start := if c = '0' && inArgument then 1 else 0
        let digits := digitsUpTo 3 isOctal (cs.drop start)
        (⟨[UInt8.ofNat (octalValue digits)], false⟩, start + digits.length)
      else if d = .program && c = 'x' && (digitsUpTo 2 isHexDigit rest).length != 0 then
        let digits := digitsUpTo 2 isHexDigit rest
        (⟨[UInt8.ofNat ((hexValue? digits).getD 0)], false⟩, 1 + digits.length)
      else if d = .program && c = 'e' then (⟨[27], false⟩, 1)
      else if c = '"' && !inArgument then (⟨[34], false⟩, 1)
      else (⟨Utf8.encodeChars ['\\', c], false⟩, 1)

/-- The bytes of a text with escapes. -/
def unescape (d : Dialect) : List Char → Fragment
  | [] => ⟨[], false⟩
  | '\\' :: rest =>
    let (fragment, width) := escape d true rest
    if fragment.isLast then fragment
    else
      let more := unescape d (rest.drop width)
      ⟨fragment.bytes ++ more.bytes, more.isLast⟩
  | c :: rest =>
    let more := unescape d rest
    ⟨Utf8.encodeChars [c] ++ more.bytes, more.isLast⟩
termination_by cs => cs.length
decreasing_by all_goals (simp only [List.length_cons, List.length_drop]; omega)

/-- A width or a precision: none, a number, or the next argument. -/
inductive Measure where
  | absent
  | fixed (n : Nat)
  | argument
deriving DecidableEq, Repr

/-- A conversion of an argument. -/
structure Conversion where
  flags : List Char
  width : Measure
  precision : Measure
  letter : Char
deriving DecidableEq, Repr

inductive Piece where
  | fixed (fragment : Fragment)
  | conversion (c : Conversion)
  /-- A conversion that does not exist, with its text. -/
  | invalid (text : String)
deriving DecidableEq, Repr

def decimalValue (digits : List Char) : Nat :=
  digits.foldl (fun n c => n * 10 + (c.toNat - '0'.toNat)) 0

/-- Reads a width or a precision. -/
def readMeasure (cs : List Char) : Measure × List Char :=
  match cs with
  | '*' :: rest => (.argument, rest)
  | _ =>
    let digits := cs.takeWhile Char.isDigit
    (if digits.isEmpty then .absent else .fixed (decimalValue digits), cs.drop digits.length)

/-- Reads a conversion after its percent sign. -/
def readConversion? (cs : List Char) : Option (Conversion × List Char) :=
  let flags := cs.takeWhile fun c => "-+ 0#".toList.contains c
  let (width, cs) := readMeasure (cs.drop flags.length)
  let (precision, cs) := match cs with
    | '.' :: rest =>
      match readMeasure rest with
      | (.absent, rest) => (.fixed 0, rest)
      | result => result
    | _ => (Measure.absent, cs)
  match cs with
  | letter :: rest =>
    if "sbcdiuoxX".toList.contains letter then some (⟨flags, width, precision, letter⟩, rest)
    else none
  | [] => none

/-- The start of a conversion that does not exist, up to its letter. -/
def invalidConversion (cs : List Char) : String :=
  let start := cs.takeWhile fun c => !c.isAlpha
  String.ofList ('%' :: cs.take (start.length + 1))

/-- The pieces of a format, up to a conversion that does not exist. -/
def pieces (d : Dialect) : Nat → List Char → List Piece
  | 0, _ => []
  | _, [] => []
  | fuel + 1, '\\' :: rest =>
    let (fragment, width) := escape d false rest
    .fixed fragment :: pieces d fuel (rest.drop width)
  | fuel + 1, '%' :: '%' :: rest => .fixed ⟨[37], false⟩ :: pieces d fuel rest
  | fuel + 1, '%' :: rest =>
    match readConversion? rest with
    | some (conversion, rest) => .conversion conversion :: pieces d fuel rest
    | none => [.invalid (invalidConversion rest)]
  | fuel + 1, c :: rest => .fixed ⟨Utf8.encodeChars [c], false⟩ :: pieces d fuel rest

/-- The number that an argument writes, and whether all of it is a number. -/
def number (argument : String) : Int × Bool :=
  let signed (cs : List Char) : Bool × List Char := match cs with
    | '-' :: rest => (true, rest)
    | '+' :: rest => (false, rest)
    | rest => (false, rest)
  match argument.toList.dropWhile (· == ' ') with
  | [] => (0, true)
  | quote :: c :: _ =>
    if quote = '"' || quote = '\'' then (c.toNat, true)
    else
      let (negative, cs) := signed (quote :: c :: argument.toList.drop 2)
      let (digits, value, rest) : List Char × Nat × List Char := match cs with
        | '0' :: x :: more =>
          if x = 'x' || x = 'X' then
            let digits := more.takeWhile isHexDigit
            (digits, (hexValue? digits).getD 0, more.drop digits.length)
          else
            let digits := ('0' :: x :: more).takeWhile isOctal
            (digits, octalValue digits, ('0' :: x :: more).drop digits.length)
        | _ =>
          let digits := cs.takeWhile Char.isDigit
          (digits, decimalValue digits, cs.drop digits.length)
      (if negative then -(value : Int) else value, !digits.isEmpty && rest.isEmpty)
  | [c] => if c.isDigit then (decimalValue [c], true) else (0, false)

/-- Whether a text has a number at its start. -/
def startsWithNumber (text : String) : Bool :=
  match text.toList with
  | '-' :: c :: _ => c.isDigit
  | '+' :: c :: _ => c.isDigit
  | c :: _ => c.isDigit
  | [] => false

/-- Fills up to a width. Zeros go between a sign and its digits. -/
def fill (flags : List Char) (width : Nat) (isNumber : Bool) (bytes : Bytes) : Bytes :=
  let missing := width - bytes.length
  if flags.contains '-' then bytes ++ List.replicate missing 32
  else if flags.contains '0' && isNumber then
    match bytes with
    | 45 :: digits => 45 :: List.replicate missing 48 ++ digits
    | 43 :: digits => 43 :: List.replicate missing 48 ++ digits
    | _ => List.replicate missing 48 ++ bytes
  else List.replicate missing 32 ++ bytes

/-- The digits of a number in the base of a conversion. -/
def digitsOf (letter : Char) (n : Nat) : List Char :=
  match letter with
  | 'o' => Nat.toDigits 8 n
  | 'x' => Nat.toDigits 16 n
  | 'X' => (Nat.toDigits 16 n).map Char.toUpper
  | _ => Nat.toDigits 10 n

/-- A number as a conversion writes it. Conversions without a sign take it modulo a word. -/
def writeNumber (c : Conversion) (precision : Option Nat) (value : Int) : Bytes :=
  let hasSign := c.letter = 'd' || c.letter = 'i'
  let magnitude := if hasSign then value.natAbs else (value % Int.pow 2 64).toNat
  let digits := digitsOf c.letter magnitude
  let digits := List.replicate (precision.getD 1 - digits.length) '0' ++ digits
  let start :=
    if hasSign && value < 0 then ['-']
    else if hasSign && c.flags.contains '+' then ['+']
    else if hasSign && c.flags.contains ' ' then [' ']
    else if c.flags.contains '#' && c.letter = 'o' then ['0']
    else if c.flags.contains '#' && c.letter = 'x' && magnitude != 0 then ['0', 'x']
    else if c.flags.contains '#' && c.letter = 'X' && magnitude != 0 then ['0', 'X']
    else []
  Utf8.encodeChars (start ++ digits)

/-- An argument as a conversion writes it; the last result says whether the argument is wrong. -/
def convert (d : Dialect) (c : Conversion) (width precision : Option Nat) (argument : String) :
    Fragment × Bool :=
  let cut (bytes : Bytes) : Bytes := match precision with
    | some n => bytes.take n
    | none => bytes
  let filled (isNumber : Bool) (bytes : Bytes) : Bytes :=
    fill c.flags (width.getD 0) isNumber bytes
  match c.letter with
  | 's' => (⟨filled false (cut (Utf8.encode argument)), false⟩, false)
  | 'b' =>
    let fragment := unescape d argument.toList
    (⟨filled false (cut fragment.bytes), fragment.isLast⟩, false)
  | 'c' => (⟨filled false ((Utf8.encode argument).take 1), false⟩, false)
  | _ =>
    let (value, good) := number argument
    (⟨filled true (writeNumber c precision value), false⟩, !good)

/-- What one use of a format writes. -/
structure Pass where
  bytes : Bytes
  arguments : List String
  /-- The arguments that are no numbers but had to be. -/
  wrong : List String
  /-- The conversion that does not exist, if the format has one. -/
  invalid : Option String
  isLast : Bool

/-- The value of a width or a precision, and the arguments that are left. -/
def measure (m : Measure) (arguments : List String) : Option Nat × List String :=
  match m with
  | .absent => (none, arguments)
  | .fixed n => (some n, arguments)
  | .argument => (some (number (arguments.headD "")).1.toNat, arguments.tail)

/-- Uses a format once. -/
def usePieces (d : Dialect) : List Piece → List String → Pass
  | [], arguments => ⟨[], arguments, [], none, false⟩
  | .invalid text :: _, _ => ⟨[], [], [], some text, true⟩
  | .fixed fragment :: rest, arguments =>
    if fragment.isLast then ⟨fragment.bytes, [], [], none, true⟩
    else
      let more := usePieces d rest arguments
      { more with bytes := fragment.bytes ++ more.bytes }
  | .conversion c :: rest, arguments =>
    let (width, arguments) := measure c.width arguments
    let (precision, arguments) := measure c.precision arguments
    let argument := arguments.headD ""
    let (fragment, wrong) := convert d c width precision argument
    let complaints := if wrong then [argument] else []
    if fragment.isLast then ⟨fragment.bytes, [], complaints, none, true⟩
    else
      let more := usePieces d rest arguments.tail
      { more with bytes := fragment.bytes ++ more.bytes, wrong := complaints ++ more.wrong }

/-- Uses a format as long as it consumes arguments and some are left. -/
def useAgain (d : Dialect) (format : List Piece) : Nat → List String → Pass
  | 0, _ => ⟨[], [], [], none, true⟩
  | fuel + 1, arguments =>
    let pass := usePieces d format arguments
    if pass.isLast || pass.arguments.isEmpty || pass.arguments.length = arguments.length then pass
    else
      let more := useAgain d format fuel pass.arguments
      { more with bytes := pass.bytes ++ more.bytes, wrong := pass.wrong ++ more.wrong }

end Print

/-- Prints arguments under the control of a format, which is used again while arguments are left; a missing
argument is an empty one. -/
def printf (d : Dialect) : Utility := fun c =>
  let complain (argument : String) : OutputStream × Bytes :=
    match d, Print.startsWithNumber argument with
    | .shell, true => c.complaint s!"{argument}: not completely converted"
    | .shell, false => c.complaint s!"{argument}: expected numeric value"
    | .program, true => c.complaint s!"'{argument}': value not completely converted"
    | .program, false => c.complaint s!"'{argument}': expected a numeric value"
  match (if c.arguments.head? = some "--" then c.arguments.tail else c.arguments) with
  | [] =>
    match d with
    | .shell => c.fail 2 "usage: printf format [arg ...]"
    | .program => c.fail 1 "missing operand"
  | format :: arguments =>
    let pieces := Print.pieces d format.length format.toList
    let pass := Print.useAgain d pieces (arguments.length + 1) arguments
    let (status, faults) : UInt8 × List (OutputStream × Bytes) := match pass.invalid, d with
      | some text, .shell => (2, [c.complaint s!"{text}: invalid directive"])
      | some text, .program => (1, [c.complaint s!"{text}: invalid conversion specification"])
      | none, _ => (if pass.wrong.isEmpty then 0 else 1, [])
    { output := pass.wrong.map complain ++ [(.stdout, pass.bytes)] ++ faults
      input := c.input
      files := c.files
      status := status }

/-- The options of `echo` as a program: a hyphen and any of three letters. -/
def echoOptions : List String → List Char × List String
  | [] => ([], [])
  | argument :: rest =>
    match argument.toList with
    | '-' :: letter :: letters =>
      if (letter :: letters).all fun c => c == 'n' || c == 'e' || c == 'E' then
        let (more, operands) := echoOptions rest
        (letter :: letters ++ more, operands)
      else ([], argument :: rest)
    | _ => ([], argument :: rest)

/-- Prints arguments. The shell's own command always knows escapes; the program knows them if it is
asked to. -/
def echo (d : Dialect) : Utility := fun c =>
  let (letters, operands) := match d, c.arguments with
    | .shell, "-n" :: rest => (['n'], rest)
    | .shell, arguments => ([], arguments)
    | .program, arguments => echoOptions arguments
  let hasEscapes := match d with
    | .shell => true
    | .program => (letters.filter fun c => c != 'n').getLast? == some 'e'
  let text := " ".intercalate operands
  let fragment : Print.Fragment :=
    if hasEscapes then Print.unescape d text.toList else ⟨Utf8.encode text, false⟩
  let ending : Bytes := if letters.contains 'n' || fragment.isLast then [] else [10]
  c.print (fragment.bytes ++ ending)

end Utility

end CommitVerdict
