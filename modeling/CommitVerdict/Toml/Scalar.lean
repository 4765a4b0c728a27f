import CommitVerdict.Toml.Basic
import CommitVerdict.Text.Hex

namespace CommitVerdict

namespace Toml

/-- A reader takes characters from the front of a text. -/
abbrev Reader (α : Type) := List Char → Option (α × List Char)

def isBlankChar (c : Char) : Bool := c == ' ' || c == '\t'

def skipBlanks (cs : List Char) : List Char := cs.dropWhile isBlankChar

/-- Whether a character may stand in comments and strings: no control but the tab. -/
def isPlain (c : Char) : Bool := c == '\t' || (0x20 ≤ c.toNat && c.toNat ≠ 0x7F)

/-- What follows a line end. -/
def afterNewline? : List Char → Option (List Char)
  | '\n' :: rest => some rest
  | '\r' :: '\n' :: rest => some rest
  | _ => none

/-- Skips blanks, line ends and whole comments. -/
def skipBreaks : Bool → List Char → Option (List Char)
  | _, [] => some []
  | _, '\n' :: rest => skipBreaks false rest
  | _, '\r' :: '\n' :: rest => skipBreaks false rest
  | true, c :: rest => if isPlain c then skipBreaks true rest else none
  | false, c :: rest =>
    if isBlankChar c then skipBreaks false rest
    else if c == '#' then skipBreaks true rest
    else some (c :: rest)

/-- The character of a code, unless the code is half of a surrogate pair or too large. -/
def scalar? (digits : List Char) : Option Char := do
  let code ← hexValue? digits
  if code < 0xD800 || (0xE000 ≤ code && code < 0x110000) then some (Char.ofNat code) else none

/-- Reads an escape after its backslash. -/
def readEscape : Reader Char
  | 'b' :: rest => some ('\x08', rest)
  | 't' :: rest => some ('\t', rest)
  | 'n' :: rest => some ('\n', rest)
  | 'f' :: rest => some ('\x0c', rest)
  | 'r' :: rest => some ('\r', rest)
  | '"' :: rest => some ('"', rest)
  | '\\' :: rest => some ('\\', rest)
  | 'u' :: rest =>
    if 4 ≤ rest.length then (scalar? (rest.take 4)).map fun c => (c, rest.drop 4) else none
  | 'U' :: rest =>
    if 8 ≤ rest.length then (scalar? (rest.take 8)).map fun c => (c, rest.drop 8) else none
  | _ => none

/-- Reads the rest of a string in double quotes on one line. -/
def readBasic : Nat → Reader (List Char)
  | 0, _ => none
  | _, [] => none
  | _ + 1, '"' :: rest => some ([], rest)
  | fuel + 1, '\\' :: rest => do
    let (c, rest) ← readEscape rest
    let (more, rest) ← readBasic fuel rest
    some (c :: more, rest)
  | fuel + 1, c :: rest =>
    if isPlain c then (readBasic fuel rest).map fun (more, left) => (c :: more, left) else none

/-- Reads the rest of a string in single quotes on one line. -/
def readLiteral : Reader (List Char)
  | [] => none
  | c :: rest =>
    if c == '\'' then some ([], rest)
    else if isPlain c then (readLiteral rest).map fun (more, left) => (c :: more, left)
    else none

/-- The quotes of a run in a text of several lines that belong to the text, and what follows the
run; none if the run does not end the text. -/
def closing? (quote : Char) (cs : List Char) : Option (List Char × List Char) :=
  let run := (cs.takeWhile (· == quote)).length
  if run < 3 then none
  else
    let inner := min (run - 3) 2
    some (List.replicate inner quote, cs.drop (inner + 3))

/-- What follows a backslash at the end of a line, the blanks and line ends after it skipped. -/
def afterLineContinuation? (cs : List Char) : Option (List Char) :=
  (afterNewline? (skipBlanks cs)).map fun rest =>
    rest.dropWhile fun c => isBlankChar c || c == '\n' || c == '\r'

/-- Whether every carriage return of a run of blanks and line ends stands before a line feed. -/
def cleanReturns : List Char → Bool
  | '\r' :: '\n' :: rest => cleanReturns rest
  | '\r' :: _ => false
  | c :: rest => if isBlankChar c || c == '\n' then cleanReturns rest else true
  | [] => true

/-- Reads the rest of a string in three double quotes. -/
def readMultiBasic : Nat → Reader (List Char)
  | 0, _ => none
  | _, [] => none
  | fuel + 1, '"' :: rest =>
    match closing? '"' ('"' :: rest) with
    | some found => some found
    | none => (readMultiBasic fuel rest).map fun (more, left) => ('"' :: more, left)
  | fuel + 1, '\\' :: rest =>
    match readEscape rest with
    | some (c, rest) => (readMultiBasic fuel rest).map fun (more, left) => (c :: more, left)
    | none =>
      match afterLineContinuation? rest with
      | some after =>
        if cleanReturns (skipBlanks rest) then readMultiBasic fuel after else none
      | none => none
  | fuel + 1, '\r' :: '\n' :: rest =>
    (readMultiBasic fuel rest).map fun (more, left) => ('\n' :: more, left)
  | fuel + 1, c :: rest =>
    if c == '\n' || isPlain c then
      (readMultiBasic fuel rest).map fun (more, left) => (c :: more, left)
    else none

/-- Reads the rest of a string in three single quotes. -/
def readMultiLiteral : Nat → Reader (List Char)
  | 0, _ => none
  | _, [] => none
  | fuel + 1, '\r' :: '\n' :: rest =>
    (readMultiLiteral fuel rest).map fun (more, left) => ('\n' :: more, left)
  | fuel + 1, c :: rest =>
    if c == '\'' then
      match closing? '\'' (c :: rest) with
      | some found => some found
      | none => (readMultiLiteral fuel rest).map fun (more, left) => (c :: more, left)
    else if c == '\n' || isPlain c then
      (readMultiLiteral fuel rest).map fun (more, left) => (c :: more, left)
    else none

/-- Drops a line end right after the opening quotes. -/
def dropFirstNewline (cs : List Char) : List Char := (afterNewline? cs).getD cs

/-- Reads a string of any of the four forms. -/
def readString (cs : List Char) : Option (String × List Char) :=
  let fuel := cs.length + 1
  let found := match cs with
    | '"' :: '"' :: '"' :: rest => readMultiBasic fuel (dropFirstNewline rest)
    | '"' :: rest => readBasic fuel rest
    | a :: b :: c :: rest =>
      if a == '\'' && b == '\'' && c == '\'' then readMultiLiteral fuel (dropFirstNewline rest)
      else if a == '\'' then readLiteral (b :: c :: rest)
      else none
    | a :: rest => if a == '\'' then readLiteral rest else none
    | [] => none
  found.map fun (text, rest) => (String.ofList text, rest)

/-- Reads digits, a single underscore allowed between two of them. -/
def readDigits (isDigit : Char → Bool) : List Char → List Char × List Char
  | [] => ([], [])
  | c :: rest =>
    if isDigit c then
      match rest with
      | '_' :: d :: more =>
        if isDigit d then
          let (digits, left) := readDigits isDigit (d :: more)
          (c :: digits, left)
        else ([c], rest)
      | rest =>
        let (digits, left) := readDigits isDigit rest
        (c :: digits, left)
    else ([], c :: rest)
termination_by cs => cs.length

def readSign : List Char → Bool × List Char
  | '-' :: rest => (true, rest)
  | '+' :: rest => (false, rest)
  | cs => (false, cs)

def decimalValue (digits : List Char) : Nat :=
  digits.foldl (fun n d => n * 10 + (d.toNat - '0'.toNat)) 0

/-- The value of digits in a base. -/
def valueIn (base : Nat) (digits : List Char) : Nat :=
  digits.foldl (fun n d => n * base + (hexDigit? d).getD 0) 0

/-- An integer of 64 bits. -/
def bounded? (i : Int) : Option Int :=
  if -Int.pow 2 63 ≤ i && i < Int.pow 2 63 then some i else none

/-- Reads the digits of an integer without zeros in front. -/
def readWhole (cs : List Char) : Option (List Char × List Char) :=
  match cs with
  | '0' :: rest => some (['0'], rest)
  | cs =>
    let (digits, rest) := readDigits Char.isDigit cs
    if digits.isEmpty then none else some (digits, rest)

/-- Reads an integer with a base in front, which has no sign. -/
def readBased (base : Nat) (isDigit : Char → Bool) (cs : List Char) : Option (Toml × List Char) :=
  let (digits, rest) := readDigits isDigit cs
  if digits.isEmpty then none
  else (bounded? (valueIn base digits)).map fun i => (.integer i, rest)

def readInteger (cs : List Char) : Option (Toml × List Char) :=
  match cs with
  | '0' :: 'x' :: rest => readBased 16 isHexDigit rest
  | '0' :: 'o' :: rest => readBased 8 (fun c => '0' ≤ c && c ≤ '7') rest
  | '0' :: 'b' :: rest => readBased 2 (fun c => c == '0' || c == '1') rest
  | cs => do
    let (negative, rest) := readSign cs
    let (digits, rest) ← readWhole rest
    let size : Int := decimalValue digits
    let i ← bounded? (if negative then -size else size)
    some (.integer i, rest)

/-- The nearest double to `significand * 10 ^ exponent`. -/
def nearest (negative : Bool) (significand : Nat) (exponent : Int) : TomlFloat :=
  let leading : Int := (Nat.toDigits 10 significand).length + exponent
  let x :=
    if significand = 0 || leading < -400 then Binary64.ofRatio negative 0 1
    else if 400 < leading then ⟨negative, Binary64.infiniteOrdinal⟩
    else if 0 ≤ exponent then Binary64.ofRatio negative (significand * Nat.pow 10 exponent.toNat) 1
    else Binary64.ofRatio negative significand (Nat.pow 10 (-exponent).toNat)
  if x.isFinite then .finite x else .infinite negative

/-- Reads an exponent after its letter. -/
def readPower (cs : List Char) : Option (Int × List Char) :=
  let (negative, rest) := readSign cs
  let (digits, rest) := readDigits Char.isDigit rest
  let size : Int := decimalValue digits
  if digits.isEmpty then none else some (if negative then -size else size, rest)

/-- Reads an exponent if there is one. -/
def readOptionalPower (cs : List Char) : Option (Int × List Char) :=
  match cs with
  | 'e' :: rest => readPower rest
  | 'E' :: rest => readPower rest
  | cs => some (0, cs)

/-- Whether a text goes on as a float after its whole part. -/
def continuesFloat (cs : List Char) : Bool :=
  match cs with
  | c :: _ => c == '.' || c == 'e' || c == 'E'
  | [] => false

/-- Reads a float; one that is too large is refused, unless it is negative. -/
def readFloat (cs : List Char) : Option (Toml × List Char) := do
  let (negative, rest) := readSign cs
  match rest with
  | 'i' :: 'n' :: 'f' :: rest => some (.float (.infinite negative), rest)
  | 'n' :: 'a' :: 'n' :: rest => some (.float .nan, rest)
  | rest =>
    let (whole, rest) ← readWhole rest
    if !continuesFloat rest then none
    else
      let (fraction, rest) ← match rest with
        | '.' :: rest =>
          let (digits, rest) := readDigits Char.isDigit rest
          if digits.isEmpty then none else some (digits, rest)
        | rest => some ([], rest)
      let (power, rest) ← readOptionalPower rest
      let x := nearest negative (decimalValue (whole ++ fraction)) (power - fraction.length)
      if x = .infinite false then none else some (.float x, rest)

/-- Reads a number of exactly `width` digits up to a bound. -/
def readField (width low high : Nat) (cs : List Char) : Option (Nat × List Char) :=
  let digits := cs.take width
  let value := decimalValue digits
  if digits.length = width && digits.all Char.isDigit && low ≤ value && value ≤ high then
    some (value, cs.drop width)
  else none

def expectChar (c : Char) : List Char → Option (List Char)
  | [] => none
  | d :: rest => if d = c then some rest else none

def daysIn (year month : Nat) : Nat :=
  if month = 2 then
    if year % 4 = 0 && (year % 100 ≠ 0 || year % 400 = 0) then 29 else 28
  else if month = 4 || month = 6 || month = 9 || month = 11 then 30
  else 31

def readDate (cs : List Char) : Option (List Char) := do
  let (year, rest) ← readField 4 0 9999 cs
  let rest ← expectChar '-' rest
  let (month, rest) ← readField 2 1 12 rest
  let rest ← expectChar '-' rest
  let (_, rest) ← readField 2 1 (daysIn year month) rest
  some rest

def readTime (cs : List Char) : Option (List Char) := do
  let (_, rest) ← readField 2 0 23 cs
  let rest ← expectChar ':' rest
  let (_, rest) ← readField 2 0 59 rest
  let rest ← expectChar ':' rest
  let (_, rest) ← readField 2 0 60 rest
  match rest with
  | '.' :: fraction =>
    let digits := fraction.takeWhile Char.isDigit
    if digits.isEmpty then some rest else some (fraction.dropWhile Char.isDigit)
  | rest => some rest

/-- Reads an offset from universal time if there is one. -/
def readOffset (cs : List Char) : Option (List Char) :=
  let distance (cs : List Char) : Option (List Char) := do
    let (_, rest) ← readField 2 0 23 cs
    let rest ← expectChar ':' rest
    let (_, rest) ← readField 2 0 59 rest
    some rest
  match cs with
  | 'Z' :: rest => some rest
  | 'z' :: rest => some rest
  | '+' :: rest => distance rest
  | '-' :: rest => distance rest
  | cs => some cs

/-- Reads a date, a time, or both. -/
def readDatetime (cs : List Char) : Option (Toml × List Char) :=
  match readDate cs with
  | some rest =>
    let time := match rest with
      | 'T' :: after => readTime after
      | 't' :: after => readTime after
      | ' ' :: after => if (after.head?.map Char.isDigit).getD false then readTime after else none
      | _ => none
    match time with
    | some rest => (readOffset rest).map fun rest => (.datetime, rest)
    | none => some (.datetime, rest)
  | none => (readTime cs).map fun rest => (.datetime, rest)

/-- Reads a number, a date or a time. -/
def readNumeric (cs : List Char) : Option (Toml × List Char) :=
  ((readDatetime cs).orElse fun _ => readFloat cs).orElse fun _ => readInteger cs

end Toml

end CommitVerdict
