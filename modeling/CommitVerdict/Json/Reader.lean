import CommitVerdict.Json.Basic
import CommitVerdict.Text.Hex

namespace CommitVerdict

namespace Json

def isSpace (c : Char) : Bool := c == ' ' || c == '\n' || c == '\t' || c == '\r'

def skipSpace (cs : List Char) : List Char := cs.dropWhile isSpace

def hexQuad? (a b c d : Char) : Option Nat := hexValue? [a, b, c, d]

/-- The character of a one-letter escape. -/
def shortEscape? : Char → Option Char
  | '"' => some '"'
  | '\\' => some '\\'
  | '/' => some '/'
  | 'b' => some '\x08'
  | 'f' => some '\x0c'
  | 'n' => some '\n'
  | 'r' => some '\r'
  | 't' => some '\t'
  | _ => none

/-- Reads the rest of a string, up to and with its closing quote. `high` is the first half of a
surrogate pair whose second half has to come next. -/
def readString (high : Option Nat) : List Char → Option (List Char × List Char)
  | '\\' :: 'u' :: a :: b :: c :: d :: rest =>
    match high, hexQuad? a b c d with
    | _, none => none
    | none, some unit =>
      if 0xD800 ≤ unit && unit < 0xDC00 then readString (some unit) rest
      else if 0xDC00 ≤ unit && unit < 0xE000 then none
      else (readString none rest).map fun (s, left) => (Char.ofNat unit :: s, left)
    | some first, some unit =>
      if 0xDC00 ≤ unit && unit < 0xE000 then
        let code := 0x10000 + (first - 0xD800) * 0x400 + (unit - 0xDC00)
        (readString none rest).map fun (s, left) => (Char.ofNat code :: s, left)
      else none
  | '\\' :: e :: rest =>
    match high, shortEscape? e with
    | none, some c => (readString none rest).map fun (s, left) => (c :: s, left)
    | _, _ => none
  | '"' :: rest => if high.isSome then none else some ([], rest)
  | c :: rest =>
    if high.isSome || c == '\\' || c.toNat < 0x20 then none
    else (readString none rest).map fun (s, left) => (c :: s, left)
  | [] => none

/-- The number that a run of decimal digits writes. -/
def digitsValue (ds : List Char) : Nat := Nat.ofDigitChars 10 ds 0

/-- Reads the fraction of a number: a point with at least one digit after it, or nothing. -/
def readFraction : List Char → Option (Digits × List Char)
  | '.' :: rest =>
    let digits := Digits.leading rest
    if digits.chars.isEmpty then none else some (digits, rest.dropWhile Char.isDigit)
  | cs => some (.empty, cs)

/-- Reads the digits of an exponent after its letter and sign. -/
def readExponentDigits (negative : Bool) (cs : List Char) : Option (Option Int × List Char) :=
  let digits := Digits.leading cs
  let size : Int := digitsValue digits.chars
  if digits.chars.isEmpty then none
  else some (some (if negative then -size else size), cs.dropWhile Char.isDigit)

/-- Reads the exponent of a number, if it has one. -/
def readExponent : List Char → Option (Option Int × List Char)
  | e :: rest =>
    if e == 'e' || e == 'E' then
      match rest with
      | '+' :: rest => readExponentDigits false rest
      | '-' :: rest => readExponentDigits true rest
      | rest => readExponentDigits false rest
    else some (none, e :: rest)
  | [] => some (none, [])

/-- Reads a number after its sign. A whole part has no zero in front of other digits. -/
def readUnsigned (negative : Bool) (cs : List Char) : Option (NumberLiteral × List Char) := do
  let whole := Digits.leading cs
  let rest := cs.dropWhile Char.isDigit
  match whole.chars with
  | [] => none
  | '0' :: _ :: _ => none
  | _ =>
    let (fraction, rest) ← readFraction rest
    let (exponent, rest) ← readExponent rest
    some (⟨negative, digitsValue whole.chars, fraction, exponent⟩, rest)

def readNumber : List Char → Option (NumberLiteral × List Char)
  | '-' :: rest => readUnsigned true rest
  | cs => readUnsigned false cs

mutual

/-- Reads a value that starts at the first character. -/
def readValue : Nat → List Char → Option (Json × List Char)
  | 0, _ => none
  | fuel + 1, cs =>
    match cs with
    | 'n' :: 'u' :: 'l' :: 'l' :: rest => some (.null, rest)
    | 't' :: 'r' :: 'u' :: 'e' :: rest => some (.bool true, rest)
    | 'f' :: 'a' :: 'l' :: 's' :: 'e' :: rest => some (.bool false, rest)
    | '"' :: rest => (readString none rest).map fun (s, left) => (.string (.ofList s), left)
    | '[' :: rest =>
      match skipSpace rest with
      | ']' :: rest => some (.array [], rest)
      | rest => (readItems fuel rest).map fun (items, left) => (.array items, left)
    | '\x7b' :: rest =>
      match skipSpace rest with
      | '\x7d' :: rest => some (.object [], rest)
      | rest => (readFields fuel rest).map fun (fields, left) => (.object fields, left)
    | cs => (readNumber cs).map fun (n, left) => (.number n, left)

/-- Reads the items of an array that is not empty, with its closing bracket. -/
def readItems : Nat → List Char → Option (List Json × List Char)
  | 0, _ => none
  | fuel + 1, cs => do
    let (item, rest) ← readValue fuel cs
    match skipSpace rest with
    | ']' :: rest => some ([item], rest)
    | ',' :: rest =>
      let (items, rest) ← readItems fuel (skipSpace rest)
      some (item :: items, rest)
    | _ => none

/-- Reads the fields of an object that is not empty, with its closing brace. -/
def readFields : Nat → List Char → Option (List (String × Json) × List Char)
  | 0, _ => none
  | fuel + 1, '"' :: cs => do
    let (name, rest) ← readString none cs
    match skipSpace rest with
    | ':' :: rest =>
      let (value, rest) ← readValue fuel (skipSpace rest)
      match skipSpace rest with
      | '\x7d' :: rest => some ([(.ofList name, value)], rest)
      | ',' :: rest =>
        let (fields, rest) ← readFields fuel (skipSpace rest)
        some ((.ofList name, value) :: fields, rest)
      | _ => none
    | _ => none
  | _ + 1, _ => none

end

/-- Reads a whole text as one document, space around it allowed. -/
def parse? (text : String) : Option Json :=
  let cs := skipSpace text.toList
  match readValue (2 * cs.length + 1) cs with
  | some (value, rest) => if (skipSpace rest).isEmpty then some value else none
  | none => none

end Json

end CommitVerdict
