import CommitVerdict.Text.Hex

namespace CommitVerdict

/-- A number of forty hexadecimal digits. Equality and order of ids are those of the numbers, which agree with
those of the written forms because all of them have the same length. -/
structure CommitId where
  value : Fin (Nat.pow 16 40)
deriving DecidableEq, Repr

/-- Why a text is no commit id. -/
inductive CommitIdError where
  | tooShort
  | tooLong
  | invalidCharacters
deriving DecidableEq, Repr

namespace CommitIdError

def message (e : CommitIdError) : String :=
  let reason := match e with
    | .tooShort => "too short"
    | .tooLong => "too long"
    | .invalidCharacters => "contains invalid characters"
  s!"unable to parse OID - {reason}; class=Invalid (3)"

end CommitIdError

namespace CommitId

/-- Number of hexadecimal digits of an id. -/
def width : Nat := 40

/-- Number of digits in the abbreviated form. -/
def abbreviatedWidth : Nat := 10

def ofNat (n : Nat) : CommitId := ⟨n % Nat.pow 16 40, Nat.mod_lt n (by decide)⟩

/-- Reads an id from its leading digits, of either case; the remaining digits are zero. The length is judged
in bytes and before the digits. -/
def parse (s : String) : Except CommitIdError CommitId :=
  if s.isEmpty then .error .tooShort
  else if width < s.utf8ByteSize then .error .tooLong
  else
    match hexValue? s.toList with
    | some value => .ok (ofNat (value * Nat.pow 16 (width - s.toList.length)))
    | none => .error .invalidCharacters

def digits (id : CommitId) : List Char := hexDigits width id.value

/-- The full form, of forty digits. -/
def hex (id : CommitId) : String := String.ofList id.digits

/-- The first ten digits. -/
def abbreviated (id : CommitId) : String := String.ofList (id.digits.take abbreviatedWidth)

/-- Whether the digits begin the written form of the id. -/
def startsWith (id : CommitId) (start : List Char) : Bool :=
  start.isPrefixOf id.digits

/-- Whether an id is below another one. -/
def before (a b : CommitId) : Bool := a.value < b.value

end CommitId

end CommitVerdict
