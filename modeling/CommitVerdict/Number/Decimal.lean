import CommitVerdict.Number.Binary64
import CommitVerdict.Number.Literal

namespace CommitVerdict

/-- The decimal number `significand * 10 ^ exponent`, with its sign. -/
structure Decimal where
  negative : Bool
  significand : Nat
  exponent : Int
deriving DecidableEq, Repr, Inhabited

namespace Binary64

/-- The distance to the next number, over `unitDenominator`. -/
def step (x : Binary64) : Nat := Nat.pow 2 x.scale

/-- Four times the lower end of the interval that rounds to the number. The number below a power of two
is only half a step away. -/
def lowEnd (x : Binary64) : Nat :=
  4 * x.magnitude -
    if x.significand == Nat.pow 2 fractionBits && x.scale != 0 then x.step else 2 * x.step

/-- Four times the upper end of the interval that rounds to the number. -/
def highEnd (x : Binary64) : Nat := 4 * x.magnitude + 2 * x.step

/-- Whether the ends of the interval round to the number themselves, ties going to the even neighbour. -/
def isEven (x : Binary64) : Bool := x.significand % 2 == 0

/-- A numerator over `unitDenominator` as one over the denominator of a decimal grid. -/
def scaledTo (value : Nat) (gridExponent : Int) : Nat := value * Nat.pow 10 (-gridExponent).toNat

/-- The distance between the decimals of an exponent, over the denominator of their grid. -/
def gridOf (gridExponent : Int) : Nat := unitDenominator * Nat.pow 10 gridExponent.toNat

/-- Whether so many units of a decimal grid round to the number. -/
def reads (x : Binary64) (gridExponent : Int) (digits : Nat) : Bool :=
  let low := scaledTo x.lowEnd gridExponent
  let high := scaledTo x.highEnd gridExponent
  let position := 4 * digits * gridOf gridExponent
  if x.isEven then low ≤ position && position ≤ high else low < position && position < high

/-- The decimal on a grid that rounds to the number. The nearer of the two neighbours on the grid comes
first, the even one on a tie. -/
def candidate? (x : Binary64) (gridExponent : Int) : Option Nat :=
  let scaled := scaledTo x.magnitude gridExponent
  let floor := scaled / gridOf gridExponent
  let nearest := roundHalfEven scaled (gridOf gridExponent)
  let other := if nearest == floor then floor + 1 else floor
  if x.reads gridExponent nearest then some nearest
  else if x.reads gridExponent other then some other
  else none

/-- The exponent of the leading decimal digit of a positive number. -/
def leadingExponent (x : Binary64) : Int :=
  let digits := (Nat.toDigits 10 (x.magnitude * Nat.pow 10 340 / unitDenominator)).length
  (digits : Int) - 341

/-- Drops trailing zeros, each of them raising the exponent by one. -/
def trimZeros : Nat → Nat → Int → Nat × Int
  | 0, digits, exponent => (digits, exponent)
  | fuel + 1, digits, exponent =>
    if digits ≠ 0 && digits % 10 == 0 then trimZeros fuel (digits / 10) (exponent + 1)
    else (digits, exponent)

/-- The candidate with the fewest digits, seventeen at most, and its exponent. -/
def firstCandidate? (x : Binary64) : Option (Nat × Int) :=
  (List.range 17).findSome? fun (more : Nat) =>
    let gridExponent := x.leadingExponent - (more : Int)
    (x.candidate? gridExponent).map fun digits => (digits, gridExponent)

/-- The shortest decimal that reads back as `x`, and of those the nearest one; zero keeps its sign. -/
def shortest (x : Binary64) : Decimal :=
  if x.isZero then ⟨x.negative, 0, 0⟩
  else
    let (digits, exponent) := x.firstCandidate?.getD (0, 0)
    let (digits, exponent) := trimZeros 17 digits exponent
    ⟨x.negative, digits, exponent⟩

end Binary64

namespace Decimal

/-- The digits after the point when `places` of them are cut off a significand. -/
def cutDigits (significand places : Nat) : Digits :=
  let digits := Digits.ofNat (significand % Nat.pow 10 places)
  ⟨List.replicate (places - digits.chars.length) '0' ++ digits.chars, by
    intro c hmem
    rcases List.mem_append.mp hmem with hzero | hdigit
    · rw [List.eq_of_mem_replicate hzero]
      decide
    · exact digits.isDigit c hdigit⟩

/-- Positional notation, always with a point and at least one digit on either side of it. -/
def positional (d : Decimal) : NumberLiteral :=
  if 0 ≤ d.exponent then ⟨d.negative, d.significand * Nat.pow 10 d.exponent.toNat, .ofNat 0, none⟩
  else
    let places := (-d.exponent).toNat
    ⟨d.negative, d.significand / Nat.pow 10 places, cutDigits d.significand places, none⟩

/-- The exponent of the leading digit. -/
def power (d : Decimal) : Int := (Nat.toDigits 10 d.significand).length + d.exponent - 1

/-- Notation with one digit before the point; a single digit stands without a point. -/
def exponential (d : Decimal) : NumberLiteral :=
  let places := (Nat.toDigits 10 d.significand).length - 1
  let fraction := if places = 0 then .empty else cutDigits d.significand places
  ⟨d.negative, d.significand / Nat.pow 10 places, fraction, some d.power⟩

/-- The form of numbers in documents: positional while the leading digit has an exponent from -5 to
15, exponential otherwise. -/
def literal (d : Decimal) : NumberLiteral :=
  if d.significand = 0 || (-5 ≤ d.power && d.power ≤ 15) then d.positional else d.exponential

end Decimal

namespace Binary64

/-- The document form of a finite number. -/
def literal (x : Binary64) : NumberLiteral := x.shortest.literal

/-- One digit after the point, rounded from the exact value with ties to even. A negative number
keeps its sign even when it rounds to zero. -/
def oneDecimal (x : Binary64) : String :=
  let tenths := roundHalfEven (x.magnitude * 10) unitDenominator
  let sign := if x.negative then "-" else ""
  s!"{sign}{tenths / 10}.{tenths % 10}"

end Binary64

end CommitVerdict
