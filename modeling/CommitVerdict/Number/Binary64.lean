namespace CommitVerdict

/-- Rounds a quotient to the nearest natural number; a tie goes to the even neighbour. -/
def roundHalfEven (num den : Nat) : Nat :=
  let quotient := num / den
  let twice := 2 * (num % den)
  if twice < den then quotient
  else if den < twice then quotient + 1
  else quotient + quotient % 2

/-- A double-precision number as a sign and an *ordinal*: its place among the non-negative doubles in
increasing order, which is also the value of the low 63 bits of its encoding. -/
structure Binary64 where
  negative : Bool
  /-- Place among the non-negative doubles, zero first. -/
  ordinal : Nat
deriving DecidableEq, Repr, Inhabited

namespace Binary64

/-- Number of bits of the significand that an encoding stores. -/
def fractionBits : Nat := 52

/-- Ordinals from here on stand for no finite number. -/
def infiniteOrdinal : Nat := 2047 * Nat.pow 2 fractionBits

def isFinite (x : Binary64) : Bool := x.ordinal < infiniteOrdinal

def isZero (x : Binary64) : Bool := x.ordinal == 0

/-- The integer part of the representation: below `2 ^ 53`. -/
def significand (x : Binary64) : Nat :=
  if x.ordinal < Nat.pow 2 fractionBits then x.ordinal
  else Nat.pow 2 fractionBits + x.ordinal % Nat.pow 2 fractionBits

/-- The power of two that multiplies the significand, counted from the smallest one. -/
def scale (x : Binary64) : Nat := x.ordinal / Nat.pow 2 fractionBits - 1

/-- All finite doubles are multiples of the inverse of this number. -/
def unitDenominator : Nat := Nat.pow 2 1074

/-- Numerator of the absolute value over `unitDenominator`. -/
def magnitude (x : Binary64) : Nat := x.significand * Nat.pow 2 x.scale

/-- The double nearest to `num / den`, ties to even; too large a quotient becomes infinite. -/
def ofRatio (negative : Bool) (num den : Nat) : Binary64 :=
  let scaled := num * unitDenominator
  let scale := (scaled / den).log2 - fractionBits
  let rounded := roundHalfEven scaled (den * Nat.pow 2 scale)
  { negative, ordinal := min (scale * Nat.pow 2 fractionBits + rounded) infiniteOrdinal }

def zero : Binary64 := ⟨false, 0⟩

def ofNat (n : Nat) : Binary64 := ofRatio false n 1

def ofInt (i : Int) : Binary64 := ofRatio (i < 0) i.natAbs 1

def mul (x y : Binary64) : Binary64 :=
  ofRatio (x.negative != y.negative) (x.magnitude * y.magnitude)
    (unitDenominator * unitDenominator)

/-- The quotient by a divisor other than zero. -/
def div (x y : Binary64) : Binary64 :=
  ofRatio (x.negative != y.negative) x.magnitude y.magnitude

/-- The sum of two numbers that are not negative. -/
def addMagnitudes (x y : Binary64) : Binary64 :=
  ofRatio false (x.magnitude + y.magnitude) unitDenominator

end Binary64

end CommitVerdict
