import CommitVerdict.Number.Binary64

namespace CommitVerdict

/-- A length of time in whole nanoseconds, of fewer than `2 ^ 64` seconds. -/
structure Duration where
  nanoseconds : Nat
deriving DecidableEq, Repr, Inhabited

namespace Duration

def zero : Duration := ⟨0⟩

def perSecond : Nat := 1000000000

/-- One thousandth of a second. -/
def millisecond : Duration := ⟨1000000⟩

def ofParts (seconds nanoseconds : Nat) : Duration := ⟨seconds * perSecond + nanoseconds⟩

def wholeSeconds (d : Duration) : Nat := d.nanoseconds / perSecond

def subsecond (d : Duration) : Nat := d.nanoseconds % perSecond

/-- The seconds of a duration: the sum of two doubles, the whole seconds and the billionths, each rounded on
its own before the sum is rounded. So a duration of many seconds loses its nanoseconds. -/
def toSeconds (d : Duration) : Binary64 :=
  Binary64.addMagnitudes (Binary64.ofNat d.wholeSeconds)
    (Binary64.div (Binary64.ofNat d.subsecond) (Binary64.ofNat perSecond))

/-- Why a number of seconds is no duration. -/
inductive OutOfRange where
  | negative
  | tooBig
deriving DecidableEq, Repr

def OutOfRange.message : OutOfRange → String
  | .negative => "cannot convert float seconds to Duration: value is negative"
  | .tooBig => "cannot convert float seconds to Duration: value is either too big or NaN"

/-- The duration nearest to a number of seconds, ties to even. The negative zero is zero. -/
def ofSeconds (x : Binary64) : Except OutOfRange Duration :=
  if x.negative && !x.isZero then .error .negative
  else
    let total := roundHalfEven (x.magnitude * perSecond) Binary64.unitDenominator
    if x.isFinite && total < Nat.pow 2 64 * perSecond then .ok ⟨total⟩ else .error .tooBig

end Duration

end CommitVerdict
