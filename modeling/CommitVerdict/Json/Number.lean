import CommitVerdict.Number.Decimal
import CommitVerdict.Json.Basic

namespace CommitVerdict

/-- The number that a literal stands for: an integer that 64 bits hold, or a double. -/
inductive JsonNumber where
  | natural (n : Nat)
  /-- An integer below zero. -/
  | negative (i : Int)
  | real (x : Binary64)
deriving DecidableEq, Repr

namespace JsonNumber

def toBinary64 : JsonNumber → Binary64
  | .natural n => .ofNat n
  | .negative i => .ofInt i
  | .real x => x

end JsonNumber

namespace NumberLiteral

/-- Appends digits to a significand as long as 64 bits hold it. The second result counts the digits
that were left over. -/
def absorb : Nat → List Char → Nat × Nat
  | significand, [] => (significand, 0)
  | significand, d :: ds =>
    let next := significand * 10 + (d.toNat - '0'.toNat)
    if next < Nat.pow 2 64 then absorb next ds else (significand, ds.length + 1)

/-- The largest power of ten that is a double. -/
def greatestPower : Nat := 308

/-- The quotient of a double by `10 ^ n`, which underflows to zero in steps. -/
def scaleDown (x : Binary64) (n : Nat) : Binary64 :=
  if n ≤ greatestPower then x.div (.ofNat (Nat.pow 10 n))
  else if x.isZero then x
  else scaleDown (x.div (.ofNat (Nat.pow 10 greatestPower))) (n - greatestPower)
termination_by n
decreasing_by simp [greatestPower] at *; omega

/-- The product of a double with `10 ^ n`, unless it is too large. -/
def scaleUp? (x : Binary64) (n : Nat) : Option Binary64 :=
  if n ≤ greatestPower then
    let product := x.mul (.ofNat (Nat.pow 10 n))
    if product.isFinite then some product else none
  else if x.isZero then some x
  else none

/-- The number that a literal stands for, unless it is too large for a double. A double is computed step by
step: the leading digits that 64 bits hold, rounded to a double, times or divided by a power of ten that is
itself a double. So it can differ from the nearest double in its last place. -/
def reading? (n : NumberLiteral) : Option JsonNumber :=
  let (significand, excess) := absorb 0 (Nat.toDigits 10 n.whole)
  if n.fraction.chars.isEmpty && n.exponent.isNone && excess = 0
      && (!n.negative || (0 < significand && significand ≤ Nat.pow 2 63)) then
    some (if n.negative then .negative (-significand) else .natural significand)
  else
    let (significand, unread) := absorb significand n.fraction.chars
    let places : Int := n.fraction.chars.length - unread
    let power := excess - places + n.exponent.getD 0
    let start := Binary64.ofNat significand
    let size := if 0 ≤ power then scaleUp? start power.toNat
      else some (scaleDown start (-power).toNat)
    size.map fun x => .real { x with negative := n.negative }

end NumberLiteral

end CommitVerdict
