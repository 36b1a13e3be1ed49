/-!
# Decimal numbers

A decimal number is a sign, a coefficient and a power of ten. The exponent is
part of the number: `1.0` and `1.00` are numerically equal and still two
different numbers, and zero has a sign. Every number here is finite.

Comparison looks at the orders of magnitude first, so that two numbers with
exponents far apart are compared without building their digits.
-/

namespace Blockscript

/-- The number `(-1)^negative * coefficient * 10^exponent`. -/
structure Decimal where
  negative : Bool
  coefficient : Nat
  exponent : Int
deriving DecidableEq, Inhabited

/-- A power of ten. -/
def tenTo (exponent : Nat) : Nat :=
  Nat.pow 10 exponent

/-- A power of two. -/
def twoTo (exponent : Nat) : Nat :=
  Nat.pow 2 exponent

/-- The digits of a number that has at most `2^level` of them. The higher half
of the digits is split off in one step, so long numbers take few steps. -/
def digitCountAt : Nat → Nat → Nat
  | 0, _ => 1
  | level + 1, number =>
    let half := twoTo level
    if number < tenTo half then digitCountAt level number
    else half + digitCountAt level (number / tenTo half)

/-- A level at which the digits of a number are counted: a number has no more
decimal digits than binary ones. -/
def digitLevel (number : Nat) : Nat :=
  (number.log2 + 1).log2 + 1

/-- How many decimal digits a natural number has; zero has one. -/
def digitCount (number : Nat) : Nat :=
  digitCountAt (digitLevel number) number

/-- Every number has a digit, at whichever level the count begins. -/
theorem digitCountAt_pos (level number : Nat) : 0 < digitCountAt level number := by
  induction level generalizing number with
  | zero => exact Nat.one_pos
  | succ level inductionHypothesis =>
    simp only [digitCountAt]
    split
    · exact inductionHypothesis number
    · exact Nat.add_pos_right _ (inductionHypothesis _)

/-- Every number has a digit, zero as well. -/
theorem digitCount_pos (number : Nat) : 0 < digitCount number :=
  digitCountAt_pos _ number

namespace Decimal

/-- The integer one. -/
def one : Decimal := ⟨false, 1, 0⟩

/-- Whether the number is numerically zero, whatever its sign and exponent. -/
def isZero (number : Decimal) : Bool :=
  number.coefficient = 0

/-- The coefficient together with the sign. Both zeros have the same one. -/
def signed (number : Decimal) : Int :=
  if number.negative then -(number.coefficient : Int) else number.coefficient

/-- The number with the other sign. -/
def opposite (number : Decimal) : Decimal :=
  { number with negative := !number.negative }

/-- The exponent that the number has when it is written with one digit before
the point. -/
def adjusted (number : Decimal) : Int :=
  number.exponent + digitCount number.coefficient - 1

/-- The integer that the number is as a multiple of `10^exponent`, for an
exponent that is not above the number's own. Zero needs no power of ten. -/
def alignedTo (exponent : Int) (number : Decimal) : Int :=
  if number.isZero then 0 else number.signed * tenTo (number.exponent - exponent).toNat

/-- Numerical order. Numbers of one sign are ordered by their order of
magnitude, and within one order of magnitude by their aligned coefficients. -/
def isBelow (left right : Decimal) : Bool :=
  if left.isZero || right.isZero || left.negative != right.negative then
    left.signed.sign < right.signed.sign
  else if left.adjusted = right.adjusted then
    let exponent := min left.exponent right.exponent
    left.alignedTo exponent < right.alignedTo exponent
  else
    (left.adjusted < right.adjusted) != left.negative

/-- Equality of values: the same number at the same exponent. Only the sign of
zero is ignored. -/
def isSame (left right : Decimal) : Bool :=
  left.exponent = right.exponent && left.signed = right.signed

end Decimal

end Blockscript
