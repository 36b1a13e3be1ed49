import Blockscript.Decimal.Context

/-!
# Sums, products and quotients

Sums and products are computed with as many digits as the exact result needs, so
they are never rounded inside the exponent range. A quotient is given at the
exponent of the dividend. It is computed in two steps: first to a precision that
keeps 28 digits beyond that exponent, then rounded there.
-/

namespace Blockscript.Decimal

/-- The sum in a context. A zero sum is negative only when both parts are. -/
def sum (context : Context) (left right : Decimal) : Except Refusal Decimal :=
  let exponent := min left.exponent right.exponent
  let total := left.alignedTo exponent + right.alignedTo exponent
  let negative := if total = 0 then left.negative && right.negative else decide (total < 0)
  context.finish ⟨negative, total.natAbs, exponent⟩

/-- The product in a context. -/
def product (context : Context) (left right : Decimal) : Except Refusal Decimal :=
  context.finish
    ⟨left.negative != right.negative, left.coefficient * right.coefficient,
      left.exponent + right.exponent⟩

/-- Removes trailing zeros of a positive coefficient, at most `limit` of them,
and tells how many. Blocks of zeros are tried from `2^(level-1)` of them down to
a single one; fewer than `2^level` are removed. -/
def stripZerosAt : Nat → Nat → Nat → Nat × Nat
  | 0, _, coefficient => (coefficient, 0)
  | level + 1, limit, coefficient =>
    let block := twoTo level
    if block ≤ limit && coefficient % tenTo block = 0 then
      let (stripped, count) := stripZerosAt level (limit - block) (coefficient / tenTo block)
      (stripped, block + count)
    else
      stripZerosAt level limit coefficient

/-- Removes trailing zeros of a positive coefficient, at most `limit` of them,
and tells how many. -/
def stripZeros (coefficient limit : Nat) : Nat × Nat :=
  stripZerosAt (limit.log2 + 1) limit coefficient

/-- The quotient in a context, for a divisor that is not zero. One digit more
than the precision is computed. An exact quotient returns as far as possible to
the difference of the exponents. For an inexact one a last digit that would
decide a rounding wrongly is moved off the tie. -/
def quotient (context : Context) (left right : Decimal) : Except Refusal Decimal :=
  let negative := left.negative != right.negative
  let ideal := left.exponent - right.exponent
  if left.isZero then
    context.finish ⟨negative, 0, ideal⟩
  else
    let shift : Int :=
      digitCount right.coefficient - digitCount left.coefficient + context.precision + 1
    let dividend := left.coefficient * tenTo shift.toNat
    let divisor := right.coefficient * tenTo (-shift).toNat
    let digits := dividend / divisor
    if dividend % divisor = 0 then
      let (stripped, count) := stripZeros digits shift.toNat
      context.finish ⟨negative, stripped, ideal - shift + count⟩
    else
      context.finish
        ⟨negative, if digits % 5 = 0 then digits + 1 else digits, ideal - shift⟩

/-- The number at another exponent, rounded there. It is refused when the
exponent is out of range or the digits do not fit the precision. -/
def rescale (context : Context) (number : Decimal) (exponent : Int) : Except Refusal Decimal :=
  if Context.largest < exponent || exponent < context.tiny then
    .error .invalid
  else if number.isZero then
    context.finish { number with exponent := exponent }
  else
    let widening := number.exponent - exponent
    if context.precision < digitCount number.coefficient + widening then
      .error .invalid
    else
      let moved : Decimal :=
        if 0 ≤ widening then
          { number with
            coefficient := number.coefficient * tenTo widening.toNat
            exponent := exponent }
        else
          { number with
            coefficient := roundOff number.coefficient (-widening).toNat
            exponent := exponent }
      if Context.largest < moved.adjusted || moved.adjusted < context.tiny then
        .error .invalid
      else
        context.finish moved

/-- Digits that suffice for the exact sum, difference and product: from the
higher leading digit down to the lower last one, and a carry. -/
def exactPrecision (left right : Decimal) : Nat :=
  let span := max left.adjusted right.adjusted - min left.exponent right.exponent + 2
  max span.toNat (digitCount left.coefficient + digitCount right.coefficient)

/-- The context in which sums and products of two numbers are exact. -/
def exactContext (left right : Decimal) : Context :=
  ⟨max Context.usual (exactPrecision left right)⟩

/-- The exact sum. -/
def add (left right : Decimal) : Except Refusal Decimal :=
  sum (exactContext left right) left right

/-- The exact difference. -/
def subtract (left right : Decimal) : Except Refusal Decimal :=
  sum (exactContext left right) left right.opposite

/-- The exact product. -/
def multiply (left right : Decimal) : Except Refusal Decimal :=
  product (exactContext left right) left right

/-- The precision of a division: the digits of the quotient before the point,
those kept after it, and 28 more as guard. -/
def divisionContext (left right : Decimal) : Context :=
  ⟨max Context.usual (left.adjusted - right.adjusted + 2 - left.exponent + 28).toNat⟩

/-- The quotient at the exponent of the dividend, for a divisor that is not
zero. The target exponent is itself a number of the context, `10^exponent`, and
has to lie in its range. -/
def divide (left right : Decimal) : Except Refusal Decimal := do
  let context := divisionContext left right
  let raw ← quotient context left right
  let unit ← context.finish { one with exponent := left.exponent }
  rescale context raw unit.exponent

end Blockscript.Decimal
