import Blockscript.Decimal.Basic

/-!
# Bounded precision and exponent range

Arithmetic works in a context: a number of digits to which results are rounded,
and an exponent range that is the same for all contexts. A result that is too
large is refused. One that is too small loses digits, and may become zero,
without any notice. Rounding goes to the nearest number and, between two equally
near ones, to the one with an even last digit.
-/

namespace Blockscript.Decimal

/-- The reasons for which arithmetic gives no number. -/
inductive Refusal where
  /-- The result lies above the exponent range. -/
  | overflow
  /-- The requested exponent cannot be given to the number. -/
  | invalid
deriving DecidableEq, Inhabited

/-- The integer nearest to `numerator / denominator`, ties to the even one. -/
def nearest (numerator denominator : Nat) : Nat :=
  let quotient := numerator / denominator
  let remainder := numerator % denominator
  if 2 * remainder > denominator || (2 * remainder = denominator && quotient % 2 = 1) then
    quotient + 1
  else
    quotient

/-- Drops the last digits of a coefficient and rounds to what is left. Dropping
more digits than there are leaves less than a tenth of a unit, which is zero. -/
def roundOff (coefficient dropped : Nat) : Nat :=
  if digitCount coefficient < dropped then 0 else nearest coefficient (tenTo dropped)

/-- A working precision in digits. -/
structure Context where
  precision : Nat
deriving DecidableEq, Inhabited

namespace Context

/-- The largest adjusted exponent of a result. -/
def largest : Int := 999999

/-- The smallest adjusted exponent at which all digits are kept. -/
def smallest : Int := -999999

/-- The precision of ordinary arithmetic. -/
def usual : Nat := 28

/-- The exponent below which no digit is kept. -/
def tiny (context : Context) : Int :=
  smallest - context.precision + 1

/-- Brings the exponent of a number into the range. A zero takes the nearest
exponent in the range; a small number is rounded at the last exponent kept. -/
def bound (context : Context) (number : Decimal) : Except Refusal Decimal :=
  if largest < number.adjusted then
    if number.isZero then .ok { number with exponent := largest } else .error .overflow
  else if number.adjusted < smallest && number.exponent < context.tiny then
    let dropped := (context.tiny - number.exponent).toNat
    .ok { number with
      coefficient := roundOff number.coefficient dropped
      exponent := context.tiny }
  else
    .ok number

/-- Rounds a number to the precision. A carry can lengthen the rounded
coefficient by one digit, which then has to go as well. -/
def round (context : Context) (number : Decimal) : Except Refusal Decimal :=
  let excess := digitCount number.coefficient - context.precision
  if excess = 0 then
    .ok number
  else
    let rounded := roundOff number.coefficient excess
    if context.precision < digitCount rounded then
      context.bound { number with
        coefficient := rounded / 10
        exponent := number.exponent + excess + 1 }
    else
      .ok { number with coefficient := rounded, exponent := number.exponent + excess }

/-- The number that the context gives for an exact result. -/
def finish (context : Context) (number : Decimal) : Except Refusal Decimal := do
  context.round (← context.bound number)

end Context

end Blockscript.Decimal
