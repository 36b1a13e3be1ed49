import Blockscript.Decimal.Arithmetic

/-!
# Integer powers of decimal numbers

A power is given to sixteen digits. It is built by repeated squaring in a
context with a few more digits, every intermediate product being rounded there,
and rounded once more at the end; so its last digit is that of this computation
and need not be the nearest one. Powers of one keep, as far as they fit, the
zeros that multiplying out would give.
-/

namespace Blockscript.Decimal

/-- The digits of a power. -/
def powerContext : Context := ⟨16⟩

/-- The bits of a positive exponent below its leading one, highest first. -/
def lowerBits (exponent : Nat) : List Bool :=
  if exponent < 2 then [] else lowerBits (exponent / 2) ++ [decide (exponent % 2 = 1)]
termination_by exponent
decreasing_by omega

/-- Continues a power from its leading bits: each further bit squares, and a set
bit multiplies once more. A product that has become zero ends the computation,
because the base is not zero and so the product has left the exponent range. -/
def powerFrom (context : Context) (base : Decimal) :
    Decimal → List Bool → Except Refusal Decimal
  | reached, [] => .ok reached
  | reached, bit :: lower => do
    let squared ← product context reached reached
    let next ← if bit then product context squared base else .ok squared
    if next.isZero then .ok next else powerFrom context base next lower

/-- A power from the lowest bit upwards, for exponents beyond a machine word:
`square` holds the base raised to the current power of two. It is not squared
beyond the leading bit, where it might leave the exponent range in vain. -/
def powerUpwards (context : Context) (reached square : Decimal) (exponent : Nat) :
    Except Refusal Decimal := do
  let next ← if exponent % 2 = 1 then product context reached square else .ok reached
  if exponent < 2 || next.isZero then
    .ok next
  else
    powerUpwards context next (← product context square square) (exponent / 2)
termination_by exponent
decreasing_by
  simp_all only [Bool.or_eq_true, decide_eq_true_eq]
  omega

/-- Whether the number is one or minus one, at any exponent. -/
def isUnit (number : Decimal) : Bool :=
  number.adjusted = 0 && number.coefficient = tenTo (digitCount number.coefficient - 1)

/-- The power of a number of magnitude one: its sign and as many zeros after the
point as the precision has room for. -/
def unitPower (negative : Bool) (base : Decimal) (exponent : Int) : Decimal :=
  if exponent < 0 then
    ⟨negative, 1, 0⟩
  else
    let zeros := min (exponent * -base.exponent).toNat (powerContext.precision - 1)
    ⟨negative, tenTo zeros, -(zeros : Int)⟩

/-- The working precision of a power: as many more digits as the exponent has,
two as guard, and one for the reciprocal that a negative exponent takes. -/
def workingContext (exponent : Int) : Context :=
  ⟨powerContext.precision + digitCount exponent.natAbs + 2 + if exponent < 0 then 1 else 0⟩

/-- The number of values of a machine word. -/
def machineWord : Nat :=
  Nat.pow 2 64

/-- A number raised to an integer. Zero with a negative exponent is not
admitted; it is left to the caller to refuse it. -/
def power (base : Decimal) (exponent : Int) : Except Refusal Decimal :=
  let negative := base.negative && exponent % 2 = 1
  if exponent = 0 then
    .ok one
  else if base.isZero then
    .ok ⟨negative, 0, 0⟩
  else if base.isUnit then
    .ok (unitPower negative base exponent)
  else do
    let context := workingContext exponent
    let factor ← if exponent < 0 then quotient context one base else .ok base
    let reached ←
      if exponent.natAbs < machineWord then
        powerFrom context factor factor (lowerBits exponent.natAbs)
      else
        powerUpwards context one factor exponent.natAbs
    powerContext.finish { reached with negative := negative }

end Blockscript.Decimal
