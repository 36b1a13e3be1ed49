import Blockscript.Running.Fault

/-!
# Operators on values

What a binary operator gives for two values, whatever their kinds. The tests are
made in a fixed order that decides which fault is reported: a text joins with
anything, a zero divisor is noticed before the kinds are compared, and an
exponent is looked at before its base. The logical operators are not among these
operations, since they do not always need both values.
-/

namespace Blockscript.Running

/-- The quotient of two integers without its fraction, for a divisor that is not
zero. -/
def integerQuotient (left right : Int) : Int :=
  left.tdiv right

/-- A power of an integer. Bases without growing powers need only the parity of
the exponent. -/
def integerPower (base : Int) (exponent : Nat) : Int :=
  if base.natAbs ≤ 1 then
    if exponent = 0 then 1 else if exponent % 2 = 0 then base * base else base
  else
    Int.pow base exponent

/-- Whether a value is a number equal to zero. -/
def isZeroNumber : Value → Bool
  | .integer number => number = 0
  | .decimal number => number.isZero
  | _ => false

/-- Whether a value is a text. A character is none. -/
def isText : Value → Bool
  | .string _ => true
  | _ => false

/-- The result of decimal arithmetic as a value. -/
def decimalResult (outcome : Except Decimal.Refusal Decimal) : Except RunFault Value :=
  match outcome with
  | .ok number => .ok (.decimal number)
  | .error refusal => .error (.arithmetic refusal)

/-- A decimal raised to an integer. -/
def decimalPower (base : Decimal) (exponent : Int) : Except RunFault Value :=
  if exponent < 0 && base.isZero then
    .error .powerOfZero
  else
    match base.power exponent with
    | .ok number => .ok (.decimal number)
    | .error refusal => .error (.naming exponent (.powerFailed base exponent refusal))

/-- A power of a value. -/
def power (base exponent : Value) : Except RunFault Value :=
  match exponent with
  | .integer exponent =>
    match base with
    | .decimal base => decimalPower base exponent
    | .integer base =>
      if exponent < 0 then .error .negativeExponent
      else .ok (.integer (integerPower base exponent.toNat))
    | base => .error (.powerBase base.kind)
  | exponent => .error (.exponent exponent.kind)

/-- The order of two values, as a truth value. -/
def compare (left right : Value) (below : Option Bool) : Except RunFault Value :=
  match below with
  | some truth => .ok (.boolean truth)
  | none => .error (.incomparable left.kind right.kind)

/-- Arithmetic on two integers or two decimals. -/
def arithmetic (operator : Operator) (onIntegers : Int → Int → Int)
    (onDecimals : Decimal → Decimal → Except Decimal.Refusal Decimal) (left right : Value) :
    Except RunFault Value :=
  match left, right with
  | .integer left, .integer right => .ok (.integer (onIntegers left right))
  | .decimal left, .decimal right => decimalResult (onDecimals left right)
  | left, right => .error (.unsupported operator left.kind right.kind)

/-- The texts of two values, one behind the other. -/
def join (store : Store) (left right : Value) : Except RunFault Value := do
  let first ← written (left.text? store)
  let second ← written (right.text? store)
  return .string (first ++ second)

/-- What an operator as written gives for two values. -/
def apply (store : Store) (text : String) (left right : Value) : Except RunFault Value :=
  match Operator.ofText? text with
  | some .equal => .ok (.boolean (left.isEqual store right))
  | some .notEqual => .ok (.boolean (!left.isEqual store right))
  | some .less => compare left right (left.isBelow? right)
  | some .greater => compare left right (right.isBelow? left)
  | some .plus =>
    if isText left || isText right then join store left right
    else arithmetic .plus (· + ·) Decimal.add left right
  | some .minus => arithmetic .minus (· - ·) Decimal.subtract left right
  | some .times => arithmetic .times (· * ·) Decimal.multiply left right
  | some .divide =>
    if isZeroNumber right then .error .divisionByZero
    else arithmetic .divide integerQuotient Decimal.divide left right
  | some .power => power left right
  | some .and | some .or | none => .error (.unknownOperator text)

end Blockscript.Running
