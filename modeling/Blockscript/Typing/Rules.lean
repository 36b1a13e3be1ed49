import Blockscript.Typing.Fault

/-!
# Typing rules without a scope

The types of literals and of operators, and what may be stored where. Decimal
literals are limited to the numbers that a double has room for.
-/

namespace Blockscript.Typing

/-- The least magnitude that rounds to no finite double: half a unit above the
greatest one. -/
def doubleLimit : Nat := Nat.pow 2 1024 - Nat.pow 2 970

/-- Whether a decimal rounds to a finite double. The order of magnitude decides
for all but the numbers of 309 digits before the point. -/
def fitsDecimal (number : Decimal) : Bool :=
  if number.isZero || number.adjusted < 308 then
    true
  else if 308 < number.adjusted then
    false
  else
    number.coefficient * tenTo number.exponent.toNat < doubleLimit * tenTo (-number.exponent).toNat

/-- The fault of an integer literal that is too large. It is told with the
integer; when that cannot be written, this is the fault. -/
def tooLarge (number : Int) : TypeFault :=
  if (integerText? number).isSome then .integerTooLarge number else .unwritable

/-- The type of a literal. -/
def literalType : Literal → Except TypeFault Ty
  | .nil => .ok .nil
  | .boolean _ => .ok .boolean
  | .integer number =>
    if Literal.fitsInteger number then .ok .integer else .error (tooLarge number)
  | .decimal number =>
    if fitsDecimal number then .ok .decimal else .error (.decimalTooLarge number)
  | .character _ => .ok .character
  | .string _ => .ok .string

/-- Asks that a value of type `source` may be stored in `target`. -/
def requireAssignable (target source : Ty) : Except TypeFault Unit :=
  if target.isAssignable source then .ok () else .error (.notAssignable source target)

/-- The type that a name of a type means. -/
def resolve (name : String) : Except TypeFault Ty :=
  match Ty.ofText name with
  | .ok type => .ok type
  | .error _ => .error (.unknownType name)

/-- The type of a comparison. Both sides have to be of one ordered kind, or both
`Comparable`. -/
def comparisonType (left right : Ty) : Except TypeFault Ty := do
  requireAssignable .comparable left
  requireAssignable .comparable right
  if left = right then .ok .boolean else .error (.incomparable left right)

/-- The type of a sum, a difference, a product or a quotient of numbers. -/
def arithmeticType (operator : Operator) (left right : Ty) : Except TypeFault Ty :=
  if left = right && (left = .integer || left = .decimal) then .ok left
  else .error (.notNumbers operator left right)

/-- The type of a binary expression with the given operator. A plus sign joins
texts as soon as one side is a text. -/
def operatorType (operator : Operator) (left right : Ty) : Except TypeFault Ty :=
  match operator with
  | .and | .or =>
    if left = .boolean && right = .boolean then .ok .boolean
    else .error (.notBoolean operator left right)
  | .less | .greater | .equal | .notEqual => comparisonType left right
  | .plus =>
    if left = .string || right = .string then .ok .string else arithmeticType .plus left right
  | .minus | .times | .divide => arithmeticType operator left right
  | .power =>
    if (left = .integer || left = .decimal) && right = .integer then .ok left else .error .power

/-- The type of a binary expression with an operator as written. -/
def binaryType (text : String) (left right : Ty) : Except TypeFault Ty :=
  match Operator.ofText? text with
  | some operator => operatorType operator left right
  | none => .error (.unknownOperator text)

end Blockscript.Typing
