import Blockscript.Environment
import Blockscript.Operator
import Blockscript.Tree

/-!
# Violated typing rules

The first rule that a program violates ends its checking. Each cause carries
what its message names.
-/

namespace Blockscript

/-- Why a program is not well typed. -/
inductive TypeFault where
  /-- A name is missing, or defined twice. -/
  | scope (fault : ScopeFault)
  | unknownType (name : String)
  | notAssignable (source target : Ty)
  /-- A binding has neither a type nor a value. -/
  | undetermined (name : String)
  | immutableWithoutValue (name : String)
  | mainResult (result : Option Ty)
  /-- A statement is an expression other than a call. -/
  | notCall
  /-- The target of an assignment is no variable or list element. -/
  | notPlace
  /-- The condition behind the given word is not Boolean. -/
  | condition (keyword : String) (type : Ty)
  | emptyThenBlock
  | switchWithoutCase
  | lastCaseLabelled
  | defaultNotLast
  | label (type subject : Ty)
  /-- A group holds something else than a binary expression. -/
  | group
  | integerTooLarge (number : Int)
  | decimalTooLarge (number : Decimal)
  | notBoolean (operator : Operator) (left right : Ty)
  | incomparable (left right : Ty)
  | notNumbers (operator : Operator) (left right : Ty)
  | power
  | unknownOperator (text : String)
  | offset (type : Ty)
  | notList (name : String)
  /-- A call needs the result type of a function that is still being checked. -/
  | resultUnknown (name : String) (arity : Nat)
  | emptyList
  /-- An integer has too many digits to be written. -/
  | unwritable
deriving DecidableEq, Inhabited

namespace TypeFault

/-- The wording of a fault. -/
def message : TypeFault → String
  | scope fault => fault.message
  | unknownType name => "unknown type " ++ name
  | notAssignable source target => "cannot assign " ++ source.text ++ " to " ++ target.text
  | undetermined name => "type of " ++ name ++ " cannot be determined without a type or value"
  | immutableWithoutValue name => "immutable global " ++ name ++ " requires a value"
  | mainResult result =>
    "main/0 must return Integer, not " ++ (result.map Ty.text).getD "None"
  | notCall => "expression statements must be function calls"
  | notPlace => "assignment receiver must be a variable or list element"
  | condition keyword type => keyword ++ " condition must be Boolean, not " ++ type.text
  | emptyThenBlock => "IF statement must have a non-empty then block"
  | switchWithoutCase => "SWITCH requires a DEFAULT case"
  | lastCaseLabelled => "the last case of a SWITCH must be a DEFAULT without a value"
  | defaultNotLast => "DEFAULT must be the last case of a SWITCH"
  | label type subject =>
    "CASE value of type " ++ type.text ++ " does not match SWITCH condition of type " ++
      subject.text
  | group => "only binary expressions may be grouped"
  | integerTooLarge number =>
    "integer literal " ++ String.ofList (integerText number) ++ " is too large"
  | decimalTooLarge number => "decimal literal " ++ number.text ++ " is too large"
  | notBoolean operator left right =>
    operator.text ++ " requires Boolean operands, not " ++ left.text ++ " and " ++ right.text
  | incomparable left right => "cannot compare " ++ left.text ++ " with " ++ right.text
  | notNumbers operator left right =>
    operator.text ++ " requires two Integer or two Decimal operands, not " ++ left.text ++
      " and " ++ right.text
  | power => "^ requires an Integer or Decimal base and an Integer exponent"
  | unknownOperator text => "unknown operator " ++ text
  | offset type => "list offset must be Integer, not " ++ type.text
  | notList name => name ++ " is not a list"
  | resultUnknown name arity =>
    "return type of " ++ ScopeFault.functionName name arity ++
      " cannot be inferred before its first RETURN"
  | emptyList => "cannot infer the element type of an empty list"
  | unwritable => digitLimitText

/-- The report of a fault. -/
def report : TypeFault → Report
  | scope fault => fault.report .checking
  | unwritable => ⟨.use, digitLimitText, none⟩
  | fault => ⟨.checking, fault.message, none⟩

end TypeFault

end Blockscript
