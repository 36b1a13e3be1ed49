import Blockscript.Decimal.Power
import Blockscript.Environment
import Blockscript.Operator
import Blockscript.Tree

/-!
# Failures of a run

What ends a run early. Most of these cannot arise in a program that has been
checked; they are there because trees are also run unchecked.
-/

namespace Blockscript

/-- Why a run cannot go on. -/
inductive RunFault where
  /-- A name is missing, or defined twice. -/
  | scope (fault : ScopeFault)
  | integerTooLarge (number : Int)
  /-- The value asked for by the given word or operator is not Boolean. -/
  | notBoolean (context : String) (kind : Ty)
  | notList (name : String) (kind : Ty)
  | offset (kind : Ty)
  | outOfRange (index : Int)
  | incomparable (left right : Ty)
  | divisionByZero
  | exponent (kind : Ty)
  | powerOfZero
  | powerFailed (base : Decimal) (exponent : Int) (refusal : Decimal.Refusal)
  | negativeExponent
  | powerBase (kind : Ty)
  | unsupported (operator : Operator) (left right : Ty)
  | unknownOperator (text : String)
  /-- The target of an assignment is no variable or list element. -/
  | notPlace
  | immutable (name : String)
  | strayCase
  /-- A sum, a product or a quotient of decimals has no result. -/
  | arithmetic (refusal : Decimal.Refusal)
  /-- An integer has too many digits to be written. -/
  | unwritable
deriving DecidableEq, Inhabited

/-- The name of a refusal of decimal arithmetic. -/
def Decimal.Refusal.name : Decimal.Refusal → String
  | overflow => "Overflow"
  | invalid => "InvalidOperation"

namespace RunFault

/-- The wording of a fault. -/
def message : RunFault → String
  | scope fault => fault.message
  | integerTooLarge number =>
    "integer literal " ++ String.ofList (integerText number) ++ " is too large"
  | notBoolean context kind => context ++ " expects Boolean, got " ++ kind.text
  | notList name kind => "cannot index " ++ name ++ ": " ++ kind.text ++ " is not a list"
  | offset kind => "list offset must be Integer, got " ++ kind.text
  | outOfRange index => "list index " ++ String.ofList (integerText index) ++ " out of range"
  | incomparable left right => "cannot compare " ++ left.text ++ " with " ++ right.text
  | divisionByZero => "division by zero"
  | exponent kind => "exponent must be Integer, got " ++ kind.text
  | powerOfZero => "division by zero in Decimal power"
  | powerFailed base power refusal =>
    "Decimal power " ++ base.text ++ " ^ " ++ String.ofList (integerText power) ++
      " failed: " ++ refusal.name
  | negativeExponent => "negative exponent for Integer power"
  | powerBase kind => "unsupported ^ for " ++ kind.text
  | unsupported operator left right =>
    "unsupported " ++ operator.text ++ " for " ++ left.text ++ " and " ++ right.text
  | unknownOperator text => "unknown operator " ++ text
  | notPlace => "assignment receiver must be an access expression"
  | immutable name => "cannot assign to immutable variable " ++ name
  | strayCase => "unexpected statement Case"
  | arithmetic refusal => refusal.name
  | unwritable => digitLimitText

/-- The report of a fault. -/
def report : RunFault → Report
  | scope fault => fault.report .running
  | unwritable => ⟨.use, digitLimitText, none⟩
  | fault => ⟨.running, fault.message, none⟩

/-- A fault that is told with an integer. When the integer cannot be written, that
is the fault. -/
def naming (number : Int) (fault : RunFault) : RunFault :=
  if (integerText? number).isSome then fault else unwritable

/-- What is said of a fault and of unwritable integers is said of the fault that is told
with an integer. -/
theorem naming_of {admits : RunFault → Prop} {number : Int} {fault : RunFault}
    (told : admits fault) (long : admits unwritable) : admits (naming number fault) := by
  unfold naming
  split
  · exact told
  · exact long

end RunFault

/-- What is to be written, if it can be. -/
def written {β : Type} (text : Option β) : Except RunFault β :=
  match text with
  | some text => .ok text
  | none => .error .unwritable

/-- Writing fails for want of a text only. -/
theorem written_error {β : Type} {text : Option β} {fault : RunFault} :
    written text = .error fault ↔ text = none ∧ fault = .unwritable := by
  cases text with
  | none => simp [written, eq_comm]
  | some text => simp [written]

/-- Why a run has ended without a result: it has met a fault, or its budget of
steps is used up. -/
inductive Stop where
  | fault (fault : RunFault)
  | exhausted
deriving DecidableEq, Inhabited

/-- Whether a stop is an error of the program. Numbers that leave the range of
decimal arithmetic or are too long to be written are a limit of the tools, like
the budget. -/
def Stop.isError : Stop → Bool
  | fault (.arithmetic _) | fault .unwritable | exhausted => false
  | fault _ => true

end Blockscript
