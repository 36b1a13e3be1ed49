import Blockscript.Typing.Rules
import Blockscript.Typing.Signature

/-!
# The state of checking

Checking carries the open scopes with the types of their names, and what is
known about the result of the function whose body is being checked. A violated
rule ends the checking and leaves the state as it is, but every scope that was
opened on the way is closed again.
-/

namespace Blockscript.Typing

/-- The result type of a function body: the declared one, and the one inferred
from the first return. Only a function without a declared type infers one. -/
structure ReturnContext where
  declared : Option Ty
  inferred : Option Ty := none
deriving DecidableEq, Inhabited

/-- The state of checking. -/
structure Checker where
  environment : Environment Unit Unit
  returns : ReturnContext
deriving Inhabited

/-- The one function that every program finds defined. -/
def printSignature : Routine Unit :=
  ⟨"print", [.any], some .nil, none⟩

/-- The state before anything is checked. -/
def Checker.initial : Checker :=
  ⟨⟨#[{ parent := none, functions := [printSignature] }]⟩, ⟨none, none⟩⟩

/-- A part of checking: it may change the state, and it may fail. -/
abbrev Check (α : Type) := ExceptT TypeFault (StateM Checker) α

namespace Check

/-- A rule that does not look at the state. -/
def rule {α : Type} (outcome : Except TypeFault α) : Check α :=
  match outcome with
  | .ok value => pure value
  | .error fault => throw fault

/-- Looks something up in the scopes. -/
def lookup {α : Type} (find : Environment Unit Unit → Except ScopeFault α) : Check α := do
  match find (← get).environment with
  | .ok found => pure found
  | .error fault => throw (.scope fault)

/-- Changes the scopes. -/
def change (step : Environment Unit Unit → Except ScopeFault (Environment Unit Unit)) :
    Check Unit := do
  let checker ← get
  match step checker.environment with
  | .ok environment => set { checker with environment := environment }
  | .error fault => throw (.scope fault)

/-- Defines a variable of a type, and gives it. -/
def define (name : String) (type : Ty) (mutable : Bool) : Check (Variable Unit) := do
  let entry : Variable Unit := ⟨name, type, mutable, ()⟩
  change (·.defineVariable entry)
  return entry

/-- Checks something in a scope of its own, which is closed however it ends. -/
def inScope {α : Type} (body : Check α) : Check α :=
  ExceptT.mk fun checker =>
    let opened := checker.environment.openScope none
    let (outcome, after) := body { checker with environment := opened }
    match after.environment.closeScope opened.current with
    | .ok environment => (outcome, { after with environment := environment })
    | .error fault => (.error (.scope fault), after)

/-- Checks something as the body of a function with a declared result type or
without one. Gives also what was inferred, and returns to the context before. -/
def inFunction {α : Type} (declared : Option Ty) (body : Check α) : Check (α × Option Ty) :=
  ExceptT.mk fun checker =>
    let (outcome, after) := body { checker with returns := ⟨declared, none⟩ }
    (outcome.map (·, after.returns.inferred), { after with returns := checker.returns })

end Check

end Blockscript.Typing
