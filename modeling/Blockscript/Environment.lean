import Blockscript.Report
import Blockscript.Ty

/-!
# Scopes and names

The open scopes form a stack, and a scope is named by its place on it, counted
from the root. Each scope but the root has a parent, which is the scope that
names are looked up in next. A parent is always further down the stack, but it
need not be the scope right below: the body of a function continues in the scope
where the function was defined, whoever calls it.

Checking and running share this environment. What stands behind a variable and
behind a function is a parameter, because only a run has values and bodies.

A scope keeps its names in the order of definition. A variable is found by its
name, a function by its name and its number of parameters; a scope holds at most
one of each.
-/

namespace Blockscript

/-- A variable, with what stands behind it. -/
structure Variable (ν : Type) where
  name : String
  type : Ty
  mutable : Bool
  value : ν
deriving Inhabited

/-- A function, with what stands behind it. The type of the result is missing as
long as it is not known. -/
structure Routine (ι : Type) where
  name : String
  parameters : List Ty
  result : Option Ty
  implementation : Option ι
deriving Inhabited

/-- The number of parameters of a function. -/
def Routine.arity {ι : Type} (routine : Routine ι) : Nat :=
  routine.parameters.length

/-- One scope: where to look next, and the names defined here, in order. -/
structure Scope (ν ι : Type) where
  parent : Option Nat
  entries : List (Variable ν) := []
  functions : List (Routine ι) := []
deriving Inhabited

namespace Scope

variable {ν ι : Type}

/-- The variable of a name in this scope. -/
def findVariable (scope : Scope ν ι) (name : String) : Option (Variable ν) :=
  scope.entries.find? fun entry => entry.name = name

/-- The function of a name and arity in this scope. -/
def findFunction (scope : Scope ν ι) (name : String) (arity : Nat) : Option (Routine ι) :=
  scope.functions.find? fun routine => routine.name = name && routine.arity = arity

/-- Puts a value behind the variable of a name. -/
def setVariable (scope : Scope ν ι) (name : String) (value : ν) : Scope ν ι :=
  { scope with
    entries := scope.entries.map fun entry =>
      if entry.name = name then { entry with value := value } else entry }

/-- Settles the result type of the function of a name and arity. -/
def setResult (scope : Scope ν ι) (name : String) (arity : Nat) (result : Ty) : Scope ν ι :=
  { scope with
    functions := scope.functions.map fun routine =>
      if routine.name = name && routine.arity = arity then
        { routine with result := some result }
      else
        routine }

end Scope

/-- What can go wrong with names and scopes. -/
inductive ScopeFault where
  | undefinedVariable (name : String)
  | variableDefined (name : String)
  | undefinedFunction (name : String) (arity : Nat)
  | functionDefined (name : String) (arity : Nat)
  | closedOutOfOrder (index : Nat)
  | noImplementation (name : String) (arity : Nat)
deriving DecidableEq, Inhabited

namespace ScopeFault

/-- A function as messages name it. -/
def functionName (name : String) (arity : Nat) : String :=
  name ++ "/" ++ toString arity

/-- The wording of a fault. -/
def message : ScopeFault → String
  | undefinedVariable name => "undefined variable " ++ name
  | variableDefined name => "variable " ++ name ++ " is already defined in this scope"
  | undefinedFunction name arity => "undefined function " ++ functionName name arity
  | functionDefined name arity =>
    "function " ++ functionName name arity ++ " is already defined in this scope"
  | closedOutOfOrder index => "scope " ++ toString index ++ " closed out of order"
  | noImplementation name arity =>
    "function " ++ functionName name arity ++ " has no implementation"

/-- The report of a fault. Faults about names belong to the stage that met them;
the others are misuses of an environment. -/
def report (fault : ScopeFault) (stage : Stage) : Report :=
  match fault with
  | closedOutOfOrder _ | noImplementation _ _ => ⟨.use, fault.message, none⟩
  | _ => ⟨stage, fault.message, none⟩

end ScopeFault

/-- The open scopes, the root first. -/
structure Environment (ν ι : Type) where
  scopes : Array (Scope ν ι)
deriving Inhabited

namespace Environment

variable {ν ι : Type}

/-- The environment with an empty root. -/
def initial : Environment ν ι :=
  ⟨#[{ parent := none }]⟩

/-- The place of the innermost open scope. -/
def current (environment : Environment ν ι) : Nat :=
  environment.scopes.size - 1

/-- The innermost open scope. -/
def currentScope (environment : Environment ν ι) : Scope ν ι :=
  (environment.scopes[environment.current]?).getD { parent := none }

/-- The root scope. -/
def root (environment : Environment ν ι) : Scope ν ι :=
  (environment.scopes[0]?).getD { parent := none }

/-- Opens a scope. Without a parent it continues in the scope that is current. -/
def openScope (environment : Environment ν ι) (parent : Option Nat) : Environment ν ι :=
  ⟨environment.scopes.push { parent := some (parent.getD environment.current) }⟩

/-- Closes a scope, which has to be the innermost one and not the root. -/
def closeScope (environment : Environment ν ι) (index : Nat) :
    Except ScopeFault (Environment ν ι) :=
  if index ≠ environment.current || index = 0 then .error (.closedOutOfOrder index)
  else .ok ⟨environment.scopes.pop⟩

/-- Changes the innermost scope. -/
def modifyCurrent (environment : Environment ν ι) (change : Scope ν ι → Scope ν ι) :
    Environment ν ι :=
  ⟨environment.scopes.modify environment.current change⟩

/-- Looks for something in a scope and then in its parents, and tells where it
was found. The search ends because a parent is further down; a parent that is
not would be a scope that was never open. -/
def search {β : Type} (environment : Environment ν ι) (found : Scope ν ι → Option β)
    (index : Nat) : Option (Nat × β) :=
  match environment.scopes[index]? with
  | none => none
  | some scope =>
    match found scope, scope.parent with
    | some result, _ => some (index, result)
    | none, none => none
    | none, some parent => if parent < index then search environment found parent else none
termination_by index

/-- The variable that a name means here, and its scope. -/
def lookupVariable (environment : Environment ν ι) (name : String) :
    Except ScopeFault (Nat × Variable ν) :=
  match environment.search (·.findVariable name) environment.current with
  | some found => .ok found
  | none => .error (.undefinedVariable name)

/-- The function that a name and an arity mean here. -/
def lookupFunction (environment : Environment ν ι) (name : String) (arity : Nat) :
    Except ScopeFault (Routine ι) :=
  match environment.search (·.findFunction name arity) environment.current with
  | some (_, routine) => .ok routine
  | none => .error (.undefinedFunction name arity)

/-- Defines a variable in the innermost scope. -/
def defineVariable (environment : Environment ν ι) (entry : Variable ν) :
    Except ScopeFault (Environment ν ι) :=
  if (environment.currentScope.findVariable entry.name).isSome then
    .error (.variableDefined entry.name)
  else
    .ok (environment.modifyCurrent fun scope =>
      { scope with entries := scope.entries ++ [entry] })

/-- Defines a function in the innermost scope. -/
def defineFunction (environment : Environment ν ι) (routine : Routine ι) :
    Except ScopeFault (Environment ν ι) :=
  if (environment.currentScope.findFunction routine.name routine.arity).isSome then
    .error (.functionDefined routine.name routine.arity)
  else
    .ok (environment.modifyCurrent fun scope =>
      { scope with functions := scope.functions ++ [routine] })

/-- Puts a value behind the variable that a name means here. -/
def setVariable (environment : Environment ν ι) (name : String) (value : ν) :
    Except ScopeFault (Environment ν ι) :=
  match environment.lookupVariable name with
  | .error fault => .error fault
  | .ok (index, _) => .ok ⟨environment.scopes.modify index (·.setVariable name value)⟩

/-- Settles the result type of a function of the innermost scope. -/
def setResult (environment : Environment ν ι) (name : String) (arity : Nat) (result : Ty) :
    Environment ν ι :=
  environment.modifyCurrent (·.setResult name arity result)

end Environment

namespace Routine

variable {ι : Type}

/-- What a call of the function runs. -/
def required (routine : Routine ι) : Except ScopeFault ι :=
  match routine.implementation with
  | some implementation => .ok implementation
  | none => .error (.noImplementation routine.name routine.arity)

end Routine

end Blockscript
