import Blockscript.Running.Machine

/-!
# Running statements and expressions

Expressions are evaluated from left to right, statements are executed in order.
A statement either completes or returns a value, and a returned value is handed
up through blocks, switches and loops to the call that it belongs to.

The budget counts steps along the longest chain of steps inside one another:
every part of an expression or a statement takes one from the budget of the
whole, and so does every turn of a loop. A run that ends within a budget ends
the same way within every larger one. Trees of any sort are run, checked or not;
the notes on them are not looked at.
-/

namespace Blockscript.Running

/-- How a statement ends. -/
inductive Outcome where
  | completed
  | returning (value : Value)
deriving DecidableEq, Inhabited

/-- The value that a call gives. A body that ends without a return gives nil. -/
def Outcome.value : Outcome → Value
  | completed => .nil
  | returning value => value

variable {ν : Notes}

/-- The budget is used up. -/
def exhausted {β : Type} : Run ν β :=
  throw .exhausted

/-- Asks for a truth value. -/
def requireBoolean (context : String) (value : Value) : Except RunFault Bool :=
  match value with
  | .boolean truth => .ok truth
  | value => .error (.notBoolean context value.kind)

/-- Asks for a list, and gives its handle. The name is that of the variable. -/
def requireList (name : String) (value : Value) : Except RunFault Nat :=
  match value with
  | .list handle => .ok handle
  | value => .error (.notList name value.kind)

/-- Asks for an integer that is the index of one of so many elements. -/
def requireIndex (offset : Value) (size : Nat) : Except RunFault Nat :=
  match offset with
  | .integer number =>
    if 0 ≤ number && number < size then .ok number.toNat
    else .error (.naming number (.outOfRange number))
  | offset => .error (.offset offset.kind)

/-- The value of a literal. -/
def literalValue (literal : Literal) : Except RunFault Value :=
  match literal with
  | .integer number =>
    if Literal.fitsInteger number then .ok (.integer number)
    else .error (.naming number (.integerTooLarge number))
  | literal => .ok literal.value

/-- Whether the left side of a logical operator settles the whole. -/
def settles : Operator → Bool → Bool
  | .and, truth => !truth
  | .or, truth => truth
  | _, _ => false

/-- Defines a variable with a value, whose kind becomes its type. -/
def define (name : String) (mutable : Bool) (value : Value) : Run ν Unit :=
  Run.change (·.defineVariable ⟨name, value.kind, mutable, value⟩)

/-- Defines parameters with their values. A parameter may hold any value later. -/
def defineParameters : List String → List Value → Run ν Unit
  | name :: names, value :: values => do
    Run.change (·.defineVariable ⟨name, .any, true, value⟩)
    defineParameters names values
  | _, _ => return ()

/-- The variable that a name means here. -/
def variableOf (name : String) : Run ν (Variable Value) := do
  let (_, entry) ← Run.lookup (·.lookupVariable name)
  return entry

/-- The element of a list at an offset. -/
def elementAt (name : String) (value offset : Value) : Run ν Value := do
  let handle ← Run.outcome (requireList name value)
  let elements := (← Run.store).elements handle
  let index ← Run.outcome (requireIndex offset elements.length)
  return elements[index]?.getD .nil

/-- The variable that is assigned to, which has to be mutable. -/
def mutableOf (name : String) : Run ν (Variable Value) := do
  let entry ← variableOf name
  if entry.mutable then
    return entry
  else
    Run.fail (.immutable name)

mutual

/-- Evaluates an expression. -/
def evaluate (budget : Nat) (expression : Expr ν) : Run ν Value :=
  match budget with
  | 0 => exhausted
  | budget + 1 =>
    match expression with
    | .literal _ literal => Run.outcome (literalValue literal)
    | .group _ inner => evaluate budget inner
    | .binary _ operator left right => do
      let left ← evaluate budget left
      match Operator.ofText? operator with
      | some .and => evaluateLogical budget .and left right
      | some .or => evaluateLogical budget .or left right
      | _ =>
        let right ← evaluate budget right
        Run.outcome (apply (← Run.store) operator left right)
    | .access _ _ name => do
      return (← variableOf name).value
    | .element _ _ name offset => do
      discard (variableOf name)
      let offset ← evaluate budget offset
      elementAt name (← variableOf name).value offset
    | .call _ _ name arguments => do
      let routine ← Run.lookup (·.lookupFunction name arguments.length)
      let arguments ← evaluateAll budget arguments
      invoke budget routine arguments
    | .list _ elements => do
      Run.allocate (← evaluateAll budget elements)

/-- Evaluates a logical operator behind its left value. The right side is left
alone when the left one settles the whole. -/
def evaluateLogical (budget : Nat) (operator : Operator) (left : Value) (right : Expr ν) :
    Run ν Value :=
  match budget with
  | 0 => exhausted
  | budget + 1 => do
    let truth ← Run.outcome (requireBoolean operator.text left)
    if settles operator truth then
      return .boolean truth
    else
      return .boolean
        (← Run.outcome (requireBoolean operator.text (← evaluate budget right)))

/-- Evaluates expressions in order. -/
def evaluateAll (budget : Nat) (expressions : List (Expr ν)) : Run ν (List Value) :=
  match budget with
  | 0 => exhausted
  | budget + 1 =>
    match expressions with
    | [] => return []
    | first :: rest => do
      let first ← evaluate budget first
      return first :: (← evaluateAll budget rest)

/-- Calls a function. The body of a function of the program runs in a scope
whose parent is the scope of its definition, not that of the call. -/
def invoke (budget : Nat) (routine : Routine (Body ν)) (arguments : List Value) :
    Run ν Value :=
  match budget with
  | 0 => exhausted
  | budget + 1 =>
    match routine.required with
    | .error fault => Run.fail (.scope fault)
    | .ok .print => do
      let text ← Run.outcome (written ((arguments.head?.getD .nil).text? (← Run.store)))
      Run.print text
      return .nil
    | .ok (.script definition scope) => do
      Run.trace 3 fun store => (arguments.mapM (Value.text? store)).map (.call definition.name)
      let outcome ← Run.inScope (some scope) do
        defineParameters definition.parameters arguments
        executeBlock budget definition.body
      return outcome.value

/-- Executes a statement. -/
def execute (budget : Nat) (statement : Stmt ν) : Run ν Outcome :=
  match budget with
  | 0 => exhausted
  | budget + 1 =>
    match statement with
    | .expression inner => do
      discard (evaluate budget inner)
      return .completed
    | .declaration _ name _ value => do
      let value ← evaluateOptional budget value
      define name true value
      Run.trace 2 fun store => (value.text? store).map (.declaration name)
      return .completed
    | .assignment (.access _ _ name) value => do
      let value ← evaluate budget value
      discard (mutableOf name)
      Run.change (·.setVariable name value)
      return .completed
    | .assignment (.element _ _ name offset) value => do
      let value ← evaluate budget value
      let entry ← mutableOf name
      let handle ← Run.outcome (requireList name entry.value)
      let offset ← evaluate budget offset
      let index ← Run.outcome (requireIndex offset ((← Run.store).elements handle).length)
      Run.replace handle index value
      return .completed
    | .assignment _ value => do
      discard (evaluate budget value)
      Run.fail .notPlace
    | .conditional condition thenBlock elseBlock => do
      let truth ← Run.outcome (requireBoolean "IF" (← evaluate budget condition))
      Run.trace 3 fun _ => some (.condition truth)
      Run.inScope none (executeBlock budget (if truth then thenBlock else elseBlock))
    | .switch subject cases =>
      Run.inScope none do
        let subject ← evaluate budget subject
        executeCases budget subject cases
    | .loop condition body => repeatWhile budget condition body
    | .returning value => do
      return .returning (← evaluate budget value)
    | .stray _ _ => Run.fail .strayCase

/-- Evaluates an initial value. A variable without one starts as nil. -/
def evaluateOptional (budget : Nat) (value : Option (Expr ν)) : Run ν Value :=
  match budget with
  | 0 => exhausted
  | budget + 1 =>
    match value with
    | none => return .nil
    | some value => evaluate budget value

/-- Executes statements up to the first that returns. -/
def executeBlock (budget : Nat) (statements : List (Stmt ν)) : Run ν Outcome :=
  match budget with
  | 0 => exhausted
  | budget + 1 =>
    match statements with
    | [] => return .completed
    | first :: rest => do
      match ← execute budget first with
      | .returning value => return .returning value
      | .completed => executeBlock budget rest

/-- Executes the first case whose label equals the subject, or the default. -/
def executeCases (budget : Nat) (subject : Value) (cases : List (Case ν)) : Run ν Outcome :=
  match budget with
  | 0 => exhausted
  | budget + 1 =>
    match cases with
    | [] => return .completed
    | .mk none body :: _ => do
      Run.trace 3 fun store => (subject.text? store).map (.choice · true)
      executeBlock budget body
    | .mk (some label) body :: rest => do
      let label ← evaluate budget label
      if subject.isEqual (← Run.store) label then
        Run.trace 3 fun store => (subject.text? store).map (.choice · false)
        executeBlock budget body
      else
        executeCases budget subject rest

/-- Executes a block as long as a condition holds, each time in a new scope. -/
def repeatWhile (budget : Nat) (condition : Expr ν) (body : List (Stmt ν)) : Run ν Outcome :=
  match budget with
  | 0 => exhausted
  | budget + 1 => do
    let truth ← Run.outcome (requireBoolean "WHILE" (← evaluate budget condition))
    if truth then
      match ← Run.inScope none (executeBlock budget body) with
      | .returning value => return .returning value
      | .completed => repeatWhile budget condition body
    else
      return .completed

end

end Blockscript.Running
