import Blockscript.Proofs.Typing.Judgement
import Blockscript.Running.Program

/-!
# Chronicles

A run of a checked program, taken down step by step. Beside the machine it keeps
what a machine forgets: which definition every variable of every scope comes from,
and under which element type every list was made. After each step, and whenever a
name is about to be looked up or a value is there, it takes down the moment: what
happens, in which lexical scopes of the program text, and the state.

Nothing of this is ever looked at by the run. So a chronicle tells of the run of the
machine, and says what holds at each of its moments can be said.
-/

namespace Blockscript.Chronicle

open Running (Body Machine Outcome Run)

/-- A scope of a run beside the machine: where it continues, and the bindings that
its variables come from, in the same order. -/
structure Level where
  parent : Option Nat
  bindings : List Binding

/-- What a machine forgets: the bindings of the open scopes, and the element types
under which the lists were made, by handle. -/
structure Memory where
  levels : List Level
  makers : List Ty

namespace Memory

/-- Remembers where a new variable of the innermost scope comes from. -/
def bind (binding : Binding) (memory : Memory) : Memory :=
  { memory with
    levels := memory.levels.modify (memory.levels.length - 1) fun level =>
      { level with bindings := level.bindings ++ [binding] } }

/-- Remembers the element type of a new list. -/
def make (element : Ty) (memory : Memory) : Memory :=
  { memory with makers := memory.makers ++ [element] }

/-- Remembers that a scope is opened. -/
def enter (parent : Option Nat) (memory : Memory) : Memory :=
  { memory with
    levels := memory.levels ++ [⟨some (parent.getD (memory.levels.length - 1)), []⟩] }

/-- Remembers that a scope is closed. -/
def leave (memory : Memory) : Memory :=
  { memory with levels := memory.levels.dropLast }

end Memory

/-- The state of a run, with what its machine forgets. -/
structure State where
  machine : Machine .checked
  memory : Memory

/-- What happens at a moment. -/
inductive Event where
  /-- A step of the machine has been done. -/
  | performed
  | opened
  | closed
  /-- The name on an expression is about to be looked up. -/
  | resolving (node : Expr .checked)
  /-- An expression has been given a value. -/
  | given (node : Expr .checked) (value : Value)
  /-- A binary expression is about to be computed from these values. -/
  | operands (node : Expr .checked) (left right : Value)
  | called (body : Body .checked) (arguments : List Value)
  | answered (body : Body .checked) (value : Value)

/-- A moment of a run: what happens, the scopes of the program text around it, and
the state. -/
structure Moment where
  event : Event
  scopes : Scopes
  state : State

/-- A run up to now: its state, and the moments so far. -/
structure Record where
  state : State
  moments : List Moment

/-- A part of a run that is taken down. -/
abbrev Recorded (β : Type) := ExceptT Stop (StateM Record) β

/-- The functions in front of a function, in the order of the program. -/
def preceding (program : Program .checked) (definition : FunctionDef .checked) :
    List (FunctionDef .checked) :=
  program.functions.takeWhile fun other =>
    !(other.name = definition.name && other.arity = definition.arity)

/-- The record with one more moment. -/
def Record.noting (record : Record) (scopes : Scopes) (event : Event) : Record :=
  { record with moments := record.moments ++ [⟨event, scopes, record.state⟩] }

/-- Takes down what happens. -/
def note (scopes : Scopes) (event : Event) : Recorded Unit :=
  modify (·.noting scopes event)

variable {β : Type}

/-- Does a step of the machine, and remembers what it means. A step that stops
leaves nothing to take down. -/
def perform (scopes : Scopes) (remember : Memory → Memory) (action : Run .checked β) :
    Recorded β :=
  ExceptT.mk fun record =>
    match action.run record.state.machine with
    | (.ok value, machine) =>
      (.ok value, ({ record with state := ⟨machine, remember record.state.memory⟩ } :
        Record).noting scopes .performed)
    | (.error stop, machine) =>
      (.error stop, { record with state := ⟨machine, record.state.memory⟩ })

/-- The record with a new scope. -/
def Record.entering (record : Record) (scopes : Scopes) (parent : Option Nat) : Record :=
  ({ record with
    state :=
      ⟨{ record.state.machine with
          environment := record.state.machine.environment.openScope parent },
        record.state.memory.enter parent⟩ } : Record).noting scopes .opened

/-- The record with the innermost scope closed, which leaves the given environment. -/
def Record.leaving (record : Record) (scopes : Scopes)
    (environment : Environment Value (Body .checked)) : Record :=
  ({ record with
    state :=
      ⟨{ record.state.machine with environment := environment }, record.state.memory.leave⟩ } :
    Record).noting scopes .closed

/-- Does something in a scope of its own, which is closed however it ends. -/
def inScope (scopes : Scopes) (parent : Option Nat) (body : Recorded β) : Recorded β :=
  ExceptT.mk fun record =>
    let opened := record.state.machine.environment.openScope parent
    let (result, after) := body (record.entering scopes parent)
    match after.state.machine.environment.closeScope opened.current with
    | .ok environment => (result, after.leaving scopes environment)
    | .error fault => (.error (.fault (.scope fault)), after)

/-- Evaluates an expression as said, and takes its value down. -/
def giving (scopes : Scopes) (expression : Expr .checked) (action : Recorded Value) :
    Recorded Value := do
  let value ← action
  note scopes (.given expression value)
  return value

/-- Defines the parameters of the function at an index, from a position on. -/
def defineParameters (index : Nat) (scopes : Scopes) (position : Nat) :
    List String → List Ty → List Value → Recorded Unit
  | name :: names, types, value :: values => do
    let binding : Binding :=
      ⟨.parameter index position, ⟨name, types.head?.getD .any, true, ()⟩⟩
    perform scopes (·.bind binding)
      (Run.change (·.defineVariable ⟨name, .any, true, value⟩))
    defineParameters index (scopes.declare binding) (position + 1) names types.tail values
  | _, _, _ => return ()

mutual

/-- Evaluates an expression. -/
def evaluate (program : Program .checked) (budget : Nat) (scopes : Scopes)
    (expression : Expr .checked) : Recorded Value :=
  match budget with
  | 0 => throw .exhausted
  | budget + 1 =>
    giving scopes expression <| match expression with
      | .literal _ literal => perform scopes id (Run.outcome (Running.literalValue literal))
      | .group _ inner => evaluate program budget scopes inner
      | .binary _ operator left right => do
        let left ← evaluate program budget scopes left
        match Operator.ofText? operator with
        | some .and => evaluateLogical program budget scopes .and left right
        | some .or => evaluateLogical program budget scopes .or left right
        | _ =>
          let right ← evaluate program budget scopes right
          let store ← perform scopes id Run.store
          note scopes (.operands expression left right)
          perform scopes id (Run.outcome (Running.apply store operator left right))
      | .access _ _ name => do
        note scopes (.resolving expression)
        let entry ← perform scopes id (Running.variableOf name)
        return entry.value
      | .element _ _ name offset => do
        note scopes (.resolving expression)
        discard (perform scopes id (Running.variableOf name))
        let offset ← evaluate program budget scopes offset
        note scopes (.resolving expression)
        let entry ← perform scopes id (Running.variableOf name)
        perform scopes id (Running.elementAt name entry.value offset)
      | .call _ _ name arguments => do
        note scopes (.resolving expression)
        let routine ← perform scopes id
          (Run.lookup (·.lookupFunction name arguments.length))
        let arguments ← evaluateAll program budget scopes arguments
        invoke program budget scopes routine arguments
      | .list type elements => do
        let elements ← evaluateAll program budget scopes elements
        perform scopes (·.make (type.element?.getD .any)) (Run.allocate elements)

/-- Evaluates a logical operator behind its left value. -/
def evaluateLogical (program : Program .checked) (budget : Nat) (scopes : Scopes)
    (operator : Operator) (left : Value) (right : Expr .checked) : Recorded Value :=
  match budget with
  | 0 => throw .exhausted
  | budget + 1 => do
    let truth ← perform scopes id (Run.outcome (Running.requireBoolean operator.text left))
    if Running.settles operator truth then
      return .boolean truth
    else
      let right ← evaluate program budget scopes right
      let truth ← perform scopes id (Run.outcome (Running.requireBoolean operator.text right))
      return .boolean truth

/-- Evaluates expressions in order. -/
def evaluateAll (program : Program .checked) (budget : Nat) (scopes : Scopes)
    (expressions : List (Expr .checked)) : Recorded (List Value) :=
  match budget with
  | 0 => throw .exhausted
  | budget + 1 =>
    match expressions with
    | [] => return []
    | first :: rest => do
      let first ← evaluate program budget scopes first
      let rest ← evaluateAll program budget scopes rest
      return first :: rest

/-- Calls a function. The text of its body stands in scopes of its own, wherever the
call stands. -/
def invoke (program : Program .checked) (budget : Nat) (scopes : Scopes)
    (routine : Routine (Body .checked)) (arguments : List Value) : Recorded Value :=
  match budget with
  | 0 => throw .exhausted
  | budget + 1 =>
    match routine.required with
    | .error fault => throw (.fault (.scope fault))
    | .ok .print => do
      note scopes (.called .print arguments)
      let store ← perform scopes id Run.store
      let text ← perform scopes id
        (Run.outcome (written ((arguments.head?.getD .nil).text? store)))
      perform scopes id (Run.print text)
      note scopes (.answered .print .nil)
      return .nil
    | .ok (.script definition scope) => do
      let before := preceding program definition
      let site := definition.site program.bindings before
      note scopes (.called (.script definition scope) arguments)
      perform scopes id (Run.trace 3 fun store =>
        (arguments.mapM (Value.text? store)).map (.call definition.name))
      let outcome ← inScope site.scopes (some scope) do
        defineParameters before.length ⟨[[]], program.bindings, site.scopes.functions⟩ 0
          definition.parameters definition.routine.parameters arguments
        executeBlock program budget site definition.body
      note scopes (.answered (.script definition scope) outcome.value)
      return outcome.value

/-- Executes a statement. -/
def execute (program : Program .checked) (budget : Nat) (site : Site)
    (statement : Stmt .checked) : Recorded Outcome :=
  match budget with
  | 0 => throw .exhausted
  | budget + 1 =>
    match statement with
    | .expression inner => do
      discard (evaluate program budget site.scopes inner)
      return .completed
    | .declaration entry name typeName value => do
      let initial ← evaluateOptional program budget site.scopes value
      perform site.scopes (·.bind ⟨.declaration site.path, entry⟩)
        (Running.define name true initial)
      perform (site.after (.declaration entry name typeName value)).scopes id
        (Run.trace 2 fun store => (initial.text? store).map (.declaration name))
      return .completed
    | .assignment (.access type entry name) value => do
      let value ← evaluate program budget site.scopes value
      note site.scopes (.resolving (.access type entry name))
      discard (perform site.scopes id (Running.mutableOf name))
      note site.scopes (.resolving (.access type entry name))
      perform site.scopes id (Run.change (·.setVariable name value))
      return .completed
    | .assignment (.element type entry name offset) value => do
      let value ← evaluate program budget site.scopes value
      note site.scopes (.resolving (.element type entry name offset))
      let variable_ ← perform site.scopes id (Running.mutableOf name)
      let handle ← perform site.scopes id
        (Run.outcome (Running.requireList name variable_.value))
      let offset ← evaluate program budget site.scopes offset
      let store ← perform site.scopes id Run.store
      let index ← perform site.scopes id
        (Run.outcome (Running.requireIndex offset (store.elements handle).length))
      perform site.scopes id (Run.replace handle index value)
      return .completed
    | .assignment _ value => do
      discard (evaluate program budget site.scopes value)
      throw (.fault .notPlace)
    | .conditional condition thenBlock elseBlock => do
      let value ← evaluate program budget site.scopes condition
      let truth ← perform site.scopes id (Run.outcome (Running.requireBoolean "IF" value))
      perform site.scopes id (Run.trace 3 fun _ => some (.condition truth))
      let inside := site.block (if truth then 0 else 1)
      inScope inside.scopes none
        (executeBlock program budget inside (if truth then thenBlock else elseBlock))
    | .switch subject cases =>
      inScope site.scopes none do
        let subject ← evaluate program budget site.scopes subject
        executeCases program budget site 0 subject cases
    | .loop condition body => repeatWhile program budget site condition body
    | .returning value => do
      let value ← evaluate program budget site.scopes value
      return .returning value
    | .stray _ _ => throw (.fault .strayCase)

/-- Evaluates an initial value. -/
def evaluateOptional (program : Program .checked) (budget : Nat) (scopes : Scopes)
    (value : Option (Expr .checked)) : Recorded Value :=
  match budget with
  | 0 => throw .exhausted
  | budget + 1 =>
    match value with
    | none => return .nil
    | some value => evaluate program budget scopes value

/-- Executes statements up to the first that returns. -/
def executeBlock (program : Program .checked) (budget : Nat) (site : Site)
    (statements : List (Stmt .checked)) : Recorded Outcome :=
  match budget with
  | 0 => throw .exhausted
  | budget + 1 =>
    match statements with
    | [] => return .completed
    | first :: rest => do
      match ← execute program budget site first with
      | .returning value => return .returning value
      | .completed => executeBlock program budget (site.after first) rest

/-- Executes the first case whose label equals the subject, or the default. All
cases are tried in the one scope of the switch, where the text has one for each. -/
def executeCases (program : Program .checked) (budget : Nat) (site : Site) (number : Nat)
    (subject : Value) (cases : List (Case .checked)) : Recorded Outcome :=
  match budget with
  | 0 => throw .exhausted
  | budget + 1 =>
    match cases with
    | [] => return .completed
    | .mk none body :: _ => do
      perform site.scopes id (Run.trace 3 fun store => (subject.text? store).map (.choice · true))
      executeBlock program budget (site.block number) body
    | .mk (some label) body :: rest => do
      let label ← evaluate program budget site.scopes label
      let store ← perform site.scopes id Run.store
      if subject.isEqual store label then
        perform site.scopes id
          (Run.trace 3 fun store => (subject.text? store).map (.choice · false))
        executeBlock program budget (site.block number) body
      else
        executeCases program budget site (number + 1) subject rest

/-- Executes a block as long as a condition holds, each time in a new scope. -/
def repeatWhile (program : Program .checked) (budget : Nat) (site : Site)
    (condition : Expr .checked) (body : List (Stmt .checked)) : Recorded Outcome :=
  match budget with
  | 0 => throw .exhausted
  | budget + 1 => do
    let value ← evaluate program budget site.scopes condition
    let truth ← perform site.scopes id (Run.outcome (Running.requireBoolean "WHILE" value))
    if truth then
      let inside := site.block 0
      match ← inScope inside.scopes none (executeBlock program budget inside body) with
      | .returning value => return .returning value
      | .completed => repeatWhile program budget site condition body
    else
      return .completed

end

/-- Evaluates a global behind others and defines it. -/
def executeGlobal (program : Program .checked) (budget : Nat) (root : List Binding)
    (definition : GlobalDef .checked) : Recorded Unit := do
  let value ← evaluateOptional program budget (rootScopes root) definition.value
  perform (rootScopes root) (·.bind (definition.binding root.length))
    (Running.define definition.name definition.mutable value)
  perform (rootScopes (root ++ [definition.binding root.length])) id
    (Run.trace 2 fun store => (value.text? store).map (.global definition.name))

/-- Evaluates globals in order. -/
def executeGlobals (program : Program .checked) (budget : Nat) (root : List Binding) :
    List (GlobalDef .checked) → Recorded Unit
  | [] => return ()
  | first :: rest => do
    executeGlobal program budget root first
    executeGlobals program budget (root ++ [first.binding root.length]) rest

/-- Defines functions in order. -/
def defineFunctions (scopes : Scopes) : List (FunctionDef .checked) → Recorded Unit
  | [] => return ()
  | first :: rest => do
    perform scopes id (Running.defineFunction first)
    defineFunctions (scopes.declareRoutine first.settled) rest

/-- Runs a whole program. -/
def runProgram (program : Program .checked) (budget : Nat) : Recorded Value := do
  executeGlobals program budget [] program.globals
  defineFunctions (rootScopes program.bindings) program.functions
  let main ← perform (definedScopes program.bindings program.functions) id
    (Run.lookup (·.lookupFunction "main" 0))
  invoke program budget (definedScopes program.bindings program.functions) main []

/-- The state before anything is run: one scope, without variables. -/
def Record.initial (detail : Nat) : Record :=
  ⟨⟨Machine.initial detail, ⟨[⟨none, []⟩], []⟩⟩, []⟩

/-- The chronicle of a whole run: how it ends, and the record of it. -/
def run (program : Program .checked) (budget detail : Nat) : Except Stop Value × Record :=
  (runProgram program budget).run (Record.initial detail)

end Blockscript.Chronicle
