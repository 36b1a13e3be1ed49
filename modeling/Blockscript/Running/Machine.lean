import Blockscript.Running.Operation

/-!
# The state of a run

A run carries the open scopes with the values of their variables, the lists, what
has been printed, and a trace for whoever follows it. A fault ends the run and
leaves all of this as it is at that moment; only the scopes that were opened on
the way are closed again.

The trace has two levels of detail. At the second level it tells what is defined,
at the third also what is called and decided. Tracing changes nothing else, but a
value that has no text cannot be traced.
-/

namespace Blockscript.Running

/-- What the trace tells. Values are given by their text. -/
inductive Message where
  | global (name text : String)
  | function (name : String) (arity : Nat)
  | declaration (name text : String)
  | call (name : String) (arguments : List String)
  | condition (truth : Bool)
  | choice (subject : String) (isDefault : Bool)
deriving DecidableEq, Inhabited

/-- The wording of a message. -/
def Message.text : Message → String
  | global name text => "global " ++ name ++ " = " ++ text
  | function name arity => "define function " ++ ScopeFault.functionName name arity
  | declaration name text => "declare " ++ name ++ " = " ++ text
  | call name arguments => "call " ++ name ++ "(" ++ ", ".intercalate arguments ++ ")"
  | condition truth => "if condition -> " ++ if truth then "true" else "false"
  | choice subject isDefault =>
    "switch " ++ subject ++ " -> " ++ if isDefault then "default" else "case"

/-- What a call runs: the printing that every program finds defined, or a
function of the program and the scope in which it was defined. -/
inductive Body (ν : Notes) where
  | print
  | script (definition : FunctionDef ν) (scope : Nat)
deriving Inhabited

/-- The state of a run. -/
structure Machine (ν : Notes) where
  environment : Environment Value (Body ν)
  store : Store := {}
  output : String := ""
  detail : Nat := 0
  trace : Array Message := #[]
deriving Inhabited

/-- The state before anything is run. -/
def Machine.initial {ν : Notes} (detail : Nat) : Machine ν :=
  { environment :=
      ⟨#[{ parent := none, functions := [⟨"print", [.any], some .nil, some .print⟩] }]⟩
    detail := detail }

/-- The text of the trace, a message a line. -/
def Machine.traceText {ν : Notes} (machine : Machine ν) : String :=
  machine.trace.foldl (fun text message => text ++ message.text ++ "\n") ""

/-- A part of a run: it may change the state, and it may stop. -/
abbrev Run (ν : Notes) (β : Type) := ExceptT Stop (StateM (Machine ν)) β

namespace Run

variable {ν : Notes} {β : Type}

/-- Stops at a fault. -/
def fail (fault : RunFault) : Run ν β :=
  throw (.fault fault)

/-- A computation that does not look at the state. -/
def outcome (result : Except RunFault β) : Run ν β :=
  match result with
  | .ok value => pure value
  | .error fault => fail fault

/-- The lists that exist. -/
def store : Run ν Store := do
  return (← get).store

/-- Looks something up in the scopes. -/
def lookup (find : Environment Value (Body ν) → Except ScopeFault β) : Run ν β := do
  match find (← get).environment with
  | .ok found => pure found
  | .error fault => fail (.scope fault)

/-- Changes the scopes. -/
def change
    (step : Environment Value (Body ν) → Except ScopeFault (Environment Value (Body ν))) :
    Run ν Unit := do
  let machine ← get
  match step machine.environment with
  | .ok environment => set { machine with environment := environment }
  | .error fault => fail (.scope fault)

/-- Runs something in a scope of its own, which is closed however it ends. -/
def inScope (parent : Option Nat) (body : Run ν β) : Run ν β :=
  ExceptT.mk fun machine =>
    let opened := machine.environment.openScope parent
    let (result, after) := body { machine with environment := opened }
    match after.environment.closeScope opened.current with
    | .ok environment => (result, { after with environment := environment })
    | .error fault => (.error (.fault (.scope fault)), after)

/-- Prints a line. -/
def print (text : String) : Run ν Unit :=
  modify fun machine => { machine with output := machine.output ++ text ++ "\n" }

/-- Makes a list. -/
def allocate (elements : List Value) : Run ν Value := do
  let machine ← get
  let (handle, store) := machine.store.allocate elements
  set { machine with store := store }
  return .list handle

/-- Replaces an element of a list. -/
def replace (handle index : Nat) (value : Value) : Run ν Unit :=
  modify fun machine => { machine with store := machine.store.replace handle index value }

/-- Traces a message if the level of detail asks for it. The message is only
made up then, since the text of a value may be long; it may also be missing. -/
def trace (detail : Nat) (message : Store → Option Message) : Run ν Unit := do
  let machine ← get
  if detail ≤ machine.detail then
    match message machine.store with
    | some message => set { machine with trace := machine.trace.push message }
    | none => fail .unwritable

end Run

end Blockscript.Running
