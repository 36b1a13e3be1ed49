import Blockscript.Running.Evaluation

/-!
# Running programs

A run evaluates the globals in order, defines the functions, and then calls
`main` without arguments. The value of that call is the result of the program.
-/

namespace Blockscript.Running

variable {ν : Notes}

/-- Evaluates a global and defines it. -/
def executeGlobal (budget : Nat) (definition : GlobalDef ν) : Run ν Unit := do
  let value ← evaluateOptional budget definition.value
  define definition.name definition.mutable value
  Run.trace 2 fun store => (value.text? store).map (.global definition.name)

/-- Defines a function in the current scope, which its body will continue in.
Nothing is known of the types of its parameters. -/
def defineFunction (definition : FunctionDef ν) : Run ν Unit := do
  let scope := (← get).environment.current
  Run.change (·.defineFunction
    ⟨definition.name, definition.parameters.map fun _ => .any, none,
      some (.script definition scope)⟩)
  Run.trace 2 fun _ => some (.function definition.name definition.parameters.length)

/-- Evaluates globals in order. -/
def executeGlobals (budget : Nat) : List (GlobalDef ν) → Run ν Unit
  | [] => return ()
  | first :: rest => do
    executeGlobal budget first
    executeGlobals budget rest

/-- Defines functions in order. -/
def defineFunctions : List (FunctionDef ν) → Run ν Unit
  | [] => return ()
  | first :: rest => do
    defineFunction first
    defineFunctions rest

/-- Calls the function of a name with the given arguments. -/
def callByName (budget : Nat) (name : String) (arguments : List Value) : Run ν Value := do
  let routine ← Run.lookup (·.lookupFunction name arguments.length)
  invoke budget routine arguments

/-- Runs a whole program. -/
def runProgram (budget : Nat) (program : Program ν) : Run ν Value := do
  executeGlobals budget program.globals
  defineFunctions program.functions
  callByName budget "main" []

/-- Runs a whole program from the start, with a trace of the given detail. -/
def run (budget detail : Nat) (program : Program ν) : Except Stop Value × Machine ν :=
  (runProgram budget program).run (Machine.initial detail)

end Blockscript.Running
