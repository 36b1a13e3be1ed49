import Blockscript.Typing.Statement

/-!
# Checking programs

Globals come first, each seeing the ones before it; then the functions, each
seeing all globals, itself and the functions before it. At the end there has to
be a function `main` without parameters whose result is an integer.
-/

namespace Blockscript.Typing

/-- Checks a global and defines it. -/
def checkGlobal (definition : GlobalDef .bare) : Check (GlobalDef .checked) := do
  if !definition.mutable && definition.value.isNone then
    throw (.immutableWithoutValue definition.name)
  let (type, value) ← checkBinding definition.name definition.typeName definition.value
  let entry ← Check.define definition.name type definition.mutable
  return { name := definition.name, typeName := definition.typeName,
           mutable := definition.mutable, value := value, entry := entry }

/-- The types of parameters. One without a type takes values of any type. -/
def parameterTypes : List (Option String) → Check (List Ty)
  | [] => return []
  | none :: rest => return .any :: (← parameterTypes rest)
  | some name :: rest => do
    let type ← Check.rule (resolve name)
    return type :: (← parameterTypes rest)

/-- Defines parameters, as far as they have types. -/
def defineParameters : List String → List Ty → Check Unit
  | name :: names, type :: types => do
    discard (Check.define name type true)
    defineParameters names types
  | _, _ => return ()

/-- The declared result type of a function. -/
def resultType? : Option String → Check (Option Ty)
  | none => return none
  | some name => do
    let type ← Check.rule (resolve name)
    return some type

/-- Checks a function and defines it. It is defined before its body is checked,
so the body may call it once its result type is known. Without any return the
result is nil. -/
def checkFunction (definition : FunctionDef .bare) : Check (FunctionDef .checked) := do
  let parameters ← parameterTypes definition.parameterTypes
  let declared ← resultType? definition.returnType
  Check.change (·.defineFunction ⟨definition.name, parameters, declared, none⟩)
  let (body, inferred) ← Check.inFunction declared <| Check.inScope do
    defineParameters definition.parameters parameters
    checkBlock definition.body
  let result := declared.getD (inferred.getD .nil)
  if declared.isNone then
    Check.change fun environment =>
      .ok (environment.setResult definition.name parameters.length result)
  return { name := definition.name, parameters := definition.parameters,
           parameterTypes := definition.parameterTypes, returnType := definition.returnType,
           body := body, routine := ⟨parameters, result⟩ }

/-- Checks globals in order. -/
def checkGlobals : List (GlobalDef .bare) → Check (List (GlobalDef .checked))
  | [] => return []
  | first :: rest => do
    let first ← checkGlobal first
    return first :: (← checkGlobals rest)

/-- Checks functions in order. -/
def checkFunctions : List (FunctionDef .bare) → Check (List (FunctionDef .checked))
  | [] => return []
  | first :: rest => do
    let first ← checkFunction first
    return first :: (← checkFunctions rest)

/-- Checks a whole program. -/
def checkProgram (program : Program .bare) : Check (Program .checked) := do
  let globals ← checkGlobals program.globals
  let functions ← checkFunctions program.functions
  let main ← Check.lookup (·.lookupFunction "main" 0)
  if main.result = some .integer then
    return ⟨globals, functions⟩
  else
    throw (.mainResult main.result)

/-- The checked program and the state after checking. -/
def check (program : Program .bare) : Except TypeFault (Program .checked × Checker) :=
  match (checkProgram program).run Checker.initial with
  | (.ok checked, checker) => .ok (checked, checker)
  | (.error fault, _) => .error fault

end Blockscript.Typing
