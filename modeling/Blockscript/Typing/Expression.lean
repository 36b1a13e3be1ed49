import Blockscript.Typing.Checker

/-!
# The types of expressions

Every expression is given its type, from the inside out and from left to right.
A list literal takes its element type from the list that it is stored in when it
stands right there; anywhere else from its first element. Checking an expression
changes no scope.
-/

namespace Blockscript.Typing

mutual

/-- Checks an expression. -/
def checkExpr : Expr .bare → Check (Expr .checked)
  | .literal _ value => do
    let type ← Check.rule (literalType value)
    return .literal type value
  | .group _ inner => do
    if inner.isBinary then
      let inner ← checkExpr inner
      return .group inner.type inner
    else
      throw .group
  | .binary _ operator left right => do
    let left ← checkExpr left
    let right ← checkExpr right
    let type ← Check.rule (binaryType operator left.type right.type)
    return .binary type operator left right
  | .access _ _ name => do
    let (_, entry) ← Check.lookup (·.lookupVariable name)
    return .access entry.type entry name
  | .element _ _ name offset => do
    let (_, entry) ← Check.lookup (·.lookupVariable name)
    let offset ← checkExpr offset
    if offset.type ≠ .integer then
      throw (.offset offset.type)
    match entry.type.element? with
    | some element => return .element element entry name offset
    | none => throw (.notList name)
  | .call _ _ name arguments => do
    let routine ← Check.lookup (·.lookupFunction name arguments.length)
    let arguments ← checkArguments routine.parameters arguments
    match routine.result with
    | some result => return .call result ⟨routine.parameters, result⟩ name arguments
    | none => throw (.resultUnknown name arguments.length)
  | .list _ [] => throw .emptyList
  | .list _ (first :: rest) => do
    let first ← checkExpr first
    let rest ← checkElements first.type rest
    return .list (.list first.type) (first :: rest)

/-- Checks the arguments of a call against the types of the parameters. -/
def checkArguments : List Ty → List (Expr .bare) → Check (List (Expr .checked))
  | parameter :: parameters, argument :: arguments => do
    let argument ← checkExpr argument
    Check.rule (requireAssignable parameter argument.type)
    return argument :: (← checkArguments parameters arguments)
  | _, _ => return []

/-- Checks the elements of a list whose element type is known. -/
def checkElements (element : Ty) : List (Expr .bare) → Check (List (Expr .checked))
  | [] => return []
  | first :: rest => do
    let first ← checkExpr first
    Check.rule (requireAssignable element first.type)
    return first :: (← checkElements element rest)

end

/-- Checks the value of a binding of a known type. A list literal right there is
a list of that type, even an empty one. -/
def checkValue (target : Ty) : Expr .bare → Check (Expr .checked)
  | .list _ elements => do
    match target with
    | .list element =>
      let elements ← checkElements element elements
      return .list (.list element) elements
    | _ => checkExpr (.list () elements)
  | value => checkExpr value

/-- The type of a new variable and its checked value, from what is given of
both. -/
def checkBinding (name : String) (typeName : Option String) (value : Option (Expr .bare)) :
    Check (Ty × Option (Expr .checked)) := do
  match typeName, value with
  | none, none => throw (.undetermined name)
  | none, some value =>
    let value ← checkExpr value
    return (value.type, some value)
  | some typeName, none =>
    let type ← Check.rule (resolve typeName)
    return (type, none)
  | some typeName, some value =>
    let type ← Check.rule (resolve typeName)
    let value ← checkValue type value
    Check.rule (requireAssignable type value.type)
    return (type, some value)

end Blockscript.Typing
