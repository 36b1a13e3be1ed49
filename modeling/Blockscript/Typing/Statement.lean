import Blockscript.Typing.Expression

/-!
# Checking statements

Statements are checked in order. A declaration is visible from the next
statement on, up to the end of its block. Every block has a scope of its own,
and so has every case of a switch. Returns are checked against the result type
of the function, where the first one settles a type that was not declared.
-/

namespace Blockscript.Typing

/-- Checks a condition behind the given word. -/
def checkCondition (keyword : String) (condition : Expr .bare) : Check (Expr .checked) := do
  let condition ← checkExpr condition
  if condition.type = .boolean then
    return condition
  else
    throw (.condition keyword condition.type)

/-- Takes note of a returned type. -/
def checkReturned (type : Ty) : Check Unit := do
  let checker ← get
  match checker.returns.declared, checker.returns.inferred with
  | some declared, _ => Check.rule (requireAssignable declared type)
  | none, some inferred => Check.rule (requireAssignable inferred type)
  | none, none => set { checker with returns := { checker.returns with inferred := some type } }

/-- Checks the label of a case. The last case, and only that one, has none. -/
def checkLabel (subject : Ty) (last : Bool) (label : Option (Expr .bare)) :
    Check (Option (Expr .checked)) := do
  match label, last with
  | some _, true => throw .lastCaseLabelled
  | none, false => throw .defaultNotLast
  | none, true => return none
  | some label, false =>
    let label ← checkExpr label
    if label.type = subject then
      return some label
    else
      throw (.label label.type subject)

mutual

/-- Checks a statement. -/
def checkStmt : Stmt .bare → Check (Stmt .checked)
  | .expression inner => do
    if inner.isCall then
      return .expression (← checkExpr inner)
    else
      throw .notCall
  | .declaration _ name typeName value => do
    let (type, value) ← checkBinding name typeName value
    let entry ← Check.define name type true
    return .declaration entry name typeName value
  | .assignment receiver value => do
    if receiver.isPlace then
      let receiver ← checkExpr receiver
      let value ← checkValue receiver.type value
      Check.rule (requireAssignable receiver.type value.type)
      return .assignment receiver value
    else
      throw .notPlace
  | .conditional condition thenBlock elseBlock => do
    let condition ← checkCondition "IF" condition
    if thenBlock.isEmpty then
      throw .emptyThenBlock
    let thenBlock ← Check.inScope (checkBlock thenBlock)
    let elseBlock ← Check.inScope (checkBlock elseBlock)
    return .conditional condition thenBlock elseBlock
  | .switch subject cases => do
    let subject ← checkExpr subject
    if cases.isEmpty then
      throw .switchWithoutCase
    return .switch subject (← checkCases subject.type cases)
  | .loop condition body => do
    let condition ← checkCondition "WHILE" condition
    return .loop condition (← Check.inScope (checkBlock body))
  | .returning value => do
    let value ← checkExpr value
    checkReturned value.type
    return .returning value
  | .stray label body => do
    return .stray label (← Check.inScope (checkBlock body))

/-- Checks statements in order. -/
def checkBlock : List (Stmt .bare) → Check (List (Stmt .checked))
  | [] => return []
  | first :: rest => do
    let first ← checkStmt first
    return first :: (← checkBlock rest)

/-- Checks the cases of a switch on a value of the given type. -/
def checkCases (subject : Ty) : List (Case .bare) → Check (List (Case .checked))
  | [] => return []
  | .mk label body :: rest => do
    let label ← checkLabel subject rest.isEmpty label
    let body ← Check.inScope (checkBlock body)
    return .mk label body :: (← checkCases subject rest)

end

end Blockscript.Typing
