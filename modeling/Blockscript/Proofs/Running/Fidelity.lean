import Blockscript.Proofs.Running.Chronicle
import Blockscript.Proofs.Running.Meeting

/-!
# A chronicle tells of the run

Taking a run down changes nothing of it: the recorded run ends as the run does, and
with the same machine. This needs nothing of the program, so it holds of every
checked tree.
-/

namespace Blockscript.Chronicle

open Running (Body Machine Outcome Run)

variable {α β : Type}

/-- The recorded part of a run ends as the part itself, with the same machine. -/
def Tells (recorded : Recorded β) (action : Run .checked β) : Prop :=
  ∀ record : Record, ((recorded.run record).1, (recorded.run record).2.state.machine) =
    action.run record.state.machine

/-- To give a value is told as it is. -/
theorem tells_pure (value : β) : Tells (pure value) (pure value) :=
  fun _ => rfl

/-- A stop is told as it is. -/
theorem tells_throw (stop : Stop) : Tells (throw stop : Recorded β) (throw stop) :=
  fun _ => rfl

/-- Two actions in order are told one after another. -/
theorem Tells.bind {recorded : Recorded α} {action : Run .checked α} {next : α → Recorded β}
    {further : α → Run .checked β} (first : Tells recorded action)
    (rest : ∀ value, Tells (next value) (further value)) :
    Tells (recorded >>= next) (action >>= further) := by
  intro record
  have same := first record
  rw [Running.run_bind, Running.run_bind, ← same]
  cases recorded.run record with
  | mk outcome after =>
    cases outcome with
    | error stop => rfl
    | ok value => exact rest value after

/-- What is taken down first does not show. -/
theorem Tells.noting {recorded : Unit → Recorded β} {action : Run .checked β} {scopes : Scopes}
    {event : Event} (rest : Tells (recorded ()) action) :
    Tells (note scopes event >>= recorded) action :=
  fun record => rest (record.noting scopes event)

/-- An action is told, too, when its value is not needed. -/
theorem tells_discard {recorded : Recorded α} {action : Run .checked α}
    (tells : Tells recorded action) : Tells (discard recorded) (discard action) := by
  rw [Running.discard_eq, Running.discard_eq]
  exact tells.bind fun _ => tells_pure _

/-- An action that is performed is told, whatever is remembered of it. -/
theorem tells_perform (scopes : Scopes) (remember : Memory → Memory) (action : Run .checked β) :
    Tells (perform scopes remember action) action := by
  intro record
  unfold perform
  simp only [ExceptT.run_mk]
  cases outcome : action.run record.state.machine with
  | mk result machine =>
    cases result with
    | ok value => rfl
    | error stop => rfl

/-- An action in a new scope is told in a new level. -/
theorem tells_inScope {recorded : Recorded β} {action : Run .checked β} (scopes : Scopes)
    (parent : Option Nat) (body : Tells recorded action) :
    Tells (inScope scopes parent recorded) (Run.inScope parent action) := by
  intro record
  have same := body (record.entering scopes parent)
  simp only [inScope, Run.inScope, ExceptT.run_mk]
  change _ = action { record.state.machine with
    environment := record.state.machine.environment.openScope parent } at same
  rw [← same]
  simp only [ExceptT.run]
  cases recorded (record.entering scopes parent) with
  | mk outcome after =>
    simp only
    cases after.state.machine.environment.closeScope
        (record.state.machine.environment.openScope parent).current with
    | ok environment => rfl
    | error fault => rfl

/-- To take a value down changes nothing about what is told. -/
theorem Tells.giving {recorded : Recorded Value} {action : Run .checked Value} {scopes : Scopes}
    {expression : Expr .checked} (tells : Tells recorded action) :
    Tells (giving scopes expression recorded) action := by
  rw [← bind_pure action]
  exact tells.bind fun value => .noting (tells_pure value)

/-- The record tells how parameters are defined. -/
theorem defineParameters_tells (index : Nat) : ∀ (scopes : Scopes) (position : Nat)
    (names : List String) (types : List Ty) (values : List Value),
    Tells (defineParameters index scopes position names types values)
      (Running.defineParameters names values)
  | _, _, [], _, _ => tells_pure _
  | _, _, _ :: _, _, [] => tells_pure _
  | _, position, _ :: names, types, _ :: values =>
    (tells_perform _ _ _).bind fun _ =>
      defineParameters_tells index _ (position + 1) names types.tail values

variable (program : Program .checked)

mutual

/-- The record tells how an expression is evaluated. -/
theorem evaluate_tells : ∀ (budget : Nat) (scopes : Scopes) (expression : Expr .checked),
    Tells (evaluate program budget scopes expression) (Running.evaluate budget expression)
  | 0, scopes, expression => by
    unfold evaluate Running.evaluate
    exact tells_throw _
  | budget + 1, scopes, expression => by
    unfold evaluate Running.evaluate
    apply Tells.giving
    cases expression with
    | literal type literal => exact tells_perform scopes id _
    | group type inner => exact evaluate_tells budget scopes inner
    | binary type operator left right =>
      apply (evaluate_tells budget scopes left).bind
      intro value
      cases Operator.ofText? operator with
      | none =>
        exact (evaluate_tells budget scopes right).bind fun _ =>
          (tells_perform _ _ _).bind fun _ => .noting (tells_perform _ _ _)
      | some parsed =>
        cases parsed with
        | and => exact evaluateLogical_tells budget scopes .and value right
        | or => exact evaluateLogical_tells budget scopes .or value right
        | _ =>
          exact (evaluate_tells budget scopes right).bind fun _ =>
            (tells_perform _ _ _).bind fun _ => .noting (tells_perform _ _ _)
    | access type entry name =>
      exact .noting ((tells_perform _ _ _).bind fun _ => tells_pure _)
    | element type entry name offset =>
      exact .noting ((tells_discard (tells_perform _ _ _)).bind fun _ =>
        (evaluate_tells budget scopes offset).bind fun _ =>
          .noting ((tells_perform _ _ _).bind fun _ => tells_perform _ _ _))
    | call type routine name arguments =>
      exact .noting ((tells_perform _ _ _).bind fun found =>
        (evaluateAll_tells budget scopes arguments).bind fun values =>
          invoke_tells budget scopes found values)
    | list type elements =>
      exact (evaluateAll_tells budget scopes elements).bind fun _ => tells_perform _ _ _

/-- The record tells how a logical operation goes on. -/
theorem evaluateLogical_tells : ∀ (budget : Nat) (scopes : Scopes) (operator : Operator)
    (left : Value) (right : Expr .checked),
    Tells (evaluateLogical program budget scopes operator left right)
      (Running.evaluateLogical budget operator left right)
  | 0, scopes, operator, left, right => by
    unfold evaluateLogical Running.evaluateLogical
    exact tells_throw _
  | budget + 1, scopes, operator, left, right => by
    unfold evaluateLogical Running.evaluateLogical
    apply (tells_perform _ _ _).bind
    intro truth
    split
    · exact tells_pure _
    · exact (evaluate_tells budget scopes right).bind fun _ =>
        (tells_perform _ _ _).bind fun _ => tells_pure _

/-- The record tells how expressions are evaluated. -/
theorem evaluateAll_tells : ∀ (budget : Nat) (scopes : Scopes)
    (expressions : List (Expr .checked)),
    Tells (evaluateAll program budget scopes expressions)
      (Running.evaluateAll budget expressions)
  | 0, scopes, expressions => by
    unfold evaluateAll Running.evaluateAll
    exact tells_throw _
  | budget + 1, scopes, expressions => by
    unfold evaluateAll Running.evaluateAll
    cases expressions with
    | nil => exact tells_pure _
    | cons first rest =>
      exact (evaluate_tells budget scopes first).bind fun _ =>
        (evaluateAll_tells budget scopes rest).bind fun _ => tells_pure _

/-- The record tells how a function is called. -/
theorem invoke_tells : ∀ (budget : Nat) (scopes : Scopes) (routine : Routine (Body .checked))
    (arguments : List Value),
    Tells (invoke program budget scopes routine arguments)
      (Running.invoke budget routine arguments)
  | 0, scopes, routine, arguments => by
    unfold invoke Running.invoke
    exact tells_throw _
  | budget + 1, scopes, routine, arguments => by
    unfold invoke Running.invoke
    cases routine.required with
    | error fault => exact tells_throw _
    | ok body =>
      cases body with
      | print =>
        exact .noting ((tells_perform _ _ _).bind fun _ => (tells_perform _ _ _).bind fun _ =>
          (tells_perform _ _ _).bind fun _ => .noting (tells_pure _))
      | script definition scope =>
        exact .noting ((tells_perform _ _ _).bind fun _ =>
          (tells_inScope _ _ ((defineParameters_tells _ _ _ _ _ _).bind fun _ =>
            executeBlock_tells budget _ definition.body)).bind fun _ => .noting (tells_pure _))

/-- The record tells how a statement is executed. -/
theorem execute_tells : ∀ (budget : Nat) (site : Site) (statement : Stmt .checked),
    Tells (execute program budget site statement) (Running.execute budget statement)
  | 0, site, statement => by
    unfold execute Running.execute
    exact tells_throw _
  | budget + 1, site, statement => by
    unfold execute Running.execute
    cases statement with
    | expression inner =>
      exact (tells_discard (evaluate_tells budget _ inner)).bind fun _ => tells_pure _
    | declaration entry name typeName value =>
      exact (evaluateOptional_tells budget _ value).bind fun _ =>
        (tells_perform _ _ _).bind fun _ => (tells_perform _ _ _).bind fun _ => tells_pure _
    | assignment receiver value =>
      cases receiver with
      | access type entry name =>
        exact (evaluate_tells budget _ value).bind fun _ =>
          .noting ((tells_discard (tells_perform _ _ _)).bind fun _ =>
            .noting ((tells_perform _ _ _).bind fun _ => tells_pure _))
      | element type entry name offset =>
        exact (evaluate_tells budget _ value).bind fun _ =>
          .noting ((tells_perform _ _ _).bind fun _ => (tells_perform _ _ _).bind fun _ =>
            (evaluate_tells budget _ offset).bind fun _ => (tells_perform _ _ _).bind fun _ =>
              (tells_perform _ _ _).bind fun _ => (tells_perform _ _ _).bind fun _ =>
                tells_pure _)
      | _ =>
        exact (tells_discard (evaluate_tells budget _ value)).bind fun _ => tells_throw _
    | conditional condition thenBlock elseBlock =>
      exact (evaluate_tells budget _ condition).bind fun _ => (tells_perform _ _ _).bind fun _ =>
        (tells_perform _ _ _).bind fun _ => tells_inScope _ _ (executeBlock_tells budget _ _)
    | switch subject cases =>
      exact tells_inScope _ _ ((evaluate_tells budget _ subject).bind fun value =>
        executeCases_tells budget site 0 value cases)
    | loop condition body => exact repeatWhile_tells budget site condition body
    | returning value => exact (evaluate_tells budget _ value).bind fun _ => tells_pure _
    | stray label body => exact tells_throw _

/-- The record tells how an initial value is evaluated. -/
theorem evaluateOptional_tells : ∀ (budget : Nat) (scopes : Scopes)
    (value : Option (Expr .checked)),
    Tells (evaluateOptional program budget scopes value) (Running.evaluateOptional budget value)
  | 0, scopes, value => by
    unfold evaluateOptional Running.evaluateOptional
    exact tells_throw _
  | budget + 1, scopes, value => by
    unfold evaluateOptional Running.evaluateOptional
    cases value with
    | none => exact tells_pure _
    | some value => exact evaluate_tells budget scopes value

/-- The record tells how the statements of a block are executed. -/
theorem executeBlock_tells : ∀ (budget : Nat) (site : Site) (statements : List (Stmt .checked)),
    Tells (executeBlock program budget site statements) (Running.executeBlock budget statements)
  | 0, site, statements => by
    unfold executeBlock Running.executeBlock
    exact tells_throw _
  | budget + 1, site, statements => by
    unfold executeBlock Running.executeBlock
    cases statements with
    | nil => exact tells_pure _
    | cons first rest =>
      apply (execute_tells budget site first).bind
      intro outcome
      cases outcome with
      | completed => exact executeBlock_tells budget (site.after first) rest
      | returning value => exact tells_pure _

/-- The record tells how the cases of a switch are executed. -/
theorem executeCases_tells : ∀ (budget : Nat) (site : Site) (number : Nat) (subject : Value)
    (cases : List (Case .checked)),
    Tells (executeCases program budget site number subject cases)
      (Running.executeCases budget subject cases)
  | 0, site, number, subject, cases => by
    unfold executeCases Running.executeCases
    exact tells_throw _
  | budget + 1, site, number, subject, [] => by
    unfold executeCases Running.executeCases
    exact tells_pure _
  | budget + 1, site, number, subject, .mk none body :: _ => by
    unfold executeCases Running.executeCases
    exact (tells_perform _ _ _).bind fun _ => executeBlock_tells budget _ body
  | budget + 1, site, number, subject, .mk (some label) body :: rest => by
    unfold executeCases Running.executeCases
    apply (evaluate_tells budget site.scopes label).bind
    intro value
    apply (tells_perform _ _ _).bind
    intro store
    split
    · exact (tells_perform _ _ _).bind fun _ => executeBlock_tells budget _ body
    · exact executeCases_tells budget site (number + 1) subject rest

/-- The record tells how a loop is executed. -/
theorem repeatWhile_tells : ∀ (budget : Nat) (site : Site) (condition : Expr .checked)
    (body : List (Stmt .checked)),
    Tells (repeatWhile program budget site condition body)
      (Running.repeatWhile budget condition body)
  | 0, site, condition, body => by
    unfold repeatWhile Running.repeatWhile
    exact tells_throw _
  | budget + 1, site, condition, body => by
    unfold repeatWhile Running.repeatWhile
    apply (evaluate_tells budget site.scopes condition).bind
    intro value
    apply (tells_perform _ _ _).bind
    intro truth
    split
    · apply (tells_inScope _ _ (executeBlock_tells budget _ body)).bind
      intro outcome
      cases outcome with
      | completed => exact repeatWhile_tells budget site condition body
      | returning value => exact tells_pure _
    · exact tells_pure _

end

/-- The record tells how globals are executed. -/
theorem executeGlobals_tells (budget : Nat) : ∀ (root : List Binding)
    (definitions : List (GlobalDef .checked)),
    Tells (executeGlobals program budget root definitions)
      (Running.executeGlobals budget definitions)
  | _, [] => tells_pure _
  | root, first :: rest => by
    have firstTells : Tells (executeGlobal program budget root first)
        (Running.executeGlobal budget first) :=
      (evaluateOptional_tells program budget _ first.value).bind fun _ =>
        (tells_perform _ _ _).bind fun _ => tells_perform _ _ _
    exact firstTells.bind fun _ => executeGlobals_tells budget _ rest

/-- The record tells how functions are defined. -/
theorem defineFunctions_tells : ∀ (scopes : Scopes) (definitions : List (FunctionDef .checked)),
    Tells (defineFunctions scopes definitions) (Running.defineFunctions definitions)
  | _, [] => tells_pure _
  | _, _ :: rest => (tells_perform _ _ _).bind fun _ => defineFunctions_tells _ rest

/-- The chronicle of a whole run ends as the run, with the same machine. -/
theorem run_tells (budget detail : Nat) :
    ((run program budget detail).1, (run program budget detail).2.state.machine) =
      Running.run budget detail program := by
  have tells : Tells (runProgram program budget) (Running.runProgram budget program) :=
    (executeGlobals_tells program budget [] program.globals).bind fun _ =>
      (defineFunctions_tells _ program.functions).bind fun _ =>
        (tells_perform _ _ _).bind fun main => invoke_tells program budget _ main []
  exact tells (Record.initial detail)

end Blockscript.Chronicle
