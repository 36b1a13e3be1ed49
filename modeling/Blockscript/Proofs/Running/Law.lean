import Blockscript.Proofs.Running.Meeting

/-!
# Laws of running

What every single step of a run obeys, every run obeys. A law says something of
actions on its own terms: it is kept by the few steps that a run is made of, by doing
one thing behind another, and by doing something in a scope of its own. The one
induction over expressions, statements and calls is made here, for all laws at once.

A law has two sides. Most actions find the current scope and leave it without a new
name; only declarations, and blocks for them, may define something there. What holds of
the second side holds of the first, and a scope around an action takes it back to the
first side.
-/

namespace Blockscript

/-- Any fault but that of a scope that is closed out of order. -/
def RunFault.Orderly : RunFault → Prop
  | .scope (.closedOutOfOrder _) => False
  | _ => True

/-- Any stop but at a scope that is closed out of order. -/
def Stop.Orderly : Stop → Prop
  | .fault met => met.Orderly
  | .exhausted => True

namespace Running

variable {ν : Notes} {α β : Type}

/-! ## Outcomes that do not look at the state -/

/-- The outcome is no fault of a scope that is closed out of order. -/
def OrderlyOutcome (outcome : Except RunFault α) : Prop :=
  ∀ fault, outcome = .error fault → fault.Orderly

/-- A value is an orderly outcome. -/
theorem orderly_ok (value : α) : OrderlyOutcome (.ok value) := by
  intro fault failed
  cases failed

/-- An orderly fault is an orderly outcome. -/
theorem orderly_error {fault : RunFault} (orderly : fault.Orderly) :
    OrderlyOutcome (.error fault : Except RunFault α) := by
  rintro _ ⟨⟩
  exact orderly

/-- Telling a fault with an integer closes no scope. -/
theorem naming_orderly {number : Int} {fault : RunFault} (orderly : fault.Orderly) :
    (RunFault.naming number fault).Orderly :=
  RunFault.naming_of orderly trivial

/-- A text that may be missing is an orderly outcome. -/
theorem written_orderly (text : Option α) : OrderlyOutcome (written text) := by
  cases text with
  | none => exact orderly_error trivial
  | some text => exact orderly_ok text

/-- To ask for a truth value ends in order. -/
theorem requireBoolean_orderly (context : String) (value : Value) :
    OrderlyOutcome (requireBoolean context value) := by
  cases value with
  | boolean truth => exact orderly_ok truth
  | _ => exact orderly_error trivial

/-- To ask for a list ends in order. -/
theorem requireList_orderly (name : String) (value : Value) :
    OrderlyOutcome (requireList name value) := by
  cases value with
  | list handle => exact orderly_ok handle
  | _ => exact orderly_error trivial

/-- To ask for an index ends in order. -/
theorem requireIndex_orderly (offset : Value) (size : Nat) :
    OrderlyOutcome (requireIndex offset size) := by
  cases offset with
  | integer number =>
    rw [requireIndex]
    split
    · exact orderly_ok _
    · exact orderly_error (naming_orderly trivial)
  | _ => exact orderly_error trivial

/-- A literal has its value in order. -/
theorem literalValue_orderly (literal : Literal) : OrderlyOutcome (literalValue literal) := by
  cases literal with
  | integer number =>
    rw [literalValue]
    split
    · exact orderly_ok _
    · exact orderly_error (naming_orderly trivial)
  | _ => exact orderly_ok _

/-- A comparison ends in order. -/
theorem compare_orderly (left right : Value) (below : Option Bool) :
    OrderlyOutcome (compare left right below) := by
  cases below with
  | some truth => exact orderly_ok _
  | none => exact orderly_error trivial

/-- What decimals refuse is refused in order. -/
theorem decimalResult_orderly (outcome : Except Decimal.Refusal Decimal) :
    OrderlyOutcome (decimalResult outcome) := by
  cases outcome with
  | ok number => exact orderly_ok _
  | error refusal => exact orderly_error trivial

/-- Sums, differences and products end in order. -/
theorem arithmetic_orderly (operator : Operator) (onIntegers : Int → Int → Int)
    (onDecimals : Decimal → Decimal → Except Decimal.Refusal Decimal) (left right : Value) :
    OrderlyOutcome (arithmetic operator onIntegers onDecimals left right) := by
  unfold arithmetic
  split
  · exact orderly_ok _
  · exact decimalResult_orderly _
  · exact orderly_error trivial

/-- A power of a decimal ends in order. -/
theorem decimalPower_orderly (base : Decimal) (exponent : Int) :
    OrderlyOutcome (decimalPower base exponent) := by
  unfold decimalPower
  split
  · exact orderly_error trivial
  · cases base.power exponent with
    | ok number => exact orderly_ok _
    | error refusal => exact orderly_error (naming_orderly trivial)

/-- A power ends in order. -/
theorem power_orderly (base exponent : Value) : OrderlyOutcome (power base exponent) := by
  unfold power
  split
  · split
    · exact decimalPower_orderly _ _
    · split
      · exact orderly_error trivial
      · exact orderly_ok _
    · exact orderly_error trivial
  · exact orderly_error trivial

/-- The joining of texts ends in order, also where a value cannot be written. -/
theorem join_orderly (store : Store) (left right : Value) :
    OrderlyOutcome (join store left right) := by
  unfold join written
  cases left.text? store with
  | none => exact orderly_error trivial
  | some first =>
    cases right.text? store with
    | none => exact orderly_error trivial
    | some second => exact orderly_ok _

/-- Every operator ends in order. -/
theorem apply_orderly (store : Store) (text : String) (left right : Value) :
    OrderlyOutcome (apply store text left right) := by
  unfold apply
  split
  · exact orderly_ok _
  · exact orderly_ok _
  · exact compare_orderly _ _ _
  · exact compare_orderly _ _ _
  · split
    · exact join_orderly store left right
    · exact arithmetic_orderly _ _ _ _ _
  · exact arithmetic_orderly _ _ _ _ _
  · exact arithmetic_orderly _ _ _ _ _
  · split
    · exact orderly_error trivial
    · exact arithmetic_orderly _ _ _ _ _
  · exact power_orderly _ _
  · exact orderly_error trivial
  · exact orderly_error trivial
  · exact orderly_error trivial

/-! ## Laws -/

/-- The detail that a message belongs to: the second tells what is defined, the third
what is called and decided. -/
def Message.detail : Message → Nat
  | .global _ _ | .function _ _ | .declaration _ _ => 2
  | .call _ _ | .condition _ | .choice _ _ => 3

/-- Assigns to the variable that a name means here, if that is allowed. -/
def assignVariable (name : String) (value : Value) : Run ν Unit := do
  discard (mutableOf name)
  Run.change (·.setVariable name value)

/-- A law of running: what is said of actions that define nothing in the current scope
and of those that may, for calls of the functions that are known. -/
structure Law (ν : Notes) where
  keeps : {β : Type} → Run ν β → Prop
  defines : {β : Type} → Run ν β → Prop
  known : Routine (Body ν) → Prop
  give : ∀ {β : Type} (value : β), keeps (pure value : Run ν β)
  halt : ∀ {β : Type} (stop : Stop), stop.Orderly → keeps (throw stop : Run ν β)
  andThen : ∀ {α β : Type} {action : Run ν α} {next : α → Run ν β},
    keeps action → (∀ value, keeps (next value)) → keeps (action >>= next)
  read : ∀ name, keeps (variableOf name)
  assign : ∀ name value, keeps (assignVariable name value)
  call : ∀ {β : Type} {name : String} {arity : Nat} {next : Routine (Body ν) → Run ν β},
    (∀ routine, known routine → keeps (next routine)) →
      keeps (Run.lookup (·.lookupFunction name arity) >>= next)
  store : keeps Run.store
  allocate : ∀ elements, keeps (Run.allocate elements)
  replace : ∀ handle index value, keeps (Run.replace handle index value)
  print : ∀ text, keeps (Run.print text)
  trace : ∀ detail (message : Store → Option Message), 2 ≤ detail →
    (∀ store, ∀ told ∈ message store, told.detail = detail) → keeps (Run.trace detail message)
  block : ∀ {β : Type} {body : Run ν β}, defines body → keeps (Run.inScope none body)
  body : ∀ {β : Type} {routine : Routine (Body ν)} {definition : FunctionDef ν} {scope : Nat}
    {body : Run ν β}, known routine → routine.implementation = some (.script definition scope) →
      defines body → keeps (Run.inScope (some scope) body)
  allow : ∀ {β : Type} {action : Run ν β}, keeps action → defines action
  further : ∀ {α β : Type} {action : Run ν α} {next : α → Run ν β},
    defines action → (∀ value, defines (next value)) → defines (action >>= next)
  define : ∀ entry, defines (Run.change (·.defineVariable entry))

namespace Law

variable (law : Law ν)

/-- An orderly outcome is kept. -/
theorem outcome {result : Except RunFault β} (orderly : OrderlyOutcome result) :
    law.keeps (Run.outcome result : Run ν β) := by
  cases result with
  | ok value => exact law.give value
  | error fault => exact law.halt (.fault fault) (orderly fault rfl)

/-- The end of the budget is kept. -/
theorem exhausted : law.keeps (exhausted : Run ν β) :=
  law.halt .exhausted trivial

/-- An action whose value is not needed is kept when the action is. -/
theorem discard {action : Run ν β} (keeps : law.keeps action) :
    law.keeps (discard action : Run ν PUnit) := by
  rw [discard_eq]
  exact law.andThen keeps fun _ => law.give _

/-- To look a variable up for assignment is kept. -/
theorem mutableOf (name : String) : law.keeps (mutableOf name) := by
  unfold Running.mutableOf
  refine law.andThen (law.read name) fun entry => ?_
  split
  · exact law.give entry
  · exact law.halt _ trivial

/-- To take an element is kept. -/
theorem elementAt (name : String) (value offset : Value) :
    law.keeps (elementAt name value offset) := by
  unfold Running.elementAt
  refine law.andThen (law.outcome (requireList_orderly name value)) fun handle => ?_
  refine law.andThen law.store fun store => ?_
  refine law.andThen (law.outcome (requireIndex_orderly offset _)) fun index => ?_
  exact law.give _

/-- A message that is made of a text is traced as its form tells. -/
theorem told {α : Type} {detail : Nat} {text : Store → Option α} {form : α → Message}
    (least : 2 ≤ detail) (own : ∀ text, (form text).detail = detail) :
    law.keeps (Run.trace detail fun store => (text store).map form) := by
  refine law.trace detail _ least fun store message made => ?_
  obtain ⟨_, _, rfl⟩ := Option.map_eq_some_iff.mp made
  exact own _

/-- Parameters may be defined. -/
theorem defineParameters (names : List String) (values : List Value) :
    law.defines (defineParameters names values) := by
  induction names generalizing values with
  | nil => exact law.allow (law.give _)
  | cons name names inductionHypothesis =>
    cases values with
    | nil => exact law.allow (law.give _)
    | cons value values =>
      exact law.further (law.define _) fun _ => inductionHypothesis values

end Law

end Running

/-- Whether the statement is a declaration. -/
def Stmt.isDeclaration {ν : Notes} : Stmt ν → Bool
  | .declaration _ _ _ _ => true
  | _ => false

namespace Running.Law

variable {ν : Notes} (law : Law ν)

/-- What a law says of each kind of part, run within a budget. -/
structure Holds (budget : Nat) : Prop where
  evaluate : ∀ expression, law.keeps (evaluate budget expression)
  evaluateLogical : ∀ operator left right,
    law.keeps (evaluateLogical budget operator left right)
  evaluateAll : ∀ expressions, law.keeps (evaluateAll budget expressions)
  invoke : ∀ routine arguments, law.known routine → law.keeps (invoke budget routine arguments)
  evaluateOptional : ∀ value, law.keeps (evaluateOptional budget value)
  statement : ∀ statement, statement.isDeclaration = false →
    law.keeps (execute budget statement)
  execute : ∀ statement, law.defines (execute budget statement)
  executeBlock : ∀ statements, law.defines (executeBlock budget statements)
  executeCases : ∀ subject cases, law.defines (executeCases budget subject cases)
  repeatWhile : ∀ condition body, law.keeps (repeatWhile budget condition body)

variable {law} {budget : Nat}

/-- The law holds of expressions with one more unit of the budget. -/
theorem evaluate_step (holds : law.Holds budget) (expression : Expr ν) :
    law.keeps (evaluate (budget + 1) expression) := by
  cases expression with
  | literal type literal => exact law.outcome (literalValue_orderly literal)
  | group type inner => exact holds.evaluate inner
  | binary type operator left right =>
    unfold Running.evaluate
    refine law.andThen (holds.evaluate left) fun left => ?_
    split
    · exact holds.evaluateLogical _ _ _
    · exact holds.evaluateLogical _ _ _
    · refine law.andThen (holds.evaluate right) fun right => ?_
      refine law.andThen law.store fun store => ?_
      exact law.outcome (apply_orderly _ _ _ _)
  | access type entry name =>
    unfold Running.evaluate
    exact law.andThen (law.read name) fun entry => law.give _
  | element type entry name offset =>
    unfold Running.evaluate
    refine law.andThen (law.discard (law.read name)) fun _ => ?_
    refine law.andThen (holds.evaluate offset) fun offset => ?_
    refine law.andThen (law.read name) fun entry => ?_
    exact law.elementAt name _ _
  | call type routine name arguments =>
    unfold Running.evaluate
    refine law.call fun routine known => ?_
    refine law.andThen (holds.evaluateAll arguments) fun arguments => ?_
    exact holds.invoke routine arguments known
  | list type elements =>
    unfold Running.evaluate
    exact law.andThen (holds.evaluateAll elements) fun elements => law.allocate elements

/-- The law holds of logical operations with one more unit of the budget. -/
theorem evaluateLogical_step (holds : law.Holds budget) (operator : Operator) (left : Value)
    (right : Expr ν) : law.keeps (evaluateLogical (budget + 1) operator left right) := by
  unfold Running.evaluateLogical
  refine law.andThen (law.outcome (requireBoolean_orderly _ _)) fun truth => ?_
  split
  · exact law.give _
  · refine law.andThen (holds.evaluate right) fun right => ?_
    exact law.andThen (law.outcome (requireBoolean_orderly _ _)) fun _ => law.give _

/-- The law holds of several expressions with one more unit of the budget. -/
theorem evaluateAll_step (holds : law.Holds budget) (expressions : List (Expr ν)) :
    law.keeps (evaluateAll (budget + 1) expressions) := by
  cases expressions with
  | nil => exact law.give _
  | cons first rest =>
    unfold Running.evaluateAll
    refine law.andThen (holds.evaluate first) fun first => ?_
    exact law.andThen (holds.evaluateAll rest) fun rest => law.give _

/-- The law holds of calls with one more unit of the budget. -/
theorem invoke_step (holds : law.Holds budget) (routine : Routine (Body ν))
    (arguments : List Value) (known : law.known routine) :
    law.keeps (invoke (budget + 1) routine arguments) := by
  unfold Running.invoke Routine.required
  cases implemented : routine.implementation with
  | none => exact law.halt _ trivial
  | some body =>
    cases body with
    | print =>
      refine law.andThen law.store fun store => ?_
      refine law.andThen (law.outcome (written_orderly _)) fun text => ?_
      exact law.andThen (law.print text) fun _ => law.give _
    | script definition scope =>
      refine law.andThen (law.told (by decide) fun _ => rfl) fun _ => ?_
      refine law.andThen (law.body known implemented ?_) fun outcome => law.give _
      exact law.further (law.defineParameters _ _) fun _ => holds.executeBlock definition.body

/-- The law holds of assignments with one more unit of the budget. -/
theorem assignment_step (holds : law.Holds budget) (receiver value : Expr ν) :
    law.keeps (execute (budget + 1) (.assignment receiver value)) := by
  cases receiver with
  | access type entry name =>
    unfold Running.execute
    refine law.andThen (holds.evaluate value) fun value => ?_
    have together : (do
        Functor.discard (Running.mutableOf name)
        Run.change (·.setVariable name value)
        return .completed : Run ν Outcome) =
          assignVariable name value >>= fun _ => pure .completed := by
      rw [assignVariable, bind_assoc]
    rw [together]
    exact law.andThen (law.assign name value) fun _ => law.give _
  | element type entry name offset =>
    unfold Running.execute
    refine law.andThen (holds.evaluate value) fun value => ?_
    refine law.andThen (law.mutableOf name) fun entry => ?_
    refine law.andThen (law.outcome (requireList_orderly name _)) fun handle => ?_
    refine law.andThen (holds.evaluate offset) fun offset => ?_
    refine law.andThen law.store fun store => ?_
    refine law.andThen (law.outcome (requireIndex_orderly offset _)) fun index => ?_
    exact law.andThen (law.replace handle index value) fun _ => law.give _
  | _ =>
    unfold Running.execute
    exact law.andThen (law.discard (holds.evaluate value)) fun _ => law.halt _ trivial

/-- The law holds of statements that define nothing with one more unit of the budget. -/
theorem statement_step (holds : law.Holds budget) (statement : Stmt ν)
    (other : statement.isDeclaration = false) : law.keeps (execute (budget + 1) statement) := by
  cases statement with
  | expression inner =>
    unfold Running.execute
    exact law.andThen (law.discard (holds.evaluate inner)) fun _ => law.give _
  | declaration entry name typeName value => simp [Stmt.isDeclaration] at other
  | assignment receiver value => exact assignment_step holds receiver value
  | conditional condition thenBlock elseBlock =>
    unfold Running.execute
    refine law.andThen (holds.evaluate condition) fun condition => ?_
    refine law.andThen (law.outcome (requireBoolean_orderly _ _)) fun truth => ?_
    refine law.andThen (law.trace _ _ (by decide) fun _ _ => by rintro ⟨⟩; rfl) fun _ => ?_
    exact law.block (holds.executeBlock _)
  | switch subject cases =>
    unfold Running.execute
    refine law.block (law.further (law.allow (holds.evaluate subject)) fun subject => ?_)
    exact holds.executeCases subject cases
  | loop condition body => exact holds.repeatWhile condition body
  | returning value =>
    unfold Running.execute
    exact law.andThen (holds.evaluate value) fun value => law.give _
  | stray label body => exact law.halt _ trivial

/-- The law holds of all statements with one more unit of the budget. -/
theorem execute_step (holds : law.Holds budget) (statement : Stmt ν) :
    law.defines (execute (budget + 1) statement) := by
  cases statement with
  | declaration entry name typeName value =>
    unfold Running.execute
    refine law.further (law.allow (holds.evaluateOptional value)) fun value => ?_
    refine law.further (law.define _) fun _ => ?_
    exact law.allow (law.andThen (law.told (by decide) fun _ => rfl) fun _ => law.give _)
  | _ => exact law.allow (statement_step holds _ rfl)

/-- The law holds of initial values with one more unit of the budget. -/
theorem evaluateOptional_step (holds : law.Holds budget) (value : Option (Expr ν)) :
    law.keeps (evaluateOptional (budget + 1) value) := by
  cases value with
  | none => exact law.give _
  | some value => exact holds.evaluate value

/-- The law holds of the statements of a block with one more unit of the budget. -/
theorem executeBlock_step (holds : law.Holds budget) (statements : List (Stmt ν)) :
    law.defines (executeBlock (budget + 1) statements) := by
  cases statements with
  | nil => exact law.allow (law.give _)
  | cons first rest =>
    unfold Running.executeBlock
    refine law.further (holds.execute first) fun outcome => ?_
    cases outcome with
    | completed => exact holds.executeBlock rest
    | returning value => exact law.allow (law.give _)

/-- The law holds of cases with one more unit of the budget. -/
theorem executeCases_step (holds : law.Holds budget) (subject : Value) (cases : List (Case ν)) :
    law.defines (executeCases (budget + 1) subject cases) := by
  rcases cases with _ | ⟨⟨_ | label, body⟩, rest⟩
  · exact law.allow (law.give _)
  · unfold Running.executeCases
    exact law.further (law.allow (law.told (by decide) fun _ => rfl))
      fun _ => holds.executeBlock body
  · unfold Running.executeCases
    refine law.further (law.allow (holds.evaluate label)) fun label => ?_
    refine law.further (law.allow law.store) fun store => ?_
    split
    · exact law.further (law.allow (law.told (by decide) fun _ => rfl))
        fun _ => holds.executeBlock body
    · exact holds.executeCases subject rest

/-- The law holds of loops with one more unit of the budget. -/
theorem repeatWhile_step (holds : law.Holds budget) (condition : Expr ν)
    (body : List (Stmt ν)) : law.keeps (repeatWhile (budget + 1) condition body) := by
  unfold Running.repeatWhile
  refine law.andThen (holds.evaluate condition) fun value => ?_
  refine law.andThen (law.outcome (requireBoolean_orderly _ _)) fun truth => ?_
  split
  · refine law.andThen (law.block (holds.executeBlock body)) fun outcome => ?_
    cases outcome with
    | completed => exact holds.repeatWhile condition body
    | returning value => exact law.give _
  · exact law.give _

/-- A law holds of every part of a run. -/
theorem holds (law : Law ν) (budget : Nat) : law.Holds budget := by
  induction budget with
  | zero =>
    have stopped {β : Type} : law.keeps (Running.exhausted : Run ν β) := law.exhausted
    have allowed {β : Type} : law.defines (Running.exhausted : Run ν β) := law.allow stopped
    exact ⟨fun _ => stopped, fun _ _ _ => stopped, fun _ => stopped, fun _ _ _ => stopped,
      fun _ => stopped, fun _ _ => stopped, fun _ => allowed, fun _ => allowed,
      fun _ _ => allowed, fun _ _ => stopped⟩
  | succ budget earlier =>
    exact ⟨evaluate_step earlier, evaluateLogical_step earlier, evaluateAll_step earlier,
      invoke_step earlier, evaluateOptional_step earlier, statement_step earlier,
      execute_step earlier, executeBlock_step earlier, executeCases_step earlier,
      repeatWhile_step earlier⟩

end Running.Law

end Blockscript
