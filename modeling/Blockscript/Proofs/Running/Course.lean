import Blockscript.Proofs.Running.Assignment
import Blockscript.Proofs.Running.Discipline
import Blockscript.Proofs.Scopes.Sound

/-!
# The course of a run

A run consists of parts inside of parts: expressions, calls, statements, blocks, each of
which begins in some state with some budget. What begins where is told by relations, beside
the definitions that run: a part leads to a part right inside of it when everything that
comes before that one has ended with a value. A run comes to the initial values of the
globals one after the other, then to the call of `main`, and to whatever the parts that it
comes to lead to.

The scopes only change where a part begins or ends. So what is kept by every part holds in
all states on the course of a run, whether it ends or not; and where a part stops, so do all
the parts around it and with them the run, which leaves the lists and the root as they are.
-/

namespace Blockscript.Running

open Environment (Gains)

variable {ν : Notes} {α β : Type}

/-! ## Parts -/

/-- What a run can be at work on. -/
inductive Part (ν : Notes) where
  | expression (tree : Expr ν)
  | logical (operator : Operator) (left : Value) (right : Expr ν)
  | expressions (trees : List (Expr ν))
  | optional (value : Option (Expr ν))
  | call (routine : Routine (Body ν)) (arguments : List Value)
  | parameters (names : List String) (values : List Value)
  | statement (tree : Stmt ν)
  | block (statements : List (Stmt ν))
  | enclosed (statements : List (Stmt ν))
  | cases (subject : Value) (choices : List (Case ν))
  | loop (condition : Expr ν) (body : List (Stmt ν))

/-- What a part gives. -/
def Part.Result : Part ν → Type
  | expression _ | logical _ _ _ | optional _ | call _ _ => Value
  | expressions _ => List Value
  | parameters _ _ => Unit
  | statement _ | block _ | enclosed _ | cases _ _ | loop _ _ => Outcome

/-- Runs a part. -/
def Part.run (budget : Nat) : (part : Part ν) → Run ν part.Result
  | expression tree => evaluate budget tree
  | logical operator left right => evaluateLogical budget operator left right
  | expressions trees => evaluateAll budget trees
  | optional value => evaluateOptional budget value
  | call routine arguments => invoke budget routine arguments
  | parameters names values => defineParameters names values
  | statement tree => execute budget tree
  | block statements => executeBlock budget statements
  | enclosed statements => Run.inScope none (executeBlock budget statements)
  | cases subject choices => executeCases budget subject choices
  | loop condition body => repeatWhile budget condition body

/-- A part that begins in a state, with a budget. -/
structure Beginning (ν : Notes) where
  part : Part ν
  budget : Nat
  machine : Machine ν

/-- How the part ends. -/
def Beginning.ending (begun : Beginning ν) : Except Stop begun.part.Result × Machine ν :=
  (begun.part.run begun.budget).run begun.machine

/-- The state in a new scope. -/
def Machine.entered (machine : Machine ν) (parent : Option Nat) : Machine ν :=
  { machine with environment := machine.environment.openScope parent }

/-- A part leads to another one right inside of it, behind those that come before it. -/
inductive Leads : Beginning ν → Beginning ν → Prop where
  | group {type : ν.type} {inner : Expr ν} {budget : Nat} {machine : Machine ν} :
      Leads ⟨.expression (.group type inner), budget + 1, machine⟩
        ⟨.expression inner, budget, machine⟩
  | left {type : ν.type} {text : String} {left right : Expr ν} {budget : Nat}
      {machine : Machine ν} :
      Leads ⟨.expression (.binary type text left right), budget + 1, machine⟩
        ⟨.expression left, budget, machine⟩
  | logical {type : ν.type} {text : String} {operator : Operator} {left right : Expr ν}
      {value : Value} {budget : Nat} {machine middle : Machine ν}
      (given : (evaluate budget left).run machine = (.ok value, middle))
      (named : Operator.ofText? text = some operator)
      (logical : operator = .and ∨ operator = .or) :
      Leads ⟨.expression (.binary type text left right), budget + 1, machine⟩
        ⟨.logical operator value right, budget, middle⟩
  | right {type : ν.type} {text : String} {left right : Expr ν} {value : Value} {budget : Nat}
      {machine middle : Machine ν}
      (given : (evaluate budget left).run machine = (.ok value, middle))
      (noAnd : Operator.ofText? text ≠ some .and) (noOr : Operator.ofText? text ≠ some .or) :
      Leads ⟨.expression (.binary type text left right), budget + 1, machine⟩
        ⟨.expression right, budget, middle⟩
  | offset {type : ν.type} {entry : ν.entry} {name : String} {offset : Expr ν}
      {found : Nat × Variable Value} {budget : Nat} {machine : Machine ν}
      (meant : machine.environment.lookupVariable name = .ok found) :
      Leads ⟨.expression (.element type entry name offset), budget + 1, machine⟩
        ⟨.expression offset, budget, machine⟩
  | arguments {type : ν.type} {note : ν.routine} {name : String} {arguments : List (Expr ν)}
      {routine : Routine (Body ν)} {budget : Nat} {machine : Machine ν}
      (meant : machine.environment.lookupFunction name arguments.length = .ok routine) :
      Leads ⟨.expression (.call type note name arguments), budget + 1, machine⟩
        ⟨.expressions arguments, budget, machine⟩
  | called {type : ν.type} {note : ν.routine} {name : String} {arguments : List (Expr ν)}
      {routine : Routine (Body ν)} {values : List Value} {budget : Nat}
      {machine middle : Machine ν}
      (meant : machine.environment.lookupFunction name arguments.length = .ok routine)
      (given : (evaluateAll budget arguments).run machine = (.ok values, middle)) :
      Leads ⟨.expression (.call type note name arguments), budget + 1, machine⟩
        ⟨.call routine values, budget, middle⟩
  | elements {type : ν.type} {elements : List (Expr ν)} {budget : Nat} {machine : Machine ν} :
      Leads ⟨.expression (.list type elements), budget + 1, machine⟩
        ⟨.expressions elements, budget, machine⟩
  | unsettled {operator : Operator} {truth : Bool} {right : Expr ν} {budget : Nat}
      {machine : Machine ν} (unsettled : settles operator truth = false) :
      Leads ⟨.logical operator (.boolean truth) right, budget + 1, machine⟩
        ⟨.expression right, budget, machine⟩
  | firstExpression {first : Expr ν} {rest : List (Expr ν)} {budget : Nat}
      {machine : Machine ν} :
      Leads ⟨.expressions (first :: rest), budget + 1, machine⟩
        ⟨.expression first, budget, machine⟩
  | restExpressions {first : Expr ν} {rest : List (Expr ν)} {value : Value} {budget : Nat}
      {machine middle : Machine ν}
      (given : (evaluate budget first).run machine = (.ok value, middle)) :
      Leads ⟨.expressions (first :: rest), budget + 1, machine⟩
        ⟨.expressions rest, budget, middle⟩
  | optional {value : Expr ν} {budget : Nat} {machine : Machine ν} :
      Leads ⟨.optional (some value), budget + 1, machine⟩ ⟨.expression value, budget, machine⟩
  | parameters {routine : Routine (Body ν)} {definition : FunctionDef ν} {scope : Nat}
      {arguments : List Value} {budget : Nat} {machine middle : Machine ν}
      (implemented : routine.implementation = some (.script definition scope))
      (traced : (Run.trace 3 fun store =>
        (arguments.mapM (Value.text? store)).map (.call definition.name)).run machine =
          (.ok (), middle)) :
      Leads ⟨.call routine arguments, budget + 1, machine⟩
        ⟨.parameters definition.parameters arguments, budget, middle.entered (some scope)⟩
  | body {routine : Routine (Body ν)} {definition : FunctionDef ν} {scope : Nat}
      {arguments : List Value} {budget : Nat} {machine middle inside : Machine ν}
      (implemented : routine.implementation = some (.script definition scope))
      (traced : (Run.trace 3 fun store =>
        (arguments.mapM (Value.text? store)).map (.call definition.name)).run machine =
          (.ok (), middle))
      (defined : (defineParameters definition.parameters arguments).run
        (middle.entered (some scope)) = (.ok (), inside)) :
      Leads ⟨.call routine arguments, budget + 1, machine⟩
        ⟨.block definition.body, budget, inside⟩
  | parameter {name : String} {names : List String} {value : Value} {values : List Value}
      {environment : Environment Value (Body ν)} {budget : Nat} {machine : Machine ν}
      (defined : machine.environment.defineVariable ⟨name, .any, true, value⟩ =
        .ok environment) :
      Leads ⟨.parameters (name :: names) (value :: values), budget, machine⟩
        ⟨.parameters names values, budget, { machine with environment := environment }⟩
  | inner {inner : Expr ν} {budget : Nat} {machine : Machine ν} :
      Leads ⟨.statement (.expression inner), budget + 1, machine⟩
        ⟨.expression inner, budget, machine⟩
  | declared {entry : ν.entry} {name : String} {typeName : Option String}
      {value : Option (Expr ν)} {budget : Nat} {machine : Machine ν} :
      Leads ⟨.statement (.declaration entry name typeName value), budget + 1, machine⟩
        ⟨.optional value, budget, machine⟩
  | assigned {receiver value : Expr ν} {budget : Nat} {machine : Machine ν} :
      Leads ⟨.statement (.assignment receiver value), budget + 1, machine⟩
        ⟨.expression value, budget, machine⟩
  | position {type : ν.type} {entry : ν.entry} {name : String} {offset value : Expr ν}
      {result : Value} {found : Variable Value} {handle : Nat} {budget : Nat}
      {machine valued : Machine ν}
      (given : (evaluate budget value).run machine = (.ok result, valued))
      (allowed : (mutableOf name).run valued = (.ok found, valued))
      (listed : found.value = .list handle) :
      Leads ⟨.statement (.assignment (.element type entry name offset) value), budget + 1,
          machine⟩
        ⟨.expression offset, budget, valued⟩
  | condition {condition : Expr ν} {thenBlock elseBlock : List (Stmt ν)} {budget : Nat}
      {machine : Machine ν} :
      Leads ⟨.statement (.conditional condition thenBlock elseBlock), budget + 1, machine⟩
        ⟨.expression condition, budget, machine⟩
  | branch {condition : Expr ν} {thenBlock elseBlock : List (Stmt ν)} {truth : Bool}
      {budget : Nat} {machine decided middle : Machine ν}
      (given : (evaluate budget condition).run machine = (.ok (.boolean truth), decided))
      (traced : (Run.trace 3 fun _ => some (.condition truth)).run decided = (.ok (), middle)) :
      Leads ⟨.statement (.conditional condition thenBlock elseBlock), budget + 1, machine⟩
        ⟨.enclosed (if truth then thenBlock else elseBlock), budget, middle⟩
  | subject {subject : Expr ν} {cases : List (Case ν)} {budget : Nat} {machine : Machine ν} :
      Leads ⟨.statement (.switch subject cases), budget + 1, machine⟩
        ⟨.expression subject, budget, machine.entered none⟩
  | cases {subject : Expr ν} {cases : List (Case ν)} {value : Value} {budget : Nat}
      {machine middle : Machine ν}
      (given : (evaluate budget subject).run (machine.entered none) = (.ok value, middle)) :
      Leads ⟨.statement (.switch subject cases), budget + 1, machine⟩
        ⟨.cases value cases, budget, middle⟩
  | loop {condition : Expr ν} {body : List (Stmt ν)} {budget : Nat} {machine : Machine ν} :
      Leads ⟨.statement (.loop condition body), budget + 1, machine⟩
        ⟨.loop condition body, budget, machine⟩
  | returned {value : Expr ν} {budget : Nat} {machine : Machine ν} :
      Leads ⟨.statement (.returning value), budget + 1, machine⟩
        ⟨.expression value, budget, machine⟩
  | firstStatement {first : Stmt ν} {rest : List (Stmt ν)} {budget : Nat}
      {machine : Machine ν} :
      Leads ⟨.block (first :: rest), budget + 1, machine⟩ ⟨.statement first, budget, machine⟩
  | restStatements {first : Stmt ν} {rest : List (Stmt ν)} {budget : Nat}
      {machine middle : Machine ν}
      (given : (execute budget first).run machine = (.ok .completed, middle)) :
      Leads ⟨.block (first :: rest), budget + 1, machine⟩ ⟨.block rest, budget, middle⟩
  | enclosed {statements : List (Stmt ν)} {budget : Nat} {machine : Machine ν} :
      Leads ⟨.enclosed statements, budget, machine⟩
        ⟨.block statements, budget, machine.entered none⟩
  | default {subject : Value} {body : List (Stmt ν)} {rest : List (Case ν)} {budget : Nat}
      {machine middle : Machine ν}
      (traced : (Run.trace 3 fun store => (subject.text? store).map (.choice · true)).run machine =
        (.ok (), middle)) :
      Leads ⟨.cases subject (.mk none body :: rest), budget + 1, machine⟩
        ⟨.block body, budget, middle⟩
  | label {subject : Value} {label : Expr ν} {body : List (Stmt ν)} {rest : List (Case ν)}
      {budget : Nat} {machine : Machine ν} :
      Leads ⟨.cases subject (.mk (some label) body :: rest), budget + 1, machine⟩
        ⟨.expression label, budget, machine⟩
  | chosen {subject value : Value} {label : Expr ν} {body : List (Stmt ν)}
      {rest : List (Case ν)} {budget : Nat} {machine labelled middle : Machine ν}
      (given : (evaluate budget label).run machine = (.ok value, labelled))
      (equal : subject.isEqual labelled.store value = true)
      (traced : (Run.trace 3 fun store => (subject.text? store).map (.choice · false)).run
        labelled = (.ok (), middle)) :
      Leads ⟨.cases subject (.mk (some label) body :: rest), budget + 1, machine⟩
        ⟨.block body, budget, middle⟩
  | otherwise {subject value : Value} {label : Expr ν} {body : List (Stmt ν)}
      {rest : List (Case ν)} {budget : Nat} {machine labelled : Machine ν}
      (given : (evaluate budget label).run machine = (.ok value, labelled))
      (unequal : subject.isEqual labelled.store value = false) :
      Leads ⟨.cases subject (.mk (some label) body :: rest), budget + 1, machine⟩
        ⟨.cases subject rest, budget, labelled⟩
  | test {condition : Expr ν} {body : List (Stmt ν)} {budget : Nat} {machine : Machine ν} :
      Leads ⟨.loop condition body, budget + 1, machine⟩ ⟨.expression condition, budget, machine⟩
  | turn {condition : Expr ν} {body : List (Stmt ν)} {budget : Nat}
      {machine middle : Machine ν}
      (given : (evaluate budget condition).run machine = (.ok (.boolean true), middle)) :
      Leads ⟨.loop condition body, budget + 1, machine⟩ ⟨.enclosed body, budget, middle⟩
  | again {condition : Expr ν} {body : List (Stmt ν)} {budget : Nat}
      {machine middle turned : Machine ν}
      (given : (evaluate budget condition).run machine = (.ok (.boolean true), middle))
      (completed : (Run.inScope none (executeBlock budget body)).run middle =
        (.ok .completed, turned)) :
      Leads ⟨.loop condition body, budget + 1, machine⟩
        ⟨.loop condition body, budget, turned⟩

/-! ## What is kept -/

/-- What is said of states is kept when it depends on the scopes alone, a new scope does not
matter to it, and every part takes it from where it begins to where it ends. -/
structure Kept (holds : Machine ν → Prop) : Prop where
  still : ∀ {machine after : Machine ν}, holds machine →
    after.environment = machine.environment → holds after
  entered : ∀ {machine : Machine ν} (parent : Option Nat), holds machine →
    holds (machine.entered parent)
  ends : ∀ {begun : Beginning ν}, holds begun.machine → holds begun.ending.2

/-- A trace that is written leaves the scopes alone. -/
theorem traced_environment {detail : Nat} {message : Store → Option Message}
    {machine after : Machine ν}
    (traced : (Run.trace detail message).run machine = (.ok (), after)) :
    after.environment = machine.environment := by
  have meets : Meets (Run.trace detail message) machine
      (fun _ after => after.environment = machine.environment) fun _ _ => True :=
    meets_trace (fun _ same _ => same) trivial
  exact meets.ok traced

section Kept

variable {holds : Machine ν → Prop} {budget : Nat} {machine middle : Machine ν}

/-- A trace that is written keeps what is kept. -/
theorem Kept.traced (kept : Kept holds) {detail : Nat} {message : Store → Option Message}
    (before : holds machine)
    (traced : (Run.trace detail message).run machine = (.ok (), middle)) : holds middle :=
  kept.still before (traced_environment traced)

/-- A part keeps what is kept, however it ends. -/
theorem Kept.behind (kept : Kept holds) (budget : Nat) (part : Part ν)
    {result : Except Stop part.Result} (before : holds machine)
    (given : (part.run budget).run machine = (result, middle)) :
    holds middle := by
  have after := @kept.ends ⟨part, budget, machine⟩ before
  rw [Beginning.ending, given] at after
  exact after

/-- The definition of parameters keeps what is kept. -/
theorem Kept.parameters (kept : Kept holds) {names : List String} {values : List Value}
    {result : Except Stop Unit} (before : holds machine)
    (given : (defineParameters names values).run machine = (result, middle)) : holds middle :=
  kept.behind 0 (.parameters names values) before given

/-- The evaluation of an expression keeps what is kept. -/
theorem Kept.expression (kept : Kept holds) {tree : Expr ν} {result : Except Stop Value}
    (before : holds machine) (given : (evaluate budget tree).run machine = (result, middle)) :
    holds middle :=
  kept.behind budget (.expression tree) before given

/-- What is kept holds where a part leads to, if it holds where that begins. -/
theorem Leads.kept {outer inner : Beginning ν} (leads : Leads outer inner) (kept : Kept holds)
    (before : holds outer.machine) : holds inner.machine := by
  cases leads with
  | group | left | offset | arguments | elements | unsettled | firstExpression | optional
  | inner | declared | assigned | condition | loop | returned | firstStatement | label | test =>
    exact before
  | logical given | right given => exact kept.expression before given
  | called _ given => exact kept.behind _ (.expressions _) before given
  | restExpressions given => exact kept.expression before given
  | parameters _ traced => exact kept.entered _ (kept.traced before traced)
  | body _ traced defined =>
    exact kept.parameters (kept.entered _ (kept.traced before traced)) defined
  | @parameter name _ value _ environment _ machine defined =>
    have single : (defineParameters [name] [value]).run machine =
        (.ok (), { machine with environment := environment }) := by
      rw [defineParameters, run_bind, run_change, defined]
      rfl
    exact kept.parameters before single
  | position given => exact kept.expression before given
  | branch given traced =>
    exact kept.traced (kept.expression before given) traced
  | subject => exact kept.entered none before
  | cases given => exact kept.expression (kept.entered none before) given
  | restStatements given => exact kept.behind _ (.statement _) before given
  | enclosed => exact kept.entered none before
  | default traced => exact kept.traced before traced
  | chosen given _ traced =>
    exact kept.traced (kept.expression before given) traced
  | otherwise given => exact kept.expression before given
  | turn given => exact kept.expression before given
  | again given completed =>
    exact kept.behind _ (.enclosed _) (kept.expression before given) completed

end Kept

/-! ## Stops -/

section Stops

variable {machine middle after : Machine ν} {stop : Stop} {budget : Nat}

/-- The lists and the root are the same. -/
structure SameRoot (before after : Machine ν) : Prop where
  store : after.store = before.store
  root : after.environment.scopes[0]? = before.environment.scopes[0]?

/-- A state has its own lists and its own root. -/
theorem SameRoot.refl (machine : Machine ν) : SameRoot machine machine :=
  ⟨rfl, rfl⟩

/-- Started in the state, the action stops, and leaves the lists and the root of another
state. -/
def StopsAt (action : Run ν β) (machine : Machine ν) (stop : Stop) (after : Machine ν) : Prop :=
  ∃ final, action.run machine = (.error stop, final) ∧ SameRoot after final

/-- Two actions in order stop where the first one does. -/
theorem StopsAt.first {action : Run ν α} {next : α → Run ν β}
    (stops : StopsAt action machine stop after) : StopsAt (action >>= next) machine stop after := by
  obtain ⟨final, stopped, same⟩ := stops
  exact ⟨final, by rw [run_bind, stopped], same⟩

/-- Two actions in order stop where the second one does, behind the first one. -/
theorem StopsAt.behind {action : Run ν α} {next : α → Run ν β} {value : α}
    (given : action.run machine = (.ok value, middle))
    (stops : StopsAt (next value) middle stop after) :
    StopsAt (action >>= next) machine stop after := by
  obtain ⟨final, stopped, same⟩ := stops
  exact ⟨final, by rw [run_bind, given]; exact stopped, same⟩

/-- An action stops in the same way when its value is not needed. -/
theorem stopsAt_discard {action : Run ν β} :
    StopsAt (discard action : Run ν Unit) machine stop after ↔
      StopsAt action machine stop after := by
  have ends (final : Machine ν) :
      (discard action : Run ν Unit).run machine = (.error stop, final) ↔
        action.run machine = (.error stop, final) := by
    rw [discard_eq, run_bind]
    cases action.run machine with
    | mk result last =>
      cases result with
      | ok value =>
        constructor
        · rintro ⟨⟩
        · rintro ⟨⟩
      | error met =>
        constructor
        · rintro ⟨⟩
          rfl
        · rintro ⟨⟩
          rfl
  simp only [StopsAt, ends]

/-- A scope is closed behind a stop. -/
theorem StopsAt.inScope {body : Run ν β} {allowed : List (Variable Unit) → Prop}
    {parent : Option Nat} (stops : StopsAt body (machine.entered parent) stop after)
    (confined : Confined allowed body) (occupied : 0 < machine.environment.scopes.size) :
    StopsAt (Run.inScope parent body) machine stop after := by
  obtain ⟨final, stopped, same⟩ := stops
  have opened : 0 < (machine.entered parent).environment.scopes.size := by
    simp [Machine.entered, Environment.openScope]
  obtain ⟨-, gained, -, gains⟩ := (confined _ opened).error stopped
  obtain ⟨environment, closed, -⟩ := Gains.close occupied gains
  refine ⟨{ final with environment := environment }, ?_, same.store, ?_⟩
  · have ended : body { machine with environment := machine.environment.openScope parent } =
        (.error stop, final) := stopped
    simp only [Run.inScope, ExceptT.run_mk, ended, closed]
  · obtain ⟨-, rfl⟩ := Environment.closeScope_ok_iff.mp closed
    have size := gains.size
    simp only [Machine.entered, Environment.openScope, Array.size_push] at size
    rw [Array.getElem?_pop, if_pos (by omega)]
    exact same.root

/-- To look at the lists gives them, and leaves the state. -/
theorem run_store_ok (machine : Machine ν) :
    (Run.store : Run ν Store).run machine = (.ok machine.store, machine) :=
  rfl

/-- An action goes the same way when its value is not needed. -/
theorem run_discard_ok {action : Run ν β} {value : β}
    (given : action.run machine = (.ok value, middle)) :
    (discard action : Run ν Unit).run machine = (.ok (), middle) := by
  rw [discard_eq, run_bind, given]
  rfl

/-- A call stops where its parameters or its body stop, in the scope of the call. -/
theorem stopsAt_invoke {routine : Routine (Body ν)} {definition : FunctionDef ν} {scope : Nat}
    {arguments : List Value}
    (stops : StopsAt (do
        defineParameters definition.parameters arguments
        executeBlock budget definition.body) (middle.entered (some scope)) stop after)
    (implemented : routine.implementation = some (.script definition scope))
    (traced : (Run.trace 3 fun store =>
      (arguments.mapM (Value.text? store)).map (.call definition.name)).run machine =
        (.ok (), middle))
    (occupied : 0 < machine.environment.scopes.size) :
    StopsAt (invoke (budget + 1) routine arguments) machine stop after := by
  unfold invoke Routine.required
  rw [implemented]
  refine StopsAt.behind traced (StopsAt.first ?_)
  refine stops.inScope (discipline.further (discipline.defineParameters _ _) fun _ =>
    (discipline.holds budget).executeBlock _) ?_
  rw [traced_environment traced]
  exact occupied

/-- A switch stops where its subject or its cases stop, in the scope of the switch. -/
theorem stopsAt_switch {subject : Expr ν} {cases : List (Case ν)}
    (stops : StopsAt (do executeCases budget (← evaluate budget subject) cases)
      (machine.entered none) stop after)
    (occupied : 0 < machine.environment.scopes.size) :
    StopsAt (execute (budget + 1) (.switch subject cases)) machine stop after := by
  unfold execute
  have confined : (discipline : Law ν).Holds budget := discipline.holds budget
  exact stops.inScope (discipline.further (discipline.allow (confined.evaluate _)) fun _ =>
    confined.executeCases _ _) occupied

/-- A loop stops where a turn of it stops, or what comes behind that. -/
theorem stopsAt_repeatWhile {condition : Expr ν} {body : List (Stmt ν)}
    (given : (evaluate budget condition).run machine = (.ok (.boolean true), middle))
    (stops : StopsAt (do
        match ← Run.inScope none (executeBlock budget body) with
        | .returning value => return .returning value
        | .completed => repeatWhile budget condition body) middle stop after) :
    StopsAt (repeatWhile (budget + 1) condition body) machine stop after := by
  unfold repeatWhile
  refine StopsAt.behind given ?_
  refine StopsAt.behind (run_outcome_ok.mpr ⟨rfl, rfl⟩) ?_
  exact stops

/-- Where a part stops that another one leads to, the other one stops. -/
theorem Leads.stops {whole part : Beginning ν} (leads : Leads whole part)
    (occupied : 0 < whole.machine.environment.scopes.size)
    (stops : StopsAt (part.part.run part.budget) part.machine stop after) :
    StopsAt (whole.part.run whole.budget) whole.machine stop after := by
  cases leads with
  | group | optional | loop => exact stops
  | left | elements | firstExpression | declared | condition | returned | firstStatement
  | label | test =>
    exact StopsAt.first stops
  | inner => exact StopsAt.first (stopsAt_discard.mpr stops)
  | @assigned receiver =>
    cases receiver with
    | access | element => exact StopsAt.first stops
    | _ => exact StopsAt.first (stopsAt_discard.mpr stops)
  | logical given named logical =>
    refine StopsAt.behind given ?_
    rw [named]
    rcases logical with rfl | rfl
    · exact stops
    · exact stops
  | right given noAnd noOr =>
    refine StopsAt.behind given ?_
    split
    · next named => exact absurd named noAnd
    · next named => exact absurd named noOr
    · exact StopsAt.first stops
  | @offset _ _ _ _ found _ _ meant =>
    refine StopsAt.behind (run_discard_ok (run_variableOf_ok.mpr ⟨⟨found.1, meant⟩, rfl⟩)) ?_
    exact StopsAt.first stops
  | arguments meant =>
    refine StopsAt.behind (run_lookup_ok.mpr ⟨meant, rfl⟩) ?_
    exact StopsAt.first stops
  | called meant given =>
    refine StopsAt.behind (run_lookup_ok.mpr ⟨meant, rfl⟩) ?_
    refine StopsAt.behind given ?_
    exact stops
  | unsettled unsettled =>
    refine StopsAt.behind (run_outcome_ok.mpr ⟨rfl, rfl⟩) ?_
    rw [unsettled]
    exact StopsAt.first stops
  | restExpressions given =>
    refine StopsAt.behind given ?_
    exact StopsAt.first stops
  | parameters implemented traced =>
    exact stopsAt_invoke (StopsAt.first stops) implemented traced occupied
  | body implemented traced defined =>
    refine stopsAt_invoke ?_ implemented traced occupied
    exact StopsAt.behind defined stops
  | @parameter name _ value _ environment _ machine defined =>
    have given : (Run.change (·.defineVariable ⟨name, .any, true, value⟩)).run machine =
        (.ok (), { machine with environment := environment }) :=
      run_change_ok.mpr ⟨environment, defined, rfl⟩
    exact StopsAt.behind given stops
  | position given allowed listed =>
    refine StopsAt.behind given ?_
    refine StopsAt.behind allowed ?_
    rw [listed]
    refine StopsAt.behind (run_outcome_ok.mpr ⟨rfl, rfl⟩) ?_
    exact StopsAt.first stops
  | branch given traced =>
    refine StopsAt.behind given ?_
    refine StopsAt.behind (run_outcome_ok.mpr ⟨rfl, rfl⟩) ?_
    exact StopsAt.behind traced stops
  | subject => exact stopsAt_switch (StopsAt.first stops) occupied
  | cases given =>
    refine stopsAt_switch ?_ occupied
    exact StopsAt.behind given stops
  | restStatements given => exact StopsAt.behind given stops
  | enclosed => exact StopsAt.inScope stops ((discipline.holds _).executeBlock _) occupied
  | default traced => exact StopsAt.behind traced stops
  | @chosen _ _ _ _ _ _ _ labelled _ given equal traced =>
    refine StopsAt.behind given ?_
    refine StopsAt.behind (run_store_ok labelled) ?_
    rw [if_pos equal]
    exact StopsAt.behind traced stops
  | @otherwise _ _ _ _ _ _ _ labelled given unequal =>
    refine StopsAt.behind given ?_
    refine StopsAt.behind (run_store_ok labelled) ?_
    rw [if_neg (by rw [unequal]; exact Bool.false_ne_true)]
    exact stops
  | turn given => exact stopsAt_repeatWhile given (StopsAt.first stops)
  | again given completed =>
    refine stopsAt_repeatWhile given ?_
    exact StopsAt.behind completed stops

end Stops

/-! ## Programs -/

section Programs

variable {budget detail : Nat} {program : Program ν}

/-- The run of a program comes to a part, behind the given globals. -/
inductive Comes (budget detail : Nat) (program : Program ν) :
    List (GlobalDef ν) → Beginning ν → Prop where
  | global {earlier later : List (GlobalDef ν)} {definition : GlobalDef ν} {machine : Machine ν}
      (order : program.globals = earlier ++ definition :: later)
      (evaluated : (executeGlobals budget earlier).run (Machine.initial detail) =
        (.ok (), machine)) :
      Comes budget detail program earlier ⟨.optional definition.value, budget, machine⟩
  | main {routine : Routine (Body ν)} {evaluated defined : Machine ν}
      (globals : (executeGlobals budget program.globals).run (Machine.initial detail) =
        (.ok (), evaluated))
      (functions : (defineFunctions program.functions).run evaluated = (.ok (), defined))
      (meant : defined.environment.lookupFunction "main" 0 = .ok routine) :
      Comes budget detail program program.globals ⟨.call routine [], budget, defined⟩
  | inside {globals : List (GlobalDef ν)} {whole part : Beginning ν}
      (comes : Comes budget detail program globals whole) (leads : Leads whole part) :
      Comes budget detail program globals part

/-- The states that the run of a program goes through, behind the given globals: those
between the globals and between the definitions of the functions, those where a global is
defined but not yet traced, and those where the parts that it comes to begin and end. In
between no scope changes. -/
inductive Reached (budget detail : Nat) (program : Program ν) :
    List (GlobalDef ν) → Machine ν → Prop where
  | global {earlier later : List (GlobalDef ν)} {machine : Machine ν}
      (order : program.globals = earlier ++ later)
      (evaluated : (executeGlobals budget earlier).run (Machine.initial detail) =
        (.ok (), machine)) :
      Reached budget detail program earlier machine
  | untold {earlier later : List (GlobalDef ν)} {definition : GlobalDef ν} {value : Value}
      {machine defined : Machine ν} (order : program.globals = earlier ++ definition :: later)
      (evaluated : (executeGlobals budget earlier).run (Machine.initial detail) =
        (.ok (), machine))
      (made : (defineValue budget definition.name definition.mutable definition.value).run
        machine = (.ok value, defined)) :
      Reached budget detail program (earlier ++ [definition]) defined
  | function {earlier later : List (FunctionDef ν)} {evaluated machine : Machine ν}
      (order : program.functions = earlier ++ later)
      (globals : (executeGlobals budget program.globals).run (Machine.initial detail) =
        (.ok (), evaluated))
      (defined : (defineFunctions earlier).run evaluated = (.ok (), machine)) :
      Reached budget detail program program.globals machine
  | begins {globals : List (GlobalDef ν)} {begun : Beginning ν}
      (comes : Comes budget detail program globals begun) :
      Reached budget detail program globals begun.machine
  | ends {globals : List (GlobalDef ν)} {begun : Beginning ν}
      (comes : Comes budget detail program globals begun) :
      Reached budget detail program globals begun.ending.2

/-- What is said of states and of the globals behind them is carried through a program when
every part keeps it, the globals bring it about and the definitions of functions keep it. -/
structure Carried (budget detail : Nat) (holds : List (GlobalDef ν) → Machine ν → Prop) :
    Prop where
  kept : ∀ globals, Kept (holds globals)
  globals : ∀ {globals : List (GlobalDef ν)} {machine : Machine ν},
    (executeGlobals budget globals).run (Machine.initial detail) = (.ok (), machine) →
      holds globals machine
  untold : ∀ {globals : List (GlobalDef ν)} {definition : GlobalDef ν} {value : Value}
    {machine defined : Machine ν},
    (executeGlobals budget globals).run (Machine.initial detail) = (.ok (), machine) →
      (defineValue budget definition.name definition.mutable definition.value).run machine =
        (.ok value, defined) → holds (globals ++ [definition]) defined
  functions : ∀ {globals : List (GlobalDef ν)} {definitions : List (FunctionDef ν)}
    {machine after : Machine ν}, holds globals machine →
      (defineFunctions definitions).run machine = (.ok (), after) → holds globals after

variable {holds : List (GlobalDef ν) → Machine ν → Prop} {globals : List (GlobalDef ν)}

/-- What is carried through a program holds where each part begins that it comes to. -/
theorem Comes.carried {begun : Beginning ν} (comes : Comes budget detail program globals begun)
    (carried : Carried budget detail holds) : holds globals begun.machine := by
  induction comes with
  | global order evaluated => exact carried.globals evaluated
  | main evaluated defined meant => exact carried.functions (carried.globals evaluated) defined
  | inside comes leads before => exact leads.kept (carried.kept _) before

/-- What is carried through a program holds in all states that its run goes through. -/
theorem Reached.carried {machine : Machine ν}
    (reached : Reached budget detail program globals machine)
    (carried : Carried budget detail holds) : holds globals machine := by
  cases reached with
  | global order evaluated => exact carried.globals evaluated
  | untold order evaluated made => exact carried.untold evaluated made
  | function order evaluated defined =>
    exact carried.functions (carried.globals evaluated) defined
  | begins comes => exact comes.carried carried
  | ends comes => exact (carried.kept globals).ends (comes.carried carried)

/-! ### Where a run ends -/

/-- Globals are executed one after another. -/
theorem executeGlobals_append (earlier later : List (GlobalDef ν)) :
    executeGlobals budget (earlier ++ later) =
      executeGlobals budget earlier >>= fun _ => executeGlobals budget later := by
  induction earlier with
  | nil => rfl
  | cons first rest inductionHypothesis =>
    simp only [List.cons_append, executeGlobals, inductionHypothesis, bind_assoc]

/-- Functions are defined one after another. -/
theorem defineFunctions_append (earlier later : List (FunctionDef ν)) :
    defineFunctions (earlier ++ later) =
      defineFunctions earlier >>= fun _ => defineFunctions later := by
  induction earlier with
  | nil => rfl
  | cons first rest inductionHypothesis =>
    simp only [List.cons_append, defineFunctions, inductionHypothesis, bind_assoc]

variable {machine after : Machine ν} {stop : Stop}

/-- A global is defined, and then traced. -/
theorem executeGlobal_eq (budget : Nat) (definition : GlobalDef ν) :
    executeGlobal budget definition =
      defineValue budget definition.name definition.mutable definition.value >>= fun value =>
        Run.trace 2 fun store => (value.text? store).map (.global definition.name) := by
  simp only [executeGlobal, defineValue, bind_assoc, pure_bind]

/-- A global at which a run stops leaves the state as its initial value leaves it, or it has
been defined and cannot be traced. -/
theorem executeGlobal_stops {definition : GlobalDef ν}
    (stopped : (executeGlobal budget definition).run machine = (.error stop, after)) :
    ((evaluateOptional budget definition.value).run machine).2 = after ∨
      ∃ value, (defineValue budget definition.name definition.mutable definition.value).run
        machine = (.ok value, after) := by
  rw [executeGlobal_eq, run_bind] at stopped
  cases made : (defineValue budget definition.name definition.mutable definition.value).run
      machine with
  | mk result middle =>
    rw [made] at stopped
    cases result with
    | ok value =>
      obtain ⟨-, rfl⟩ := trace_stops stopped
      exact .inr ⟨value, rfl⟩
    | error met =>
      left
      cases stopped
      rw [defineValue, run_bind] at made
      cases ending : (evaluateOptional budget definition.value).run machine with
      | mk result valued =>
        rw [ending] at made
        cases result with
        | error met =>
          cases made
          rfl
        | ok value =>
          have refused : Meets (do define definition.name definition.mutable value; return value :
              Run ν Value) valued (fun _ _ => True) fun _ after => after = valued := by
            simp only [define, meets_bind, meets_change, meets_pure]
            exact ⟨fun _ _ => trivial, fun _ _ => trivial⟩
          exact (refused.error made).symm

/-- A function that is not defined leaves the state as it is. -/
theorem defineFunction_stops {definition : FunctionDef ν}
    (stopped : (defineFunction definition).run machine = (.error stop, after)) :
    after = machine := by
  have meets : Meets (defineFunction definition) machine (fun _ _ => True)
      fun _ after => after = machine := by
    simp only [defineFunction, meets_bind, meets_get, meets_change]
    exact ⟨fun _ _ => meets_trace_told fun _ _ _ => trivial, fun _ _ => trivial⟩
  exact meets.error stopped

/-- However the globals end that are left, they end in a state that is reached. -/
theorem executeGlobals_reached {earlier later : List (GlobalDef ν)}
    (order : program.globals = earlier ++ later)
    (evaluated : (executeGlobals budget earlier).run (Machine.initial detail) =
      (.ok (), machine)) :
    ∃ globals, Reached budget detail program globals
      ((executeGlobals budget later).run machine).2 := by
  induction later generalizing earlier machine with
  | nil => exact ⟨earlier, .global order evaluated⟩
  | cons first rest inductionHypothesis =>
    rw [executeGlobals, run_bind]
    cases ending : (executeGlobal budget first).run machine with
    | mk result after =>
      cases result with
      | ok done =>
        refine inductionHypothesis (List.append_cons .. ▸ order) ?_
        rw [executeGlobals_append, run_bind, evaluated]
        simp only [executeGlobals, run_bind, ending]
        rfl
      | error stop =>
        rcases executeGlobal_stops ending with same | ⟨value, made⟩
        · have reached : Reached budget detail program earlier
              ((evaluateOptional budget first.value).run machine).2 :=
            .ends (.global order evaluated)
          rw [same] at reached
          exact ⟨earlier, reached⟩
        · exact ⟨earlier ++ [first], .untold order evaluated made⟩

/-- However the definitions end that are left, they end in a state that is reached. -/
theorem defineFunctions_ends_reached {evaluated : Machine ν} {earlier later : List (FunctionDef ν)}
    (order : program.functions = earlier ++ later)
    (globals : (executeGlobals budget program.globals).run (Machine.initial detail) =
      (.ok (), evaluated))
    (defined : (defineFunctions earlier).run evaluated = (.ok (), machine)) :
    Reached budget detail program program.globals ((defineFunctions later).run machine).2 := by
  induction later generalizing earlier machine with
  | nil => exact .function order globals defined
  | cons first rest inductionHypothesis =>
    rw [defineFunctions, run_bind]
    cases ending : (defineFunction first).run machine with
    | mk result after =>
      cases result with
      | ok done =>
        refine inductionHypothesis (List.append_cons .. ▸ order) ?_
        rw [defineFunctions_append, run_bind, defined]
        simp only [defineFunctions, run_bind, ending]
        rfl
      | error stop =>
        obtain rfl := defineFunction_stops ending
        exact .function order globals defined

/-- The state in which a run ends is one of those that it goes through. -/
theorem run_reached (budget detail : Nat) (program : Program ν) :
    ∃ globals, Reached budget detail program globals (run budget detail program).2 := by
  have globalsReached : ∃ globals, Reached budget detail program globals
      ((executeGlobals budget program.globals).run (Machine.initial detail)).2 :=
    executeGlobals_reached (List.nil_append _).symm rfl
  rw [run, runProgram, run_bind]
  cases evaluation : (executeGlobals budget program.globals).run (Machine.initial detail) with
  | mk result evaluated =>
    rw [evaluation] at globalsReached
    cases result with
    | error stop => exact globalsReached
    | ok done =>
      have functionsReached : Reached budget detail program program.globals
          ((defineFunctions program.functions).run evaluated).2 :=
        defineFunctions_ends_reached (List.nil_append _).symm evaluation rfl
      simp only [run_bind]
      cases definition : (defineFunctions program.functions).run evaluated with
      | mk result defined =>
        rw [definition] at functionsReached
        cases result with
        | error stop => exact ⟨_, functionsReached⟩
        | ok done =>
          refine ⟨program.globals, ?_⟩
          simp only [callByName, run_bind, run_lookup, List.length_nil]
          cases meant : defined.environment.lookupFunction "main" 0 with
          | error fault => exact functionsReached
          | ok routine =>
            exact Reached.ends (Comes.main evaluation definition meant)

/-! ### Where a run stops -/

/-- Whatever a part gains, the scopes stay open that it finds open. -/
theorem Part.confined (part : Part ν) (budget : Nat) :
    Confined (fun _ => True) (part.run budget) := by
  have holds : (discipline : Law ν).Holds budget := discipline.holds budget
  cases part with
  | expression tree => exact discipline.allow (holds.evaluate tree)
  | logical operator left right =>
    exact discipline.allow (holds.evaluateLogical operator left right)
  | expressions trees => exact discipline.allow (holds.evaluateAll trees)
  | optional value => exact discipline.allow (holds.evaluateOptional value)
  | call routine arguments => exact discipline.allow (holds.invoke routine arguments trivial)
  | parameters names values => exact discipline.defineParameters names values
  | statement tree => exact holds.execute tree
  | block statements => exact holds.executeBlock statements
  | enclosed statements =>
    exact discipline.allow (discipline.block (holds.executeBlock statements))
  | cases subject choices => exact holds.executeCases subject choices
  | loop condition body => exact discipline.allow (holds.repeatWhile condition body)

/-- The definitions of functions open no scope and close none. -/
theorem defineFunctions_size (definitions : List (FunctionDef ν)) (machine : Machine ν) :
    Meets (defineFunctions definitions) machine
      (fun _ after => after.environment.scopes.size = machine.environment.scopes.size)
      fun _ _ => True := by
  induction definitions generalizing machine with
  | nil => rfl
  | cons first rest inductionHypothesis =>
    simp only [defineFunctions, defineFunction, meets_bind, meets_get, meets_change,
      implies_true, and_true]
    intro environment defined
    refine meets_trace_told fun traced same _ => ?_
    have size : environment.scopes.size = machine.environment.scopes.size := by
      obtain ⟨-, rfl⟩ := Environment.defineFunction_ok_iff.mp defined
      exact Array.size_modify
    rw [← size]
    simpa only [same] using inductionHypothesis traced

/-- A scope is open at all times. -/
theorem carried_occupied (budget detail : Nat) :
    Carried budget detail fun (_ : List (GlobalDef ν)) (machine : Machine ν) =>
      0 < machine.environment.scopes.size := by
  have globals {globals : List (GlobalDef ν)} {machine : Machine ν}
      (evaluated : (executeGlobals budget globals).run (Machine.initial detail) =
        (.ok (), machine)) : 0 < machine.environment.scopes.size := by
    have only : OnlyRoot [] (Machine.initial detail : Machine ν) := initial_onlyRoot detail
    have occupied := only.occupied
    obtain ⟨_, _, gains⟩ := (executeGlobals_leaves globals occupied).ok evaluated
    exact gains.size ▸ occupied
  refine ⟨fun _ => ⟨?_, ?_, ?_⟩, globals, ?_, ?_⟩
  · intro machine after occupied same
    exact same ▸ occupied
  · intro machine parent _
    simp [Machine.entered, Environment.openScope]
  · intro begun occupied
    refine Meets.state (fun after => 0 < after.environment.scopes.size)
      ((begun.part.confined begun.budget begun.machine occupied).imp ?_ ?_)
    · rintro _ after ⟨_, _, gains⟩
      exact gains.size ▸ occupied
    · rintro _ after ⟨_, _, _, gains⟩
      exact gains.size ▸ occupied
  · intro _ definition value machine defined evaluated made
    obtain ⟨_, _, gains⟩ := (confined_defineValue _ _ _ machine (globals evaluated)).ok made
    exact gains.size ▸ globals evaluated
  · intro _ definitions machine after occupied defined
    exact (defineFunctions_size definitions machine).ok defined ▸ occupied

/-- Where a part stops that a run comes to, the run stops, with the lists and the root as
the part leaves them. -/
theorem Comes.stops {begun : Beginning ν} (comes : Comes budget detail program globals begun)
    (stops : StopsAt (begun.part.run begun.budget) begun.machine stop after) :
    StopsAt (runProgram budget program) (Machine.initial detail) stop after := by
  induction comes with
  | @global earlier later definition machine order evaluated =>
    refine StopsAt.first ?_
    rw [order, executeGlobals_append]
    exact StopsAt.behind evaluated (StopsAt.first (StopsAt.first stops))
  | main evaluated defined meant =>
    refine StopsAt.behind evaluated ?_
    refine StopsAt.behind defined ?_
    exact StopsAt.behind (run_lookup_ok.mpr ⟨meant, rfl⟩) stops
  | inside comes leads inductionHypothesis =>
    exact inductionHypothesis (leads.stops (comes.carried (carried_occupied budget detail)) stops)

end Programs

end Blockscript.Running
