import Blockscript.Proofs.Running.Discipline
import Blockscript.Proofs.Typing.Occurrences

/-!
# Budgets that suffice

Without loops, the only step that leads out of a tree is a call. So the steps inside one
another are as many as the tree is deep, and then as many as the deepest call takes. Here a
budget for the calls is given, and one for the whole is counted from the tree: with it no
part of a run uses its budget up, whatever the values are.

Which functions a run finds does not change while it runs. They are those of the root, and
every scope leads there.
-/

namespace Blockscript

variable {ν : Notes}

/-! ## Depth -/

mutual

/-- How many steps evaluating an expression takes inside one another, calls apart. -/
def Expr.depth : Expr ν → Nat
  | .literal _ _ => 1
  | .group _ inner => inner.depth + 1
  | .binary _ _ left right => max left.depth (right.depth + 1) + 1
  | .access _ _ _ => 1
  | .element _ _ _ offset => offset.depth + 1
  | .call _ _ _ arguments => Expr.depthOf arguments + 1
  | .list _ elements => Expr.depthOf elements + 1

/-- How many steps evaluating expressions in order takes inside one another. -/
def Expr.depthOf : List (Expr ν) → Nat
  | [] => 1
  | first :: rest => max first.depth (Expr.depthOf rest) + 1

end

/-- How many steps evaluating an initial value takes inside one another. -/
def Expr.depthOfOptional (value : Option (Expr ν)) : Nat :=
  value.elim 0 Expr.depth + 1

mutual

/-- How many steps executing a statement takes inside one another. Loops are not counted. -/
def Stmt.depth : Stmt ν → Nat
  | .expression inner => inner.depth + 1
  | .declaration _ _ _ value => Expr.depthOfOptional value + 1
  | .assignment receiver value => max receiver.depth value.depth + 1
  | .conditional condition thenBlock elseBlock =>
    max condition.depth (max (Stmt.depthOf thenBlock) (Stmt.depthOf elseBlock)) + 1
  | .switch subject cases => max subject.depth (Case.depthOf cases) + 1
  | .loop _ _ => 1
  | .returning value => value.depth + 1
  | .stray _ _ => 1

/-- How many steps executing a block takes inside one another. -/
def Stmt.depthOf : List (Stmt ν) → Nat
  | [] => 1
  | first :: rest => max first.depth (Stmt.depthOf rest) + 1

/-- How many steps choosing and executing a case takes inside one another. -/
def Case.depthOf : List (Case ν) → Nat
  | [] => 1
  | .mk label body :: rest =>
    max (label.elim 0 Expr.depth) (max (Stmt.depthOf body) (Case.depthOf rest)) + 1

end

/-- No expression has depth zero. -/
theorem Expr.depth_pos (tree : Expr ν) : 0 < tree.depth := by
  cases tree <;> simp [Expr.depth]

/-- No list of expressions has depth zero. -/
theorem Expr.depthOf_pos (trees : List (Expr ν)) : 0 < Expr.depthOf trees := by
  cases trees <;> simp [Expr.depthOf]

/-- No statement has depth zero. -/
theorem Stmt.depth_pos (tree : Stmt ν) : 0 < tree.depth := by
  cases tree <;> simp [Stmt.depth]

/-- No list of statements has depth zero. -/
theorem Stmt.depthOf_pos (trees : List (Stmt ν)) : 0 < Stmt.depthOf trees := by
  cases trees <;> simp [Stmt.depthOf]

/-- No list of cases has depth zero. -/
theorem Case.depthOf_pos (trees : List (Case ν)) : 0 < Case.depthOf trees := by
  rcases trees with _ | ⟨⟨label, body⟩, rest⟩ <;> simp [Case.depthOf]

namespace Running

open Environment (Gains)

variable {α β : Type} {known : List (Routine (Body ν))} {spare budget : Nat}

/-! ## The functions that are found -/

/-- The function that a name and an arity mean among others. -/
def meaning? (known : List (Routine (Body ν))) (name : String) (arity : Nat) :
    Option (Routine (Body ν)) :=
  known.find? fun routine => routine.name = name && routine.arity = arity

/-- The root holds the known functions. No other scope holds any, and each continues in one
that stands below it. -/
structure Holding (known : List (Routine (Body ν))) (environment : Environment Value (Body ν)) :
    Prop where
  root : ∃ root, environment.scopes[0]? = some root ∧ root.functions = known
  inner : ∀ (place : Nat) (scope : Scope Value (Body ν)),
    environment.scopes[place + 1]? = some scope →
      scope.functions = [] ∧ ∃ parent ≤ place, scope.parent = some parent

/-- Where the root holds functions, it is open. -/
theorem Holding.occupied {environment : Environment Value (Body ν)}
    (holding : Holding known environment) : 0 < environment.scopes.size := by
  obtain ⟨root, there, _⟩ := holding.root
  exact (Array.getElem?_eq_some_iff.mp there).1

/-- From every scope the functions of the root are found. -/
theorem Holding.search {environment : Environment Value (Body ν)}
    (holding : Holding known environment) (name : String) (arity : Nat) (place : Nat)
    (inside : place < environment.scopes.size) :
    environment.search (·.findFunction name arity) place =
      (meaning? known name arity).map (0, ·) := by
  induction place using Nat.strongRecOn with
  | ind place inductionHypothesis =>
    rw [Environment.search, Array.getElem?_eq_getElem inside]
    cases place with
    | zero =>
      obtain ⟨root, there, functions⟩ := holding.root
      obtain ⟨_, rfl⟩ := Array.getElem?_eq_some_iff.mp there
      have meant : environment.scopes[0].findFunction name arity = meaning? known name arity :=
        functions ▸ rfl
      simp only [meant]
      cases meaning? known name arity with
      | some routine => rfl
      | none => cases environment.scopes[0].parent <;> rfl
    | succ place =>
      obtain ⟨functions, parent, below, continued⟩ :=
        holding.inner place _ (Array.getElem?_eq_getElem inside)
      have lower : parent < place + 1 := Nat.lt_succ_of_le below
      simp only [Scope.findFunction, functions, List.find?_nil, continued, lower, ↓reduceIte]
      exact inductionHypothesis parent lower (by omega)

/-- A function is found from any scope exactly when the root holds it. -/
theorem Holding.lookupFunction {environment : Environment Value (Body ν)}
    (holding : Holding known environment) {name : String} {arity : Nat}
    {routine : Routine (Body ν)} :
    environment.lookupFunction name arity = .ok routine ↔
      meaning? known name arity = some routine := by
  have occupied := holding.occupied
  have inside : environment.current < environment.scopes.size := by
    rw [Environment.current]
    omega
  rw [Environment.lookupFunction, holding.search name arity _ inside]
  cases meaning? known name arity with
  | some other => simp
  | none => simp

/-- The root holds its functions when variables are gained. -/
theorem Holding.gains {before after : Environment Value (Body ν)} {gained : List (Variable Unit)}
    (holding : Holding known before) (gains : Gains gained before after) :
    Holding known after := by
  constructor
  · obtain ⟨root, there, functions⟩ := holding.root
    obtain ⟨next, nextThere, _, same, _⟩ := gains.scope 0 root there
    exact ⟨next, nextThere, same.trans functions⟩
  · intro place next nextThere
    have inside : place + 1 < before.scopes.size := by
      rw [← gains.size]
      exact (Array.getElem?_eq_some_iff.mp nextThere).1
    have there : before.scopes[place + 1]? = some before.scopes[place + 1] :=
      Array.getElem?_eq_getElem inside
    obtain ⟨other, otherThere, parent, functions, _⟩ := gains.scope _ _ there
    obtain rfl := Option.some.inj (nextThere.symm.trans otherThere)
    rw [parent, functions]
    exact holding.inner place _ there

/-- A scope that is opened on top leads to the root as well. -/
theorem Holding.opened {environment : Environment Value (Body ν)}
    (holding : Holding known environment) (parent : Option Nat)
    (inside : ∀ place ∈ parent, place < environment.scopes.size) :
    Holding known (environment.openScope parent) := by
  have occupied := holding.occupied
  constructor
  · obtain ⟨root, there, functions⟩ := holding.root
    refine ⟨root, ?_, functions⟩
    rw [Environment.openScope, Array.getElem?_push_lt occupied, ← there,
      Array.getElem?_eq_getElem occupied]
  · intro place scope there
    rw [Environment.openScope, Array.getElem?_push] at there
    split at there
    · next last =>
      obtain rfl := Option.some.inj there
      refine ⟨rfl, _, ?_, rfl⟩
      cases parent with
      | none =>
        simp only [Option.getD_none, Environment.current]
        omega
      | some parent =>
        have lower := inside parent rfl
        simp only [Option.getD_some]
        omega
    · exact holding.inner place scope there

/-! ## Actions that do not use their budget up -/

/-- The action is confined, and where the known functions are found it does not use its
budget up. -/
structure Finishes (known : List (Routine (Body ν))) (action : Run ν β) : Prop where
  confined : Confined (fun _ => True) action
  ends : ∀ machine : Machine ν, Holding known machine.environment →
    Meets action machine (fun _ _ => True) fun stop _ => stop ≠ .exhausted

/-- An action that neither defines anything nor uses a budget up. -/
theorem finishes_keeping {action : Run ν β} (kept : Confined (· = []) action)
    (ends : ∀ machine : Machine ν,
      Meets action machine (fun _ _ => True) fun stop _ => stop ≠ .exhausted) :
    Finishes known action :=
  ⟨kept.mono fun _ _ => trivial, fun machine _ => ends machine⟩

/-- To give a value is finished. -/
theorem finishes_pure (value : β) : Finishes known (pure value : Run ν β) :=
  finishes_keeping (discipline.give value) fun _ => trivial

/-- An orderly failure is finished. -/
theorem finishes_fail (fault : RunFault) (orderly : fault.Orderly) :
    Finishes known (Run.fail fault : Run ν β) :=
  finishes_keeping (discipline.halt _ orderly) fun _ => by simp

/-- To pass an orderly outcome on is finished. -/
theorem finishes_outcome {result : Except RunFault β} (orderly : OrderlyOutcome result) :
    Finishes known (Run.outcome result : Run ν β) :=
  finishes_keeping (discipline.outcome orderly) fun _ => by simp

/-- To look a variable up is finished. -/
theorem finishes_variableOf (name : String) :
    Finishes known (variableOf name : Run ν (Variable Value)) :=
  finishes_keeping (discipline.read name) fun _ => by
    simp only [variableOf, meets_bind, meets_lookup, meets_pure]
    simp

/-- To look a variable up for assignment is finished. -/
theorem finishes_mutableOf (name : String) :
    Finishes known (mutableOf name : Run ν (Variable Value)) := by
  refine finishes_keeping (discipline.mutableOf name) fun machine => ?_
  simp only [mutableOf, variableOf, meets_bind, meets_lookup, meets_pure]
  refine ⟨fun found _ => ?_, by simp⟩
  split
  · trivial
  · simp

/-- To take an element is finished. -/
theorem finishes_elementAt (name : String) (value offset : Value) :
    Finishes known (elementAt name value offset : Run ν Value) :=
  finishes_keeping (discipline.elementAt name value offset) fun _ => by
    simp only [elementAt, meets_bind, meets_outcome, meets_store, meets_pure]
    simp

/-- To look at the lists is finished. -/
theorem finishes_store : Finishes known (Run.store : Run ν Store) :=
  finishes_keeping discipline.store fun _ => trivial

/-- To trace is finished, also where the text cannot be written. -/
theorem finishes_trace (detail : Nat) (message : Store → Option Message) :
    Finishes known (Run.trace detail message : Run ν Unit) :=
  finishes_keeping (confined_trace detail message) fun _ =>
    meets_trace (fun _ _ _ => trivial) (by simp)

/-- To define a variable is finished. -/
theorem finishes_define (name : String) (mutable : Bool) (value : Value) :
    Finishes known (define name mutable value : Run ν Unit) :=
  ⟨discipline.define _, fun _ _ => by simp [define]⟩

/-- An action is finished when its value is not needed. -/
theorem Finishes.discard {action : Run ν β} (finishes : Finishes known action) :
    Finishes known (discard action : Run ν PUnit) :=
  ⟨fun machine occupied => meets_discard.mpr (finishes.confined machine occupied),
    fun machine holding => meets_discard.mpr (finishes.ends machine holding)⟩

/-- Two actions in order are finished when each of them is. -/
theorem Finishes.bind {action : Run ν α} {next : α → Run ν β}
    (first : Finishes known action) (rest : ∀ value, Finishes known (next value)) :
    Finishes known (action >>= next) := by
  refine ⟨.bind (fun _ _ _ _ => trivial) first.confined fun value => (rest value).confined,
    fun machine holding => ?_⟩
  rw [meets_bind]
  refine ((first.ends machine holding).both (first.confined machine holding.occupied)).imp ?_
    fun stop _ stopped => stopped.1
  rintro value middle ⟨_, gained, _, gains⟩
  exact (rest value).ends middle (holding.gains gains)

/-- A function is looked up among the known ones. -/
theorem Finishes.call {name : String} {arity : Nat} {next : Routine (Body ν) → Run ν β}
    (confined : ∀ routine, Confined (· = []) (next routine))
    (rest : ∀ routine, meaning? known name arity = some routine → Finishes known (next routine)) :
    Finishes known (Run.lookup (·.lookupFunction name arity) >>= next) := by
  refine ⟨(discipline.call fun routine _ => confined routine).mono fun _ _ => trivial,
    fun machine holding => ?_⟩
  rw [meets_bind, meets_lookup]
  exact ⟨fun routine found => (rest routine (holding.lookupFunction.mp found)).ends machine holding,
    by simp⟩

/-- An action in a new scope is finished, if the scope continues in the root or where the run
is. -/
theorem Finishes.inScope {body : Run ν β} (finishes : Finishes known body) {parent : Option Nat}
    (root : ∀ place ∈ parent, place = 0) : Finishes known (Run.inScope parent body) := by
  refine ⟨(Confined.inScope parent finishes.confined).mono fun _ _ => trivial,
    fun machine holding => ?_⟩
  have opened := holding.opened parent fun place member =>
    (root place member).symm ▸ holding.occupied
  have inside := finishes.ends
    { machine with environment := machine.environment.openScope parent } opened
  unfold Meets at inside ⊢
  simp only [Run.inScope, ExceptT.run_mk]
  simp only [ExceptT.run] at inside
  cases ending : body { machine with environment := machine.environment.openScope parent } with
  | mk result after =>
    rw [ending] at inside
    cases closing : after.environment.closeScope
        (machine.environment.openScope parent).current with
    | ok environment =>
      simp only [closing]
      cases result with
      | ok value => trivial
      | error stop => exact inside
    | error fault => simp [closing]

/-- To define parameters is finished. -/
theorem finishes_defineParameters (names : List String) (values : List Value) :
    Finishes known (defineParameters names values : Run ν Unit) := by
  induction names generalizing values with
  | nil => exact finishes_pure ()
  | cons name names inductionHypothesis =>
    cases values with
    | nil => exact finishes_pure ()
    | cons value values =>
      exact .bind ⟨discipline.define _, fun _ _ => by simp⟩ fun _ => inductionHypothesis values

/-! ## Trees without loops -/

/-- If the expression is a call, whatever it calls among the known functions is finished
within the budget for calls. -/
def Answered (known : List (Routine (Body ν))) (spare : Nat) : Expr ν → Prop
  | .call _ _ name arguments => ∀ routine, meaning? known name arguments.length = some routine →
      ∀ budget values, spare ≤ budget → Finishes known (invoke budget routine values)
  | _ => True

/-- A budget suffices for all trees that are not too deep for it. -/
structure Suffices (known : List (Routine (Body ν))) (spare budget : Nat) : Prop where
  evaluate : ∀ tree : Expr ν, tree.Every (Answered known spare) →
    tree.depth + spare ≤ budget → Finishes known (evaluate budget tree)
  evaluateLogical : ∀ operator left (right : Expr ν), right.Every (Answered known spare) →
    right.depth + 1 + spare ≤ budget → Finishes known (evaluateLogical budget operator left right)
  evaluateAll : ∀ trees : List (Expr ν), (∀ tree ∈ trees, tree.Every (Answered known spare)) →
    Expr.depthOf trees + spare ≤ budget → Finishes known (evaluateAll budget trees)
  evaluateOptional : ∀ value : Option (Expr ν),
    (∀ tree ∈ value, tree.Every (Answered known spare)) →
    Expr.depthOfOptional value + spare ≤ budget → Finishes known (evaluateOptional budget value)
  execute : ∀ tree : Stmt ν, (∀ root ∈ tree.roots, root.Every (Answered known spare)) →
    (∀ inner ∈ tree.nested, inner.isLoop = false) →
    tree.depth + spare ≤ budget → Finishes known (execute budget tree)
  executeBlock : ∀ trees : List (Stmt ν),
    (∀ root ∈ Stmt.rootsOf trees, root.Every (Answered known spare)) →
    (∀ inner ∈ Stmt.nestedOf trees, inner.isLoop = false) →
    Stmt.depthOf trees + spare ≤ budget → Finishes known (executeBlock budget trees)
  executeCases : ∀ subject (trees : List (Case ν)),
    (∀ root ∈ Case.rootsOf trees, root.Every (Answered known spare)) →
    (∀ inner ∈ Case.nestedOf trees, inner.isLoop = false) →
    Case.depthOf trees + spare ≤ budget → Finishes known (executeCases budget subject trees)

/-- One more unit of the budget suffices for expressions that are one deeper. -/
theorem Suffices.evaluate_step (earlier : Suffices known spare budget) (tree : Expr ν)
    (answered : tree.Every (Answered known spare)) (deep : tree.depth + spare ≤ budget + 1) :
    Finishes known (Running.evaluate (budget + 1) tree) := by
  cases tree with
  | literal type literal => exact finishes_outcome (literalValue_orderly literal)
  | group type inner =>
    simp only [Expr.depth] at deep
    exact earlier.evaluate inner (Expr.every_group.mp answered).2 (by omega)
  | binary type operator left right =>
    simp only [Expr.depth] at deep
    obtain ⟨_, leftAnswered, rightAnswered⟩ := Expr.every_binary.mp answered
    unfold Running.evaluate
    refine .bind (earlier.evaluate left leftAnswered (by omega)) fun leftValue => ?_
    split
    · exact earlier.evaluateLogical _ _ right rightAnswered (by omega)
    · exact earlier.evaluateLogical _ _ right rightAnswered (by omega)
    · refine .bind (earlier.evaluate right rightAnswered (by omega)) fun rightValue => ?_
      exact .bind finishes_store fun store => finishes_outcome (apply_orderly _ _ _ _)
  | access type entry name =>
    unfold Running.evaluate
    exact .bind (finishes_variableOf name) fun entry => finishes_pure _
  | element type entry name offset =>
    simp only [Expr.depth] at deep
    unfold Running.evaluate
    refine .bind (finishes_variableOf name).discard fun _ => ?_
    refine .bind (earlier.evaluate offset (Expr.every_element.mp answered).2 (by omega))
      fun offset => ?_
    exact .bind (finishes_variableOf name) fun entry => finishes_elementAt name _ _
  | call type routine name arguments =>
    simp only [Expr.depth] at deep
    have argumentsDeep := Expr.depthOf_pos arguments
    obtain ⟨here, inside⟩ := Expr.every_call.mp answered
    have confined := discipline.holds (ν := ν) budget
    unfold Running.evaluate
    refine .call (fun routine => ?_) fun routine found => ?_
    · exact discipline.andThen (confined.evaluateAll arguments) fun values =>
        confined.invoke routine values trivial
    · refine .bind (earlier.evaluateAll arguments inside (by omega)) fun values => ?_
      exact here routine found budget values (by omega)
  | list type elements =>
    simp only [Expr.depth] at deep
    unfold Running.evaluate
    refine .bind (earlier.evaluateAll elements (Expr.every_list.mp answered).2 (by omega))
      fun values => ?_
    exact finishes_keeping (discipline.allocate values) fun _ => trivial

/-- One more unit of the budget suffices for second operands that are one deeper. -/
theorem Suffices.evaluateLogical_step (earlier : Suffices known spare budget)
    (operator : Operator) (left : Value) (right : Expr ν)
    (answered : right.Every (Answered known spare))
    (deep : right.depth + 1 + spare ≤ budget + 1) :
    Finishes known (Running.evaluateLogical (budget + 1) operator left right) := by
  unfold Running.evaluateLogical
  refine .bind (finishes_outcome (requireBoolean_orderly _ _)) fun truth => ?_
  split
  · exact finishes_pure _
  · refine .bind (earlier.evaluate right answered (by omega)) fun value => ?_
    exact .bind (finishes_outcome (requireBoolean_orderly _ _)) fun _ => finishes_pure _

/-- One more unit of the budget suffices for several expressions that are one deeper. -/
theorem Suffices.evaluateAll_step (earlier : Suffices known spare budget) (trees : List (Expr ν))
    (answered : ∀ tree ∈ trees, tree.Every (Answered known spare))
    (deep : Expr.depthOf trees + spare ≤ budget + 1) :
    Finishes known (Running.evaluateAll (budget + 1) trees) := by
  cases trees with
  | nil => exact finishes_pure _
  | cons first rest =>
    simp only [Expr.depthOf] at deep
    obtain ⟨here, later⟩ := List.forall_mem_cons.mp answered
    unfold Running.evaluateAll
    refine .bind (earlier.evaluate first here (by omega)) fun value => ?_
    exact .bind (earlier.evaluateAll rest later (by omega)) fun values => finishes_pure _

/-- One more unit of the budget suffices for an initial value that is one deeper. -/
theorem Suffices.evaluateOptional_step (earlier : Suffices known spare budget)
    (value : Option (Expr ν)) (answered : ∀ tree ∈ value, tree.Every (Answered known spare))
    (deep : Expr.depthOfOptional value + spare ≤ budget + 1) :
    Finishes known (Running.evaluateOptional (budget + 1) value) := by
  cases value with
  | none => exact finishes_pure _
  | some tree =>
    simp only [Expr.depthOfOptional, Option.elim_some] at deep
    exact earlier.evaluate tree (answered tree rfl) (by omega)

/-- One more unit of the budget suffices for an assignment whose parts are not too deep. -/
theorem Suffices.assignment_step (earlier : Suffices known spare budget)
    (receiver value : Expr ν) (receiverAnswered : receiver.Every (Answered known spare))
    (valueAnswered : value.Every (Answered known spare))
    (deep : max receiver.depth value.depth + spare ≤ budget) :
    Finishes known (Running.execute (budget + 1) (.assignment receiver value)) := by
  have evaluated : Finishes known (Running.evaluate budget value) :=
    earlier.evaluate value valueAnswered (by omega)
  cases receiver with
  | access type entry name =>
    unfold Running.execute
    refine .bind evaluated fun value => .bind (finishes_mutableOf name).discard fun _ => ?_
    refine .bind ?_ fun _ => finishes_pure _
    exact finishes_keeping (confined_setVariable name value) fun _ => by simp
  | element type entry name offset =>
    simp only [Expr.depth] at deep
    unfold Running.execute
    refine .bind evaluated fun value => .bind (finishes_mutableOf name) fun entry => ?_
    refine .bind (finishes_outcome (requireList_orderly name _)) fun handle => ?_
    refine .bind (earlier.evaluate offset (Expr.every_element.mp receiverAnswered).2 (by omega))
      fun offset => .bind finishes_store fun store => ?_
    refine .bind (finishes_outcome (requireIndex_orderly offset _)) fun index => ?_
    refine .bind ?_ fun _ => finishes_pure _
    exact finishes_keeping (discipline.replace handle index value) fun _ => trivial
  | _ =>
    unfold Running.execute
    exact .bind evaluated.discard fun _ => finishes_fail _ trivial

/-- One more unit of the budget suffices for statements that are one deeper. -/
theorem Suffices.execute_step (earlier : Suffices known spare budget) (tree : Stmt ν)
    (answered : ∀ root ∈ tree.roots, root.Every (Answered known spare))
    (straight : ∀ inner ∈ tree.nested, inner.isLoop = false)
    (deep : tree.depth + spare ≤ budget + 1) :
    Finishes known (Running.execute (budget + 1) tree) := by
  cases tree with
  | expression inner =>
    simp only [Stmt.depth] at deep
    unfold Running.execute
    refine .bind (earlier.evaluate inner (answered inner (by simp [Stmt.roots]))
      (by omega)).discard fun _ => finishes_pure _
  | declaration entry name typeName value =>
    simp only [Stmt.depth] at deep
    unfold Running.execute
    refine .bind (earlier.evaluateOptional value (fun tree member =>
      answered tree (by simpa [Stmt.roots] using member)) (by omega)) fun value => ?_
    refine .bind (finishes_define name true value) fun _ => ?_
    exact .bind (finishes_trace _ _) fun _ => finishes_pure _
  | assignment receiver value =>
    simp only [Stmt.depth] at deep
    simp only [Stmt.roots, List.forall_mem_cons] at answered
    exact earlier.assignment_step receiver value answered.1 answered.2.1 (by omega)
  | conditional condition thenBlock elseBlock =>
    simp only [Stmt.depth] at deep
    simp only [Stmt.roots, List.forall_mem_cons, List.forall_mem_append] at answered
    simp only [Stmt.nested, List.forall_mem_cons, List.forall_mem_append] at straight
    unfold Running.execute
    refine .bind (earlier.evaluate condition answered.1 (by omega)) fun value => ?_
    refine .bind (finishes_outcome (requireBoolean_orderly _ _)) fun truth => ?_
    refine .bind (finishes_trace _ _) fun _ => .inScope ?_ (by simp)
    cases truth with
    | true => exact earlier.executeBlock thenBlock answered.2.1 straight.2.1 (by omega)
    | false => exact earlier.executeBlock elseBlock answered.2.2 straight.2.2 (by omega)
  | switch subject cases =>
    simp only [Stmt.depth] at deep
    simp only [Stmt.roots, List.forall_mem_cons] at answered
    simp only [Stmt.nested, List.forall_mem_cons] at straight
    unfold Running.execute
    refine .inScope (.bind (earlier.evaluate subject answered.1 (by omega)) fun value => ?_)
      (by simp)
    exact earlier.executeCases value cases answered.2 straight.2 (by omega)
  | loop condition body =>
    have loopFree := straight _ (List.mem_cons_self)
    cases loopFree
  | returning value =>
    simp only [Stmt.depth] at deep
    unfold Running.execute
    exact .bind (earlier.evaluate value (answered value (by simp [Stmt.roots])) (by omega))
      fun value => finishes_pure _
  | stray label body => exact finishes_fail _ trivial

/-- One more unit of the budget suffices for several statements that are one deeper. -/
theorem Suffices.executeBlock_step (earlier : Suffices known spare budget) (trees : List (Stmt ν))
    (answered : ∀ root ∈ Stmt.rootsOf trees, root.Every (Answered known spare))
    (straight : ∀ inner ∈ Stmt.nestedOf trees, inner.isLoop = false)
    (deep : Stmt.depthOf trees + spare ≤ budget + 1) :
    Finishes known (Running.executeBlock (budget + 1) trees) := by
  cases trees with
  | nil => exact finishes_pure _
  | cons first rest =>
    simp only [Stmt.depthOf] at deep
    simp only [Stmt.rootsOf, List.forall_mem_append] at answered
    simp only [Stmt.nestedOf, List.forall_mem_append] at straight
    unfold Running.executeBlock
    refine .bind (earlier.execute first answered.1 straight.1 (by omega)) fun outcome => ?_
    cases outcome with
    | completed => exact earlier.executeBlock rest answered.2 straight.2 (by omega)
    | returning value => exact finishes_pure _

/-- One more unit of the budget suffices for cases that are one deeper. -/
theorem Suffices.executeCases_step (earlier : Suffices known spare budget) (subject : Value)
    (trees : List (Case ν))
    (answered : ∀ root ∈ Case.rootsOf trees, root.Every (Answered known spare))
    (straight : ∀ inner ∈ Case.nestedOf trees, inner.isLoop = false)
    (deep : Case.depthOf trees + spare ≤ budget + 1) :
    Finishes known (Running.executeCases (budget + 1) subject trees) := by
  rcases trees with _ | ⟨⟨label, body⟩, rest⟩
  · exact finishes_pure _
  · simp only [Case.depthOf] at deep
    simp only [Case.rootsOf, List.forall_mem_append] at answered
    simp only [Case.nestedOf, List.forall_mem_append] at straight
    have chosen : Finishes known (Running.executeBlock budget body) :=
      earlier.executeBlock body answered.1.2 straight.1 (by omega)
    unfold Running.executeCases
    cases label with
    | none => exact .bind (finishes_trace _ _) fun _ => chosen
    | some label =>
      simp only [Option.elim_some] at deep
      have labelAnswered := answered.1.1 label (by simp)
      refine .bind (earlier.evaluate label labelAnswered (by omega)) fun value => ?_
      refine .bind finishes_store fun store => ?_
      split
      · exact .bind (finishes_trace _ _) fun _ => chosen
      · exact earlier.executeCases subject rest answered.2 straight.2 (by omega)

/-- Every budget suffices for the trees that are not too deep for it. -/
theorem suffices_budget (known : List (Routine (Body ν))) (spare budget : Nat) :
    Suffices known spare budget := by
  induction budget with
  | zero =>
    refine ⟨fun tree _ deep => ?_, fun _ _ _ _ deep => ?_, fun trees _ deep => ?_,
      fun value _ deep => ?_, fun tree _ _ deep => ?_, fun trees _ _ deep => ?_,
      fun _ trees _ _ deep => ?_⟩
    · exact absurd tree.depth_pos (by omega)
    · omega
    · exact absurd (Expr.depthOf_pos trees) (by omega)
    · rw [Expr.depthOfOptional] at deep
      omega
    · exact absurd tree.depth_pos (by omega)
    · exact absurd (Stmt.depthOf_pos trees) (by omega)
    · exact absurd (Case.depthOf_pos trees) (by omega)
  | succ budget earlier =>
    exact ⟨earlier.evaluate_step, earlier.evaluateLogical_step, earlier.evaluateAll_step,
      earlier.evaluateOptional_step, earlier.execute_step, earlier.executeBlock_step,
      earlier.executeCases_step⟩

/-- A call of a function that continues in the root is finished as soon as its body is. -/
theorem finishes_invoke {routine : Routine (Body ν)} {definition : FunctionDef ν}
    (implemented : routine.implementation = some (.script definition 0))
    (body : Finishes known (executeBlock budget definition.body)) (values : List Value) :
    Finishes known (invoke (budget + 1) routine values) := by
  unfold invoke Routine.required
  rw [implemented]
  refine .bind (finishes_trace _ _) fun _ => .bind (.inScope ?_ ?_) fun _ => finishes_pure _
  · exact .bind (finishes_defineParameters _ _) fun _ => body
  · rintro place ⟨⟩
    rfl

end Running

end Blockscript
