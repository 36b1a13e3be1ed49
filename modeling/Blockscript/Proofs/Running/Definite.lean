import Blockscript.Proofs.Running.Presence
import Blockscript.Proofs.Typing.Occurrences

/-!
# Definite programs

Nil is where an integer belongs for two reasons only: a variable has been declared without
an initial value, or the body of a function has ended without a return. A program is
definite if neither can be. For every kind of part it is shown that no integer is missing
when it has been run, by induction on the budget and with what is known of typed parts.
-/

namespace Blockscript

variable {ν : Notes}

mutual

/-- Whether the statement returns whenever it ends. A loop is not counted on. -/
def Stmt.returns : Stmt ν → Bool
  | .conditional _ thenBlock elseBlock => Stmt.anyReturns thenBlock && Stmt.anyReturns elseBlock
  | .switch _ cases => Case.allReturn cases
  | .returning _ => true
  | _ => false

/-- Whether one of the statements returns whenever it ends. -/
def Stmt.anyReturns : List (Stmt ν) → Bool
  | [] => false
  | first :: rest => first.returns || Stmt.anyReturns rest

/-- Whether every case returns whenever it ends. -/
def Case.allReturn : List (Case ν) → Bool
  | [] => true
  | .mk _ body :: rest => Stmt.anyReturns body && Case.allReturn rest

end

/-- Whether the statement declares an integer without saying which. -/
def Stmt.leavesOpen : Stmt .checked → Bool
  | .declaration entry _ _ none => entry.type = .integer
  | _ => false

/-- Every variable for an integer has an initial value, and every function with an integer as
its result returns on all ways through its body. -/
structure Program.Definite (program : Program .checked) : Prop where
  globals : ∀ definition ∈ program.globals,
    definition.entry.type = .integer → definition.value.isSome = true
  declarations : ∀ statement ∈ program.statements, statement.leavesOpen = false
  results : ∀ definition ∈ program.functions,
    definition.routine.result = .integer → Stmt.anyReturns definition.body = true

instance (program : Program .checked) : Decidable program.Definite :=
  decidable_of_iff
    ((∀ definition ∈ program.globals,
        definition.entry.type = .integer → definition.value.isSome = true) ∧
      (∀ statement ∈ program.statements, statement.leavesOpen = false) ∧
      ∀ definition ∈ program.functions,
        definition.routine.result = .integer → Stmt.anyReturns definition.body = true)
    ⟨fun ⟨globals, declarations, results⟩ => ⟨globals, declarations, results⟩,
      fun definite => ⟨definite.globals, definite.declarations, definite.results⟩⟩

namespace Chronicle

open Running (Body Machine Outcome Run Meets)

variable {world : World} {record : Record} {scopes : Scopes} {budget : Nat} {β : Type}

/-! ## Values -/

/-- A literal of the type of the integers is one. -/
theorem literalValue_present {literal : Literal} {type : Ty} {value : Value}
    (typed : Typing.literalType literal = .ok type)
    (computed : Running.literalValue literal = .ok value) : Present type value := by
  rintro integer rfl
  cases literal with
  | nil =>
    cases typed
    cases integer
  | integer number =>
    simp only [Running.literalValue] at computed
    split at computed
    · cases computed
    · cases computed
  | _ => cases computed

/-- A sum, a difference or a product is never missing. -/
theorem arithmetic_ne_nil {operator : Operator} {onIntegers : Int → Int → Int}
    {onDecimals : Decimal → Decimal → Except Decimal.Refusal Decimal} {left right : Value} :
    Running.arithmetic operator onIntegers onDecimals left right ≠ .ok .nil := by
  unfold Running.arithmetic Running.decimalResult
  split
  · simp
  · split <;> simp
  · simp

/-- A power is never missing. -/
theorem power_ne_nil {base exponent : Value} : Running.power base exponent ≠ .ok .nil := by
  unfold Running.power Running.decimalPower
  repeat' split
  all_goals simp

/-- The outcome of a comparison is never missing. -/
theorem compare_ne_nil {left right : Value} {below : Option Bool} :
    Running.compare left right below ≠ .ok .nil := by
  unfold Running.compare
  split <;> simp

/-- Joining gives a text, and so never nil. -/
theorem join_ne_nil {store : Store} {left right : Value} :
    Running.join store left right ≠ .ok .nil := by
  unfold Running.join
  cases left.text? store with
  | none => simp [written, bind, Except.bind]
  | some first => cases right.text? store <;> simp [written, bind, Except.bind, pure, Except.pure]

/-- No operator gives nil. -/
theorem apply_ne_nil {store : Store} {text : String} {left right : Value} :
    Running.apply store text left right ≠ .ok .nil := by
  unfold Running.apply
  split
  · simp
  · simp
  · exact compare_ne_nil
  · exact compare_ne_nil
  · split
    · exact join_ne_nil
    · exact arithmetic_ne_nil
  · exact arithmetic_ne_nil
  · exact arithmetic_ne_nil
  · split
    · simp
    · exact arithmetic_ne_nil
  · exact power_ne_nil
  · simp
  · simp
  · simp

/-- What a statement gives: what it returns is there, and it completes only if it need not
return. -/
def Delivers (result : Ty) (returns : Bool) : Outcome → Prop
  | .completed => returns = false
  | .returning value => Present result value

/-- To promise less about returning keeps what is delivered. -/
theorem Delivers.imp {result : Ty} {before after : Bool} {outcome : Outcome}
    (delivers : Delivers result before outcome) (weaker : after = true → before = true) :
    Delivers result after outcome := by
  cases outcome with
  | completed => exact Bool.eq_false_iff.mpr fun still => by simp_all [Delivers]
  | returning value => exact delivers

/-- What a call gives is there, if the body returns wherever an integer is asked for. -/
theorem Delivers.value {result : Ty} {returns : Bool} {outcome : Outcome}
    (delivers : Delivers result returns outcome) (always : result = .integer → returns = true) :
    Present result outcome.value := by
  cases outcome with
  | completed =>
    intro integer
    rw [Delivers, always integer] at delivers
    cases delivers
  | returning value => exact delivers

/-- No statement declares an integer without saying which. -/
def Filled (statements : List (Stmt .checked)) : Prop :=
  ∀ statement ∈ statements, statement.leavesOpen = false

/-- What is shown of each kind of part, with a budget. -/
structure Supplied (world : World) (budget : Nat) : Prop where
  evaluate : ∀ {scopes : Scopes} {expression : Expr .checked} {record : Record},
    ExprTyped world.seen scopes expression → Ready world record scopes →
    Supplies (evaluate world.program budget scopes expression) record (Present expression.type)
  evaluateLogical : ∀ {scopes : Scopes} {operator : Operator} {left : Value}
    {right : Expr .checked} {record : Record},
    Typed record.makers .boolean left → ExprTyped world.seen scopes right →
    Ready world record scopes →
    Supplies (evaluateLogical world.program budget scopes operator left right) record (· ≠ .nil)
  evaluateAll : ∀ {scopes : Scopes} {expressions : List (Expr .checked)} {record : Record},
    (∀ expression ∈ expressions, ExprTyped world.seen scopes expression) →
    Ready world record scopes →
    Supplies (evaluateAll world.program budget scopes expressions) record
      (List.Forall₂ (fun (expression : Expr .checked) => Present expression.type) expressions)
  invoke : ∀ {scopes : Scopes} {body : Body .checked} {arguments : List Value} {record : Record},
    body ∈ bodies world.functions →
    List.Forall₂ (Typed record.makers) (signature body).parameters arguments →
    List.Forall₂ Present (signature body).parameters arguments → Intact world record →
    Supplies (invoke world.program budget scopes (routineOf body) arguments) record
      (Present (signature body).result)
  execute : ∀ {result : Ty} {site : Site} {statement : Stmt .checked} {record : Record},
    StmtTyped world.seen result site statement → Filled statement.nested →
    Standing world record site.scopes →
    Supplies (execute world.program budget site statement) record
      (Delivers result statement.returns)
  evaluateOptional : ∀ {scopes : Scopes} {type : Ty} {value : Option (Expr .checked)}
    {record : Record},
    (∀ expression, value = some expression → ExprTyped world.seen scopes expression ∧
      type.isAssignable expression.type = true) →
    (type = .integer → value.isSome = true) → Ready world record scopes →
    Supplies (evaluateOptional world.program budget scopes value) record (Present type)
  executeBlock : ∀ {result : Ty} {site : Site} {statements : List (Stmt .checked)}
    {record : Record},
    BlockTyped world.seen result site statements → Filled (Stmt.nestedOf statements) →
    Standing world record site.scopes →
    Supplies (executeBlock world.program budget site statements) record
      (Delivers result (Stmt.anyReturns statements))
  executeCases : ∀ {result subjectType : Ty} {site : Site} {number : Nat} {subject : Value}
    {cases : List (Case .checked)} {record : Record},
    CasesTyped world.seen result subjectType site number cases → Filled (Case.nestedOf cases) →
    Standing world record site.scopes.enter → Ready world record site.scopes →
    Supplies (executeCases world.program budget site number subject cases) record
      (Delivers result (Case.allReturn cases))
  repeatWhile : ∀ {result : Ty} {site : Site} {condition : Expr .checked}
    {body : List (Stmt .checked)} {record : Record},
    ExprTyped world.seen site.scopes condition → condition.type = .boolean →
    BlockTyped world.seen result (site.block 0) body → Filled (Stmt.nestedOf body) →
    Standing world record site.scopes →
    Supplies (repeatWhile world.program budget site condition body) record
      (Delivers result false)

/-- Behind an expression the run goes on with its value, which is of its type and there. -/
theorem Supplied.evaluate_then (supplied : Supplied world budget) {expression : Expr .checked}
    {next : Value → Recorded β} {result : β → Prop}
    (typed : ExprTyped world.seen scopes expression) (ready : Ready world record scopes)
    (rest : ∀ value after, Steady world record after →
      Typed after.makers expression.type value → Present expression.type value →
      Supplies (next value) after result) :
    Supplies (Chronicle.evaluate world.program budget scopes expression >>= next) record
      result :=
  supplies_then ((specs world budget).evaluate typed ready) (supplied.evaluate typed ready)
    fun value after done present => rest value after done.1 done.2 present

/-- Behind taking down a name that means what it should the run goes on in the same scopes. -/
theorem resolving_then {node : Expr .checked} {next : Unit → Recorded β} {result : β → Prop}
    (ready : Ready world record scopes) (seen : world.seen scopes node)
    (resolves : Resolves world.program scopes record.state node)
    (rest : ∀ after, Ready world after scopes → Supplies (next ⟨⟩) after result) :
    Supplies (note scopes (.resolving node) >>= next) record result :=
  supplies_then (resolving_steady ready seen resolves) supplies_note
    fun _ after done _ => rest after (ready.after done.1)

/-! ## Expressions -/

/-- Taking down the value of an expression supplies what the expression supplies. -/
theorem supplies_giving {expression : Expr .checked} {action : Recorded Value}
    {given : Value → Prop} (supplies : Supplies action record given) :
    Supplies (giving scopes expression action) record given :=
  supplies.bind fun _ _ holds => supplies_note.bind fun _ _ _ => supplies_pure holds

/-- An operation supplies a value of its type that is there. -/
theorem supplied_binary (supplied : Supplied world budget) {type : Ty} {text : String}
    {left right : Expr .checked} (leftTyped : ExprTyped world.seen scopes left)
    (rightTyped : ExprTyped world.seen scopes right)
    (typed : Typing.binaryType text left.type right.type = .ok type)
    (ready : Ready world record scopes) :
    Supplies (evaluate world.program (budget + 1) scopes (.binary type text left right)) record
      (· ≠ .nil) := by
  unfold evaluate
  apply supplies_giving
  refine supplied.evaluate_then leftTyped ready fun value first steady holds _ => ?_
  have readyMore := ready.after steady
  -- The operators that need both values.
  have eager : Supplies (do
      let other ← evaluate world.program budget scopes right
      let store ← perform scopes id Run.store
      note scopes (.operands (.binary type text left right) value other)
      perform scopes id (Run.outcome (Running.apply store text value other))) first
      (· ≠ .nil) := by
    refine (supplied.evaluate rightTyped readyMore).bind fun other second _ => ?_
    refine supplies_store.bind fun store third _ => ?_
    refine supplies_note.bind fun _ fourth _ => ?_
    refine supplies_outcome.imp fun result computed => ?_
    rintro rfl
    exact apply_ne_nil computed
  cases parsed : Operator.ofText? text with
  | none => simp [Typing.binaryType, parsed] at typed
  | some operator =>
    simp only [Typing.binaryType, parsed] at typed
    cases operator with
    | and =>
      obtain ⟨boolean, _, _⟩ := logicalType_ok (.inl rfl) typed
      exact supplied.evaluateLogical (boolean ▸ holds) rightTyped readyMore
    | or =>
      obtain ⟨boolean, _, _⟩ := logicalType_ok (.inr rfl) typed
      exact supplied.evaluateLogical (boolean ▸ holds) rightTyped readyMore
    | _ => exact eager

/-- One more unit of the budget supplies expressions. -/
theorem supplied_evaluate (supplied : Supplied world budget) {expression : Expr .checked}
    (typed : ExprTyped world.seen scopes expression) (ready : Ready world record scopes) :
    Supplies (evaluate world.program (budget + 1) scopes expression) record
      (Present expression.type) := by
  cases typed with
  | binary leftTyped rightTyped binaryTyped =>
    exact (supplied_binary supplied leftTyped rightTyped binaryTyped ready).imp
      fun _ there _ => there
  | literal literalTyped =>
    unfold evaluate
    apply supplies_giving
    exact supplies_outcome.imp fun _ computed => literalValue_present literalTyped computed
  | group inner =>
    unfold evaluate
    exact supplies_giving (supplied.evaluate inner ready)
  | @access name binding found seen =>
    unfold evaluate
    apply supplies_giving
    refine resolving_then ready seen (ready.resolvesVariable found) fun first there => ?_
    refine (supplies_variableOf there found).bind fun entry second present => ?_
    exact supplies_pure present
  | @element name binding element offset found listed offsetTyped integer seen =>
    unfold evaluate
    apply supplies_giving
    refine resolving_then ready seen (ready.resolvesVariable found) fun first there => ?_
    refine supplies_then (discard_steady (perform_variableOf there found))
      (supplies_discard (supplies_variableOf there found)) ?_
    rintro _ second ⟨discarded, _⟩ _
    refine supplied.evaluate_then offsetTyped (there.after discarded)
      fun index third indexed _ _ => ?_
    have again := (there.after discarded).after indexed
    refine resolving_then again seen (again.resolvesVariable found) fun fourth last => ?_
    refine supplies_then (perform_variableOf last found) (supplies_variableOf last found) ?_
    rintro entry fifth ⟨steady, held⟩ _
    have holds : Typed fifth.makers (.list element) entry.value :=
      listed ▸ held.typed.grow steady.makers
    exact supplies_elementAt holds
  | @call name routine result arguments found settled argumentsTyped assignable seen =>
    unfold evaluate
    apply supplies_giving
    refine resolving_then ready seen (ready.resolvesFunction found settled) fun first there => ?_
    refine supplies_then (perform_lookupFunction there found) supplies_lookup ?_
    rintro called second ⟨steady, body, member, rfl, means⟩ _
    have passing := there.after steady
    refine supplies_then ((specs world budget).evaluateAll argumentsTyped passing)
      (supplied.evaluateAll argumentsTyped passing) ?_
    rintro values third ⟨evaluated, valuesTyped⟩ presents
    have passed : List.Forall₂ (Typed third.makers) (signature body).parameters values := by
      rw [← means.parameters]
      exact arguments_hold Typed.assign assignable valuesTyped
    have there : List.Forall₂ Present (signature body).parameters values := by
      rw [← means.parameters]
      exact arguments_hold Present.assign assignable presents
    have same : result = (signature body).result := means.result result (by simp [settled])
    rw [Expr.type, same]
    exact supplied.invoke member passed there evaluated.intact
  | @list element elements elementsTyped assignable =>
    unfold evaluate
    apply supplies_giving
    refine supplies_then ((specs world budget).evaluateAll elementsTyped ready)
      (supplied.evaluateAll elementsTyped ready) ?_
    rintro values first ⟨steady, _⟩ presents
    refine (supplies_allocate steady.intact
      (elements_hold Present.assign assignable presents)).imp fun _ _ => ?_
    exact present_of_ne (by simp [Expr.type])

/-- One more unit of the budget supplies the second operands of logical operations. -/
theorem supplied_evaluateLogical (supplied : Supplied world budget) {operator : Operator}
    {left : Value} {right : Expr .checked} (leftTyped : Typed record.makers .boolean left)
    (rightTyped : ExprTyped world.seen scopes right) (ready : Ready world record scopes) :
    Supplies (evaluateLogical world.program (budget + 1) scopes operator left right) record
      (· ≠ .nil) := by
  unfold evaluateLogical
  refine supplies_then (perform_boolean ready.intact leftTyped) supplies_outcome ?_
  rintro truth first ⟨steady, _⟩ _
  split
  · exact supplies_pure (by simp)
  · refine (supplied.evaluate rightTyped (ready.after steady)).bind fun value second _ => ?_
    refine supplies_outcome.bind fun truth third _ => ?_
    exact supplies_pure (by simp)

/-- One more unit of the budget supplies each of several expressions. -/
theorem supplied_evaluateAll (supplied : Supplied world budget)
    {expressions : List (Expr .checked)}
    (typed : ∀ expression ∈ expressions, ExprTyped world.seen scopes expression)
    (ready : Ready world record scopes) :
    Supplies (evaluateAll world.program (budget + 1) scopes expressions) record
      (List.Forall₂ (fun (expression : Expr .checked) => Present expression.type)
        expressions) := by
  unfold evaluateAll
  cases expressions with
  | nil => exact supplies_pure .nil
  | cons first rest =>
    refine supplied.evaluate_then (typed first (by simp)) ready
      fun value second steady _ here => ?_
    have others : ∀ other ∈ rest, ExprTyped world.seen scopes other :=
      fun other member => typed other (by simp [member])
    refine (supplied.evaluateAll others (ready.after steady)).bind fun values third later => ?_
    exact supplies_pure (.cons here later)

/-- One more unit of the budget supplies an initial value, which an integer must have. -/
theorem supplied_evaluateOptional (supplied : Supplied world budget) {type : Ty}
    {value : Option (Expr .checked)}
    (typed : ∀ expression, value = some expression → ExprTyped world.seen scopes expression ∧
      type.isAssignable expression.type = true)
    (given : type = .integer → value.isSome = true) (ready : Ready world record scopes) :
    Supplies (evaluateOptional world.program (budget + 1) scopes value) record
      (Present type) := by
  unfold evaluateOptional
  cases value with
  | none =>
    refine supplies_pure (present_of_ne fun integer => ?_)
    simpa using given integer
  | some expression =>
    obtain ⟨expressionTyped, assignable⟩ := typed expression rfl
    exact (supplied.evaluate expressionTyped ready).imp
      fun _ present => present.assign assignable

/-! ## Calls -/

/-- Parameters are defined with values that are there. -/
theorem supplies_parameters {index : Nat} {names : List String} :
    ∀ {types : List Ty} {values : List Value} (position : Nat) {scopes : Scopes}
      {record : Record}, List.Forall₂ Present types values →
      Supplies (defineParameters index scopes position names types values) record
        fun _ => True := by
  induction names with
  | nil =>
    intro types values position scopes record _
    unfold defineParameters
    exact supplies_pure trivial
  | cons name names inductionHypothesis =>
    intro types values position scopes record present
    unfold defineParameters
    cases present with
    | nil => exact supplies_pure trivial
    | cons here later =>
      exact (supplies_define here).bind fun _ _ _ => inductionHypothesis (position + 1) later

/-- The body of a function delivers what its statements do, behind parameters that are there. -/
theorem supplies_body (supplied : Supplied world budget) {before rest : List (FunctionDef .checked)}
    {definition : FunctionDef .checked} {site : Site} {arguments : List Value}
    (intact : Intact world record) (split : world.functions = before ++ definition :: rest)
    (typed : FunctionTyped world.seen world.program.bindings before definition)
    (here : definition.site world.program.bindings before = site)
    (knows : Knows world.functions site.scopes) (filled : Filled (Stmt.nestedOf definition.body))
    (passed : List.Forall₂ (Typed record.makers) definition.routine.parameters arguments)
    (present : List.Forall₂ Present definition.routine.parameters arguments) :
    Supplies (do
        defineParameters before.length ⟨[[]], world.program.bindings, site.scopes.functions⟩ 0
          definition.parameters definition.routine.parameters arguments
        executeBlock world.program budget site definition.body)
      (record.entering site.scopes (some 0))
      (Delivers definition.routine.result (Stmt.anyReturns definition.body)) := by
  refine supplies_then (parameters_kept intact split typed here knows passed)
    (supplies_parameters 0 present) ?_
  rintro _ middle ⟨_, standing⟩ _
  subst here
  exact supplied.executeBlock typed.body filled standing

/-- One more unit of the budget supplies calls, when every function of the program is definite.
-/
theorem supplied_invoke (definite : world.program.Definite) (supplied : Supplied world budget)
    {body : Body .checked} {arguments : List Value} (member : body ∈ bodies world.functions)
    (passed : List.Forall₂ (Typed record.makers) (signature body).parameters arguments)
    (present : List.Forall₂ Present (signature body).parameters arguments)
    (intact : Intact world record) :
    Supplies (invoke world.program (budget + 1) scopes (routineOf body) arguments) record
      (Present (signature body).result) := by
  unfold invoke
  rcases List.mem_cons.mp member with rfl | member
  · refine supplies_note.bind fun _ _ _ => ?_
    refine supplies_store.bind fun store _ _ => ?_
    refine supplies_outcome.bind fun text _ _ => ?_
    refine supplies_print.bind fun _ _ _ => ?_
    refine supplies_note.bind fun _ _ _ => ?_
    exact supplies_pure (present_of_ne (by simp [signature]))
  · obtain ⟨definition, inside, rfl⟩ := List.mem_map.mp member
    obtain ⟨before, rest, split, preceded, typed, knows⟩ := world.function inside
    have known : definition ∈ world.program.functions := world.known.subset inside
    have filled : Filled (Stmt.nestedOf definition.body) := fun statement nested =>
      definite.declarations statement (List.mem_flatMap.mpr ⟨definition, known, nested⟩)
    simp only [Routine.required, routineOf, preceded]
    refine supplies_then (note_steady intact passed) supplies_note ?_
    rintro _ first ⟨noted, _⟩ _
    refine supplies_then (perform_trace noted.intact) supplies_trace ?_
    rintro _ second traced _
    have still : List.Forall₂ (Typed second.makers) definition.routine.parameters arguments :=
      passed.imp fun _ _ typed => typed.grow (noted.trans traced).makers
    have body := supplies_body supplied traced.intact split typed rfl knows filled still present
    refine (supplies_inScope body).bind fun outcome third delivers => ?_
    refine supplies_note.bind fun _ fourth _ => ?_
    exact supplies_pure (delivers.value (definite.results definition known))

/-! ## Statements -/

/-- A declaration defines an integer only with a value that is there. -/
theorem supplied_declaration (supplied : Supplied world budget) {site : Site} {result type : Ty}
    {name : String} {typeName : Option String} {value : Option (Expr .checked)}
    (ready : Ready world record site.scopes)
    (typed : ∀ expression, value = some expression →
      ExprTyped world.seen site.scopes expression ∧ type.isAssignable expression.type = true)
    (given : type = .integer → value.isSome = true) :
    Supplies (execute world.program (budget + 1) site
        (.declaration ⟨name, type, true, ()⟩ name typeName value)) record
      (Delivers result false) := by
  unfold execute
  refine (supplied.evaluateOptional typed given ready).bind fun initial first present => ?_
  have defined : Supplies (perform site.scopes
      (·.bind ⟨.declaration site.path, ⟨name, type, true, ()⟩⟩)
      (Running.define name true initial)) first fun _ => True := supplies_define present
  refine defined.bind fun _ _ _ => ?_
  refine supplies_trace.bind fun _ _ _ => ?_
  exact supplies_pure rfl

/-- An assignment gives a variable a value that is there. -/
theorem supplied_assignVariable (supplied : Supplied world budget) {site : Site} {result : Ty}
    {name : String} {binding : Binding} {value : Expr .checked}
    (ready : Ready world record site.scopes) (found : site.scopes.find? name = some binding)
    (seen : world.seen site.scopes (.access binding.entry.type binding.entry name))
    (typed : ExprTyped world.seen site.scopes value)
    (assignable : binding.entry.type.isAssignable value.type = true) :
    Supplies (execute world.program (budget + 1) site
        (.assignment (.access binding.entry.type binding.entry name) value)) record
      (Delivers result false) := by
  unfold execute
  refine supplied.evaluate_then typed ready fun given first steady _ present => ?_
  have behind := ready.after steady
  refine resolving_then behind seen (behind.resolvesVariable found) fun second there => ?_
  refine supplies_then (discard_steady (perform_mutableOf there found))
    (supplies_discard supplies_mutableOf) ?_
  rintro _ third ⟨looked, _⟩ _
  have again := there.after looked
  refine resolving_then again seen (again.resolvesVariable found) fun fourth last => ?_
  refine (supplies_setVariable last found (present.assign assignable)).bind fun _ _ _ => ?_
  exact supplies_pure rfl

/-- An assignment gives an element a value that is there. -/
theorem supplied_assignElement (supplied : Supplied world budget) {site : Site}
    {result element : Ty} {name : String} {binding : Binding} {offset value : Expr .checked}
    (ready : Ready world record site.scopes) (found : site.scopes.find? name = some binding)
    (listed : binding.entry.type = .list element)
    (offsetTyped : ExprTyped world.seen site.scopes offset) (integer : offset.type = .integer)
    (seen : world.seen site.scopes (.element element binding.entry name offset))
    (typed : ExprTyped world.seen site.scopes value)
    (assignable : element.isAssignable value.type = true) :
    Supplies (execute world.program (budget + 1) site
        (.assignment (.element element binding.entry name offset) value)) record
      (Delivers result false) := by
  unfold execute
  refine supplied.evaluate_then typed ready fun given first steady _ present => ?_
  have behind := ready.after steady
  refine resolving_then behind seen (behind.resolvesVariable found) fun second there => ?_
  refine supplies_then (perform_mutableOf there found) supplies_mutableOf ?_
  rintro entry third ⟨looked, held⟩ _
  have list : Typed third.makers (.list element) entry.value :=
    listed ▸ held.typed.grow looked.makers
  refine supplies_then (perform_outcome looked.intact fun fault refused =>
    .inl (requireList_pardoned list refused)) supplies_outcome ?_
  rintro handle fourth ⟨tested, handled⟩ _
  have made := made_grow (requireList_made list handled) tested.makers
  refine supplied.evaluate_then offsetTyped ((there.after looked).after tested)
    fun index fifth indexed indexTyped _ => ?_
  rw [integer] at indexTyped
  refine supplies_then (perform_store indexed.intact) supplies_store ?_
  rintro store sixth ⟨stored, _⟩ _
  refine supplies_then (perform_outcome stored.intact fun fault refused =>
    .inl (requireIndex_pardoned (indexTyped.grow stored.makers) refused)) supplies_outcome ?_
  rintro place seventh ⟨placed, _⟩ _
  have later := (indexed.trans stored).trans placed
  refine (supplies_replace (made_grow made later.makers)
    (present.assign assignable)).bind fun _ _ _ => ?_
  exact supplies_pure rfl

/-- An assignment completes, and leaves no integer missing. -/
theorem supplied_assignment (supplied : Supplied world budget) {site : Site} {result : Ty}
    {receiver value : Expr .checked} (ready : Ready world record site.scopes)
    (place : receiver.isPlace = true) (receiverTyped : ExprTyped world.seen site.scopes receiver)
    (typed : ExprTyped world.seen site.scopes value)
    (assignable : receiver.type.isAssignable value.type = true) :
    Supplies (execute world.program (budget + 1) site (.assignment receiver value)) record
      (Delivers result false) := by
  cases receiverTyped with
  | access found seen =>
    exact supplied_assignVariable supplied ready found seen typed assignable
  | element found listed offsetTyped integer seen =>
    exact supplied_assignElement supplied ready found listed offsetTyped integer seen typed
      assignable
  | _ => simp [Expr.isPlace] at place

/-- A block in its own scope delivers what its statements deliver. -/
theorem supplied_block (supplied : Supplied world budget) {site : Site} {result : Ty}
    {number : Nat} {statements : List (Stmt .checked)}
    (standing : Standing world record site.scopes)
    (typed : BlockTyped world.seen result (site.block number) statements)
    (filled : Filled (Stmt.nestedOf statements)) :
    Supplies (inScope (site.block number).scopes none
        (executeBlock world.program budget (site.block number) statements)) record
      (Delivers result (Stmt.anyReturns statements)) :=
  supplies_inScope (supplied.executeBlock typed filled standing.entering)

/-- Both blocks return if the whole does. -/
theorem supplied_conditional (supplied : Supplied world budget) {site : Site} {result : Ty}
    {condition : Expr .checked} {thenBlock elseBlock : List (Stmt .checked)}
    (standing : Standing world record site.scopes)
    (typed : ExprTyped world.seen site.scopes condition) (boolean : condition.type = .boolean)
    (thenTyped : BlockTyped world.seen result (site.block 0) thenBlock)
    (elseTyped : BlockTyped world.seen result (site.block 1) elseBlock)
    (filled : Filled (Stmt.conditional condition thenBlock elseBlock).nested) :
    Supplies (execute world.program (budget + 1) site
        (.conditional condition thenBlock elseBlock)) record
      (Delivers result (Stmt.conditional condition thenBlock elseBlock).returns) := by
  obtain ⟨_, inside⟩ := List.forall_mem_cons.mp filled
  obtain ⟨thenFilled, elseFilled⟩ := List.forall_mem_append.mp inside
  unfold execute
  refine supplied.evaluate_then typed standing.ready fun value first steady holds _ => ?_
  rw [boolean] at holds
  refine supplies_then (perform_boolean steady.intact holds) supplies_outcome ?_
  rintro truth second ⟨tested, _⟩ _
  refine supplies_then (perform_trace tested.intact) supplies_trace ?_
  rintro _ third traced _
  have there := standing.after ((steady.trans tested).trans traced)
  cases truth with
  | true =>
    refine (supplied_block supplied there thenTyped thenFilled).imp fun outcome delivers => ?_
    refine delivers.imp fun both => ?_
    rw [Stmt.returns, Bool.and_eq_true] at both
    exact both.1
  | false =>
    refine (supplied_block supplied there elseTyped elseFilled).imp fun outcome delivers => ?_
    refine delivers.imp fun both => ?_
    rw [Stmt.returns, Bool.and_eq_true] at both
    exact both.2

/-- A switch delivers what its cases deliver, and returns when all of them do. -/
theorem supplied_switch (supplied : Supplied world budget) {site : Site} {result : Ty}
    {subject : Expr .checked} {cases : List (Case .checked)}
    (standing : Standing world record site.scopes)
    (typed : ExprTyped world.seen site.scopes subject)
    (casesTyped : CasesTyped world.seen result subject.type site 0 cases)
    (filled : Filled (Stmt.switch subject cases).nested) :
    Supplies (execute world.program (budget + 1) site (.switch subject cases)) record
      (Delivers result (Stmt.switch subject cases).returns) := by
  obtain ⟨_, inside⟩ := List.forall_mem_cons.mp filled
  unfold execute
  have entered : Standing world (record.entering site.scopes none) site.scopes.enter :=
    standing.entering
  have ready : Ready world (record.entering site.scopes none) site.scopes :=
    ⟨entered.intact, ⟨_, entered.sees, .inr rfl⟩, entered.knows⟩
  apply supplies_inScope
  refine supplied.evaluate_then typed ready fun value first steady _ _ => ?_
  exact supplied.executeCases casesTyped inside (entered.after steady) (ready.after steady)

/-- One more unit of the budget supplies statements. -/
theorem supplied_execute (supplied : Supplied world budget) {result : Ty} {site : Site}
    {statement : Stmt .checked} (typed : StmtTyped world.seen result site statement)
    (filled : Filled statement.nested) (standing : Standing world record site.scopes) :
    Supplies (execute world.program (budget + 1) site statement) record
      (Delivers result statement.returns) := by
  have ready := standing.ready
  cases typed with
  | expression typed =>
    unfold execute
    refine (supplies_discard (supplied.evaluate typed ready)).bind fun _ _ _ => ?_
    exact supplies_pure rfl
  | uninitialised fresh =>
    have other := filled _ (List.mem_singleton_self _)
    refine supplied_declaration supplied ready (by simp) fun integer => ?_
    simp [Stmt.leavesOpen, integer] at other
  | initialised fresh typed assignable =>
    refine supplied_declaration supplied ready ?_ fun _ => rfl
    rintro expression ⟨⟩
    exact ⟨typed, assignable⟩
  | assignment place receiverTyped typed assignable =>
    exact supplied_assignment supplied ready place receiverTyped typed assignable
  | conditional typed boolean thenTyped elseTyped =>
    exact supplied_conditional supplied standing typed boolean thenTyped elseTyped filled
  | switch typed casesTyped => exact supplied_switch supplied standing typed casesTyped filled
  | loop typed boolean bodyTyped =>
    obtain ⟨_, inside⟩ := List.forall_mem_cons.mp filled
    unfold execute
    exact supplied.repeatWhile typed boolean bodyTyped inside standing
  | returning typed assignable =>
    unfold execute
    refine (supplied.evaluate typed ready).bind fun value first present => ?_
    exact supplies_pure (present.assign assignable)

/-- One more unit of the budget supplies the statements of a block. -/
theorem supplied_executeBlock (supplied : Supplied world budget) {result : Ty} {site : Site}
    {statements : List (Stmt .checked)} (typed : BlockTyped world.seen result site statements)
    (filled : Filled (Stmt.nestedOf statements)) (standing : Standing world record site.scopes) :
    Supplies (executeBlock world.program (budget + 1) site statements) record
      (Delivers result (Stmt.anyReturns statements)) := by
  unfold executeBlock
  cases typed with
  | nil => exact supplies_pure rfl
  | @cons _ statement rest first later =>
    obtain ⟨here, others⟩ := List.forall_mem_append.mp filled
    refine supplies_then ((specs world budget).execute first standing)
      (supplied.execute first here standing) ?_
    rintro outcome middle ⟨_, _, further⟩ delivers
    cases outcome with
    | returning value => exact supplies_pure delivers
    | completed =>
      have completes : statement.returns = false := delivers
      rw [Stmt.anyReturns, completes, Bool.false_or]
      exact supplied.executeBlock later others (further rfl)

/-- One more unit of the budget supplies the cases of a switch. -/
theorem supplied_executeCases (supplied : Supplied world budget) {result subjectType : Ty}
    {site : Site} {number : Nat} {subject : Value} {cases : List (Case .checked)}
    (typed : CasesTyped world.seen result subjectType site number cases)
    (filled : Filled (Case.nestedOf cases))
    (standing : Standing world record site.scopes.enter) (ready : Ready world record site.scopes) :
    Supplies (executeCases world.program (budget + 1) site number subject cases) record
      (Delivers result (Case.allReturn cases)) := by
  unfold executeCases
  cases typed with
  | default typed =>
    obtain ⟨here, _⟩ := List.forall_mem_append.mp filled
    refine supplies_then (perform_trace standing.intact) supplies_trace ?_
    rintro _ first traced _
    rw [Case.allReturn, Case.allReturn, Bool.and_true]
    exact supplied.executeBlock typed here (standing.after traced)
  | labelled labelTyped _ typed rest =>
    obtain ⟨here, others⟩ := List.forall_mem_append.mp filled
    refine supplied.evaluate_then labelTyped ready fun label first steady _ _ => ?_
    refine supplies_then (perform_store steady.intact) supplies_store ?_
    rintro store second ⟨stored, _⟩ _
    have looked := steady.trans stored
    split
    · refine supplies_then (perform_trace stored.intact) supplies_trace ?_
      rintro _ third traced _
      have there := standing.after (looked.trans traced)
      refine (supplied.executeBlock typed here there).imp fun outcome delivers => ?_
      refine delivers.imp fun all => ?_
      rw [Case.allReturn, Bool.and_eq_true] at all
      exact all.1
    · refine (supplied.executeCases rest others (standing.after looked)
        (ready.after looked)).imp fun outcome delivers => ?_
      refine delivers.imp fun all => ?_
      rw [Case.allReturn, Bool.and_eq_true] at all
      exact all.2

/-- One more unit of the budget supplies loops. -/
theorem supplied_repeatWhile (supplied : Supplied world budget) {result : Ty} {site : Site}
    {condition : Expr .checked} {body : List (Stmt .checked)}
    (typed : ExprTyped world.seen site.scopes condition) (boolean : condition.type = .boolean)
    (bodyTyped : BlockTyped world.seen result (site.block 0) body)
    (filled : Filled (Stmt.nestedOf body)) (standing : Standing world record site.scopes) :
    Supplies (repeatWhile world.program (budget + 1) site condition body) record
      (Delivers result false) := by
  unfold repeatWhile
  refine supplied.evaluate_then typed standing.ready fun value first steady holds _ => ?_
  rw [boolean] at holds
  refine supplies_then (perform_boolean steady.intact holds) supplies_outcome ?_
  rintro truth second ⟨tested, _⟩ _
  have there := standing.after (steady.trans tested)
  cases truth with
  | false => exact supplies_pure rfl
  | true =>
    refine supplies_then (block_step (specs world budget) there bodyTyped)
      (supplied_block supplied there bodyTyped filled) ?_
    rintro outcome third ⟨ran, _⟩ delivers
    cases outcome with
    | returning value => exact supplies_pure delivers
    | completed => exact supplied.repeatWhile typed boolean bodyTyped filled (there.after ran)

/-! ## All parts -/

/-- In a definite program every part supplies what it should. -/
theorem supplied (definite : world.program.Definite) : ∀ budget : Nat, Supplied world budget
  | 0 =>
    { evaluate := fun _ _ => supplies_throw
      evaluateLogical := fun _ _ _ => supplies_throw
      evaluateAll := fun _ _ => supplies_throw
      invoke := fun _ _ _ _ => supplies_throw
      execute := fun _ _ _ => supplies_throw
      evaluateOptional := fun _ _ _ => supplies_throw
      executeBlock := fun _ _ _ => supplies_throw
      executeCases := fun _ _ _ _ => supplies_throw
      repeatWhile := fun _ _ _ _ _ => supplies_throw }
  | budget + 1 =>
    have smaller := supplied definite budget
    { evaluate := supplied_evaluate smaller
      evaluateLogical := supplied_evaluateLogical smaller
      evaluateAll := supplied_evaluateAll smaller
      invoke := supplied_invoke definite smaller
      execute := supplied_execute smaller
      evaluateOptional := supplied_evaluateOptional smaller
      executeBlock := supplied_executeBlock smaller
      executeCases := supplied_executeCases smaller
      repeatWhile := supplied_repeatWhile smaller }

end Chronicle

end Blockscript
