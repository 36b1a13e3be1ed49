import Blockscript.Proofs.Running.Steps
import Blockscript.Proofs.Typing.Programs

/-!
# Typed parts of a program keep the invariant

For every kind of part, what holds when it has been run: the value is of the static
type, the scopes are as the text has them, and a stop is one that may be met. All of
these are shown together by induction on the budget, since every part takes one from
the budget of the whole. The lemmas follow the functions that run a part, one each.
-/

namespace Blockscript.Chronicle

open Running (Body Machine Outcome Run Meets)

variable {world : World} {record : Record} {scopes : Scopes} {α β : Type} {budget : Nat}

/-! ## One part behind another -/

/-- Behind a part that keeps the invariant, another one starts from what it left. What the
two do to the scopes adds up. -/
theorem meets_then {action : Recorded α} {next : α → Recorded β} {given : α → Record → Prop}
    {result : β → Record → Prop} {earlier later whole : Record → Record → Prop}
    (kept : ∀ middle, earlier record middle → Kept world record middle)
    (whole_of : ∀ middle final, earlier record middle → later middle final → whole record final)
    (first : Meets action record
      (fun value middle => earlier record middle ∧ given value middle) (Halted world record))
    (rest : ∀ value middle, earlier record middle → given value middle →
      Meets (next value) middle
        (fun value final => later middle final ∧ result value final) (Halted world middle)) :
    Meets (action >>= next) record
      (fun value final => whole record final ∧ result value final) (Halted world record) := by
  rw [Running.meets_bind]
  refine first.imp ?_ fun _ _ halted => halted
  rintro value middle ⟨done, holds⟩
  refine (rest value middle done holds).imp ?_ ?_
  · rintro outcome final ⟨more, ends⟩
    exact ⟨whole_of middle final done more, ends⟩
  · intro stop final halted
    exact halted.since (kept middle done)

/-- Two steady actions in order are steady, and the second one may build on what the first one
gives. -/
theorem steady_then {action : Recorded α} {next : α → Recorded β} {given : α → Record → Prop}
    {result : β → Record → Prop}
    (first : Meets action record
      (fun value middle => Steady world record middle ∧ given value middle) (Halted world record))
    (rest : ∀ value middle, Steady world record middle → given value middle →
      Meets (next value) middle
        (fun value final => Steady world middle final ∧ result value final)
        (Halted world middle)) :
    Meets (action >>= next) record
      (fun value final => Steady world record final ∧ result value final)
      (Halted world record) :=
  meets_then (fun _ steady => steady.kept) (fun _ _ steady more => steady.trans more) first rest

/-- A steady action and one that keeps the outer scopes keep them in order. -/
theorem steady_then_kept {action : Recorded α} {next : α → Recorded β}
    {given : α → Record → Prop} {result : β → Record → Prop}
    (first : Meets action record
      (fun value middle => Steady world record middle ∧ given value middle) (Halted world record))
    (rest : ∀ value middle, Steady world record middle → given value middle →
      Meets (next value) middle
        (fun value final => Kept world middle final ∧ result value final)
        (Halted world middle)) :
    Meets (action >>= next) record
      (fun value final => Kept world record final ∧ result value final)
      (Halted world record) :=
  meets_then (fun _ steady => steady.kept) (fun _ _ steady more => steady.kept.trans more) first
    rest

/-- Two actions that keep the outer scopes keep them in order. -/
theorem kept_then {action : Recorded α} {next : α → Recorded β} {given : α → Record → Prop}
    {result : β → Record → Prop}
    (first : Meets action record
      (fun value middle => Kept world record middle ∧ given value middle) (Halted world record))
    (rest : ∀ value middle, Kept world record middle → given value middle →
      Meets (next value) middle
        (fun value final => Kept world middle final ∧ result value final)
        (Halted world middle)) :
    Meets (action >>= next) record
      (fun value final => Kept world record final ∧ result value final)
      (Halted world record) :=
  meets_then (fun _ kept => kept) (fun _ _ kept more => kept.trans more) first rest

/-- A step of which nothing else is said. -/
theorem only_steady {action : Recorded β}
    (meets : Meets action record (fun _ final => Steady world record final)
      (Halted world record)) :
    Meets action record (fun _ final => Steady world record final ∧ True)
      (Halted world record) :=
  meets.imp (fun _ _ steady => ⟨steady, trivial⟩) fun _ _ halted => halted

/-- To take a sound event down is steady. -/
theorem note_steady {event : Event} (intact : Intact world record)
    (sound : event.Sound world.program world.seen scopes record.state) :
    Meets (note scopes event) record
      (fun _ final => Steady world record final ∧ final = record.noting scopes event)
      (Halted world record) :=
  ⟨(Steady.refl intact).noting sound, rfl⟩

/-- Taking down that a name is about to be looked up, where it means what it should. -/
theorem resolving_steady {node : Expr .checked} (ready : Ready world record scopes)
    (seen : world.seen scopes node)
    (resolves : Resolves world.program scopes record.state node) :
    Meets (note scopes (.resolving node)) record
      (fun _ final => Steady world record final ∧
        final = record.noting scopes (.resolving node))
      (Halted world record) :=
  note_steady ready.intact ⟨seen, ready.aligned, resolves⟩

/-- To give a value is steady. -/
theorem pure_steady {value : β} {result : β → Record → Prop} (intact : Intact world record)
    (holds : result value record) :
    Meets (pure value) record
      (fun value final => Steady world record final ∧ result value final)
      (Halted world record) :=
  ⟨.refl intact, holds⟩

/-- An operation that computes a value of a type gives one. -/
theorem perform_computes {type : Ty} {outcome : Except RunFault Value}
    (intact : Intact world record)
    (computes : Computes record.makers type
      (fun fault => Excused record.moments (.fault fault)) outcome) :
    Meets (perform scopes id (Run.outcome outcome)) record
      (fun value final => Steady world record final ∧ Typed final.makers type value)
      (Halted world record) := by
  refine (perform_outcome intact computes.fault).imp ?_ fun _ _ halted => halted
  rintro value final ⟨steady, given⟩
  exact ⟨steady, (computes.value value given).grow steady.makers⟩

/-- The value of a statement: what it returns, if it returns. -/
def Ends (makers : List Ty) (result : Ty) : Outcome → Prop
  | .completed => True
  | .returning value => Typed makers result value

/-- What is shown of each kind of part, with a budget. -/
structure Specs (world : World) (budget : Nat) : Prop where
  evaluate : ∀ {scopes : Scopes} {expression : Expr .checked} {record : Record},
    ExprTyped world.seen scopes expression → Ready world record scopes →
    Meets (evaluate world.program budget scopes expression) record
      (fun value final => Steady world record final ∧ Typed final.makers expression.type value)
      (Halted world record)
  evaluateLogical : ∀ {scopes : Scopes} {operator : Operator} {left : Value}
    {right : Expr .checked} {record : Record},
    Typed record.makers .boolean left → ExprTyped world.seen scopes right →
    right.type = .boolean → Ready world record scopes →
    Meets (evaluateLogical world.program budget scopes operator left right) record
      (fun value final => Steady world record final ∧ Typed final.makers .boolean value)
      (Halted world record)
  evaluateAll : ∀ {scopes : Scopes} {expressions : List (Expr .checked)} {record : Record},
    (∀ expression ∈ expressions, ExprTyped world.seen scopes expression) →
    Ready world record scopes →
    Meets (evaluateAll world.program budget scopes expressions) record
      (fun values final => Steady world record final ∧
        List.Forall₂ (fun (expression : Expr .checked) value =>
          Typed final.makers expression.type value) expressions values)
      (Halted world record)
  invoke : ∀ {scopes : Scopes} {body : Body .checked} {arguments : List Value} {record : Record},
    body ∈ bodies world.functions →
    List.Forall₂ (Typed record.makers) (signature body).parameters arguments →
    Intact world record →
    Meets (invoke world.program budget scopes (routineOf body) arguments) record
      (fun value final => Steady world record final ∧
        Typed final.makers (signature body).result value)
      (Halted world record)
  execute : ∀ {result : Ty} {site : Site} {statement : Stmt .checked} {record : Record},
    StmtTyped world.seen result site statement → Standing world record site.scopes →
    Meets (execute world.program budget site statement) record
      (fun outcome final => Kept world record final ∧ Ends final.makers result outcome ∧
        (outcome = .completed → Standing world final (site.after statement).scopes))
      (Halted world record)
  evaluateOptional : ∀ {scopes : Scopes} {type : Ty} {value : Option (Expr .checked)}
    {record : Record},
    (∀ expression, value = some expression → ExprTyped world.seen scopes expression ∧
      type.isAssignable expression.type = true) →
    Ready world record scopes →
    Meets (evaluateOptional world.program budget scopes value) record
      (fun value final => Steady world record final ∧ Typed final.makers type value)
      (Halted world record)
  executeBlock : ∀ {result : Ty} {site : Site} {statements : List (Stmt .checked)}
    {record : Record},
    BlockTyped world.seen result site statements → Standing world record site.scopes →
    Meets (executeBlock world.program budget site statements) record
      (fun outcome final => Kept world record final ∧ Ends final.makers result outcome)
      (Halted world record)
  executeCases : ∀ {result subjectType : Ty} {site : Site} {number : Nat} {subject : Value}
    {cases : List (Case .checked)} {record : Record},
    CasesTyped world.seen result subjectType site number cases →
    Standing world record site.scopes.enter → Ready world record site.scopes →
    Meets (executeCases world.program budget site number subject cases) record
      (fun outcome final => Kept world record final ∧ Ends final.makers result outcome)
      (Halted world record)
  repeatWhile : ∀ {result : Ty} {site : Site} {condition : Expr .checked}
    {body : List (Stmt .checked)} {record : Record},
    ExprTyped world.seen site.scopes condition → condition.type = .boolean →
    BlockTyped world.seen result (site.block 0) body → Standing world record site.scopes →
    Meets (repeatWhile world.program budget site condition body) record
      (fun outcome final => Steady world record final ∧ Ends final.makers result outcome)
      (Halted world record)

/-- Without a budget nothing is run. -/
theorem meets_exhausted {post : β → Record → Prop} (intact : Intact world record) :
    Meets (throw .exhausted) record post (Halted world record) :=
  ⟨intact, rfl, rfl, trivial⟩

/-! ## Expressions -/

/-- To take down a value of the type of its expression is steady. -/
theorem giving_steady {expression : Expr .checked} {action : Recorded Value}
    (meets : Meets action record
      (fun value final => Steady world record final ∧ Typed final.makers expression.type value)
      (Halted world record)) :
    Meets (giving scopes expression action) record
      (fun value final => Steady world record final ∧ Typed final.makers expression.type value)
      (Halted world record) := by
  refine steady_then meets fun value middle steady typed => ?_
  refine steady_then (note_steady steady.intact typed) fun _ final noted same => ?_
  refine pure_steady noted.intact ?_
  rw [same]
  exact typed

/-- An action whose value is not needed is steady when the action is. -/
theorem discard_steady {action : Recorded β} {given : β → Record → Prop}
    (meets : Meets action record
      (fun value final => Steady world record final ∧ given value final) (Halted world record)) :
    Meets (discard action) record (fun _ final => Steady world record final ∧ True)
      (Halted world record) :=
  Running.meets_discard.mpr
    (meets.imp (fun _ _ done => ⟨done.1, trivial⟩) fun _ _ halted => halted)

/-- The operands of a logical operator that has a type are truth values. -/
theorem logicalType_ok {operator : Operator} {left right type : Ty}
    (logical : operator = .and ∨ operator = .or)
    (typed : Typing.operatorType operator left right = .ok type) :
    left = .boolean ∧ right = .boolean ∧ type = .boolean := by
  have same : Typing.operatorType operator left right =
      if left = .boolean && right = .boolean then .ok .boolean
      else .error (.notBoolean operator left right) := by
    rcases logical with rfl | rfl <;> rfl
  rw [same] at typed
  split at typed
  · next booleans =>
    cases typed
    simp only [Bool.and_eq_true, decide_eq_true_eq] at booleans
    exact ⟨booleans.1, booleans.2, rfl⟩
  · cases typed

/-- An operator that needs both values computes from them what its type says. -/
theorem eager_step (specs : Specs world budget) {type : Ty} {text : String}
    {leftNode rightNode : Expr .checked} {left : Value} {operator : Operator}
    (parsed : Operator.ofText? text = some operator)
    (eager : operator ≠ .and ∧ operator ≠ .or)
    (typed : Typing.binaryType text leftNode.type rightNode.type = .ok type)
    (leftTyped : Typed record.makers leftNode.type left)
    (rightTyped : ExprTyped world.seen scopes rightNode) (ready : Ready world record scopes) :
    Meets (do
        let right ← evaluate world.program budget scopes rightNode
        let store ← perform scopes id Run.store
        note scopes (.operands (.binary type text leftNode rightNode) left right)
        perform scopes id (Run.outcome (Running.apply store text left right))) record
      (fun value final => Steady world record final ∧ Typed final.makers type value)
      (Halted world record) := by
  refine steady_then (specs.evaluate rightTyped ready) fun right first steady rightHolds => ?_
  refine steady_then (perform_store steady.intact) fun store second stored _ => ?_
  refine steady_then (note_steady stored.intact trivial) fun _ third noted same => ?_
  have later := stored.trans noted
  refine perform_computes noted.intact ((apply_computes parsed eager typed
    (leftTyped.grow (steady.trans later).makers) (rightHolds.grow later.makers)).imp ?_)
  intro fault admitted
  refine admitted.imp_right fun blamed => ⟨⟨.operands (.binary type text leftNode rightNode)
    left right, scopes, second.state⟩, ?_, operator, parsed, blamed⟩
  rw [same]
  exact List.mem_append_right _ (List.mem_singleton_self _)

/-- With one more unit of the budget an operation gives a value of its type. -/
theorem evaluate_binary_step (specs : Specs world budget) {type : Ty} {text : String}
    {left right : Expr .checked} (leftTyped : ExprTyped world.seen scopes left)
    (rightTyped : ExprTyped world.seen scopes right)
    (typed : Typing.binaryType text left.type right.type = .ok type)
    (ready : Ready world record scopes) :
    Meets (evaluate world.program (budget + 1) scopes (.binary type text left right)) record
      (fun value final => Steady world record final ∧ Typed final.makers type value)
      (Halted world record) := by
  unfold evaluate
  apply giving_steady
  refine steady_then (specs.evaluate leftTyped ready) fun value first steady leftHolds => ?_
  have readyMore := ready.after steady
  cases parsed : Operator.ofText? text with
  | none => simp [Typing.binaryType, parsed] at typed
  | some operator =>
    by_cases logical : operator = .and ∨ operator = .or
    · have operatorTyped := typed
      simp only [Typing.binaryType, parsed] at operatorTyped
      obtain ⟨leftBoolean, rightBoolean, rfl⟩ := logicalType_ok logical operatorTyped
      rw [leftBoolean] at leftHolds
      rcases logical with rfl | rfl
      · exact specs.evaluateLogical leftHolds rightTyped rightBoolean readyMore
      · exact specs.evaluateLogical leftHolds rightTyped rightBoolean readyMore
    · have eager : operator ≠ .and ∧ operator ≠ .or := not_or.mp logical
      have step := eager_step specs parsed eager typed leftHolds rightTyped readyMore
      cases operator with
      | and => exact absurd rfl eager.1
      | or => exact absurd rfl eager.2
      | _ => exact step

/-- What holds of the arguments under their own types, and goes through assignments, holds of
them under the types of the parameters. -/
theorem arguments_hold {holds : Ty → Value → Prop} {parameters : List Ty}
    {arguments : List (Expr .checked)} {values : List Value}
    (assign : ∀ {source target : Ty} {value : Value}, holds source value →
      target.isAssignable source = true → holds target value)
    (assignable : List.Forall₂
      (fun parameter (argument : Expr .checked) => parameter.isAssignable argument.type = true)
      parameters arguments)
    (held : List.Forall₂ (fun (argument : Expr .checked) value => holds argument.type value)
      arguments values) :
    List.Forall₂ holds parameters values := by
  induction assignable generalizing values with
  | nil =>
    cases held
    exact .nil
  | cons here _ inductionHypothesis =>
    cases held with
    | cons first later => exact .cons (assign first here) (inductionHypothesis later)

/-- What holds of the elements under their own types, and goes through assignments, holds of
them under the element type of the list. -/
theorem elements_hold {holds : Ty → Value → Prop} {element : Ty}
    {elements : List (Expr .checked)} {values : List Value}
    (assign : ∀ {source target : Ty} {value : Value}, holds source value →
      target.isAssignable source = true → holds target value)
    (assignable : ∀ inner ∈ elements, element.isAssignable inner.type = true)
    (held : List.Forall₂ (fun (inner : Expr .checked) value => holds inner.type value)
      elements values) :
    ∀ value ∈ values, holds element value := by
  induction held with
  | nil => simp
  | @cons inner value elements values here _ inductionHypothesis =>
    intro other member
    rcases List.mem_cons.mp member with rfl | later
    · exact assign here (assignable inner (by simp))
    · exact inductionHypothesis (fun more inside => assignable more (by simp [inside])) other later

/-- With one more unit of the budget an expression gives a value of its type. -/
theorem evaluate_step (specs : Specs world budget) {expression : Expr .checked}
    (typed : ExprTyped world.seen scopes expression) (ready : Ready world record scopes) :
    Meets (evaluate world.program (budget + 1) scopes expression) record
      (fun value final => Steady world record final ∧ Typed final.makers expression.type value)
      (Halted world record) := by
  cases typed with
  | binary leftTyped rightTyped binaryTyped =>
    exact evaluate_binary_step specs leftTyped rightTyped binaryTyped ready
  | literal literalTyped =>
    unfold evaluate
    apply giving_steady
    obtain ⟨value, computed, valueTyped⟩ := literalValue_typed literalTyped
    refine perform_computes ready.intact ?_
    rw [computed]
    exact computes_ok valueTyped
  | group inner =>
    unfold evaluate
    exact giving_steady (specs.evaluate inner ready)
  | @access name binding found seen =>
    unfold evaluate
    apply giving_steady
    refine steady_then
      (resolving_steady ready seen (ready.resolvesVariable found)) fun _ first noted _ => ?_
    refine steady_then (perform_variableOf (ready.after noted) found)
      fun entry second steady held => ?_
    exact pure_steady steady.intact (held.typed.grow steady.makers)
  | @element name binding element offset found listed offsetTyped integer seen =>
    unfold evaluate
    apply giving_steady
    refine steady_then
      (resolving_steady ready seen (ready.resolvesVariable found)) fun _ first noted _ => ?_
    refine steady_then (discard_steady (perform_variableOf (ready.after noted) found))
      fun _ second discarded _ => ?_
    have readyOffset := (ready.after noted).after discarded
    refine steady_then (specs.evaluate offsetTyped readyOffset)
      fun index third indexed indexTyped => ?_
    have readyAgain := readyOffset.after indexed
    refine steady_then (resolving_steady readyAgain seen (readyAgain.resolvesVariable found))
      fun _ fourth notedAgain _ => ?_
    refine steady_then (perform_variableOf (readyAgain.after notedAgain) found)
      fun entry fifth steady held => ?_
    have holds : Typed fifth.makers (.list element) entry.value :=
      listed ▸ held.typed.grow steady.makers
    have inside : Typed fifth.makers .integer index :=
      integer ▸ indexTyped.grow (notedAgain.trans steady).makers
    exact (perform_elementAt steady.intact holds inside).imp
      (fun _ _ done => ⟨done.1, done.2.grow done.1.makers⟩) fun _ _ halted => halted
  | @call name routine result arguments found settled argumentsTyped assignable seen =>
    unfold evaluate
    apply giving_steady
    refine steady_then (resolving_steady ready seen (ready.resolvesFunction found settled))
      fun _ first noted _ => ?_
    refine steady_then (perform_lookupFunction (ready.after noted) found)
      fun called second steady means => ?_
    obtain ⟨body, member, rfl, means⟩ := means
    refine steady_then
      (specs.evaluateAll argumentsTyped ((ready.after noted).after steady))
      fun values third evaluated valuesTyped => ?_
    have passed : List.Forall₂ (Typed third.makers) (signature body).parameters values := by
      rw [← means.parameters]
      exact arguments_hold Typed.assign assignable valuesTyped
    have same : result = (signature body).result := means.result result (by simp [settled])
    rw [Expr.type, same]
    exact specs.invoke member passed evaluated.intact
  | @list element elements elementsTyped assignable =>
    unfold evaluate
    apply giving_steady
    refine steady_then (specs.evaluateAll elementsTyped ready)
      fun values first steady valuesTyped => ?_
    exact perform_allocate steady.intact (elements_hold Typed.assign assignable valuesTyped)

/-- A test on a truth value is met by nil alone. -/
theorem perform_boolean {context : String} {value : Value} (intact : Intact world record)
    (typed : Typed record.makers .boolean value) :
    Meets (perform scopes id (Run.outcome (Running.requireBoolean context value))) record
      (fun _ final => Steady world record final ∧ True) (Halted world record) := by
  refine (perform_outcome intact ?_).imp (fun _ _ done => ⟨done.1, trivial⟩)
    fun _ _ halted => halted
  exact fun fault refused => .inl (requireBoolean_pardoned typed refused)

/-- With one more unit of the budget a logical operation gives a truth value. -/
theorem evaluateLogical_step (specs : Specs world budget) {operator : Operator} {left : Value}
    {right : Expr .checked} (leftTyped : Typed record.makers .boolean left)
    (rightTyped : ExprTyped world.seen scopes right) (boolean : right.type = .boolean)
    (ready : Ready world record scopes) :
    Meets (evaluateLogical world.program (budget + 1) scopes operator left right) record
      (fun value final => Steady world record final ∧ Typed final.makers .boolean value)
      (Halted world record) := by
  unfold evaluateLogical
  refine steady_then (perform_boolean ready.intact leftTyped) fun truth first steady _ => ?_
  by_cases settled : Running.settles operator truth = true
  · rw [if_pos settled]
    exact pure_steady steady.intact .boolean
  · rw [if_neg settled]
    refine steady_then (specs.evaluate rightTyped (ready.after steady))
      fun value second evaluated typed => ?_
    rw [boolean] at typed
    refine steady_then (perform_boolean evaluated.intact typed) fun truth third tested _ => ?_
    exact pure_steady tested.intact .boolean

/-- With one more unit of the budget several expressions give values of their types. -/
theorem evaluateAll_step (specs : Specs world budget) {expressions : List (Expr .checked)}
    (typed : ∀ expression ∈ expressions, ExprTyped world.seen scopes expression)
    (ready : Ready world record scopes) :
    Meets (evaluateAll world.program (budget + 1) scopes expressions) record
      (fun values final => Steady world record final ∧
        List.Forall₂ (fun (expression : Expr .checked) value =>
          Typed final.makers expression.type value) expressions values)
      (Halted world record) := by
  unfold evaluateAll
  cases expressions with
  | nil => exact pure_steady ready.intact .nil
  | cons first rest =>
    refine steady_then (specs.evaluate (typed first (by simp)) ready)
      fun value second steady here => ?_
    refine steady_then
      (specs.evaluateAll (fun other member => typed other (by simp [member]))
        (ready.after steady))
      fun values third steadyMore later => ?_
    exact pure_steady steadyMore.intact (.cons (here.grow steadyMore.makers) later)

/-- With one more unit of the budget an initial value is of the type that is asked for. -/
theorem evaluateOptional_step (specs : Specs world budget) {type : Ty}
    {value : Option (Expr .checked)}
    (typed : ∀ expression, value = some expression → ExprTyped world.seen scopes expression ∧
      type.isAssignable expression.type = true)
    (ready : Ready world record scopes) :
    Meets (evaluateOptional world.program (budget + 1) scopes value) record
      (fun value final => Steady world record final ∧ Typed final.makers type value)
      (Halted world record) := by
  unfold evaluateOptional
  cases value with
  | none => exact pure_steady ready.intact .nil
  | some expression =>
    obtain ⟨expressionTyped, assignable⟩ := typed expression rfl
    exact (specs.evaluate expressionTyped ready).imp
      (fun _ _ done => ⟨done.1, done.2.assign assignable⟩) fun _ _ halted => halted

/-! ## Calls -/

/-- Without a step nothing changes. -/
theorem Kept.refl (intact : Intact world record) : Kept world record record :=
  (Steady.refl intact).kept

/-- The parameters of a call are defined in order, next to those before them. -/
theorem defineParameters_kept {index : Nat} {names : List String} :
    ∀ {types : List Ty} {values : List Value} (position : Nat) {scopes : Scopes}
      {record : Record}, Standing world record scopes → names.length = types.length →
      names.Nodup → (∀ name ∈ names, scopes.innermost.find? (Binding.isNamed name) = none) →
      List.Forall₂ (Typed record.makers) types values →
      Meets (defineParameters index scopes position names types values) record
        (fun _ final => Kept world record final ∧
          Standing world final
            (scopes.extend (Typing.parameterBindings index position names types)))
        (Halted world record) := by
  induction names with
  | nil =>
    intro types values position scopes record standing lengths _ _ _
    obtain rfl := List.length_eq_zero_iff.mp lengths.symm
    unfold defineParameters
    rw [Running.meets_pure]
    refine ⟨.refl standing.intact, ?_⟩
    simpa [Typing.parameterBindings, Scopes.extend_nil] using standing
  | cons name names inductionHypothesis =>
    intro types values position scopes record standing lengths distinct fresh typed
    cases typed with
    | nil => simp at lengths
    | @cons type value types values here later =>
      unfold defineParameters
      simp only [List.head?_cons, Option.getD_some, List.tail_cons]
      obtain ⟨unused, distinct⟩ := List.nodup_cons.mp distinct
      have held : Held record.makers ⟨name, .any, true, value⟩
          ⟨.parameter index position, ⟨name, type, true, ()⟩⟩ := ⟨rfl, rfl, here⟩
      refine kept_then (perform_define standing (fresh name (by simp)) held)
        fun _ middle kept standing => ?_
      have free : ∀ other ∈ names,
          (scopes.declare ⟨.parameter index position, ⟨name, type, true, ()⟩⟩).innermost.find?
            (Binding.isNamed other) = none := by
        intro other member
        have differ : name ≠ other := by
          rintro rfl
          exact unused member
        rw [Scopes.declare, Scopes.innermost_extend, List.find?_append,
          fresh other (by simp [member])]
        simp [Binding.isNamed, differ]
      have rest := inductionHypothesis (position + 1) standing (Nat.succ.inj lengths) distinct free
        (later.imp fun _ _ typed => typed.grow kept.makers)
      rw [Typing.parameterBindings_cons]
      simpa only [Scopes.declare, Scopes.extend_extend, List.singleton_append] using rest

/-- The value of a call is of the result type of its function. -/
theorem Ends.value {makers : List Ty} {result : Ty} {outcome : Outcome}
    (ends : Ends makers result outcome) : Typed makers result outcome.value := by
  cases outcome with
  | completed => exact .nil
  | returning value => exact ends

/-- The functions in front of one are those that its text stands behind. -/
theorem preceding_eq {program : Program .checked} {seen : Scopes → Expr .checked → Prop}
    (typed : ProgramTyped seen program) {before after : List (FunctionDef .checked)}
    {definition : FunctionDef .checked}
    (split : program.functions = before ++ definition :: after) :
    preceding program definition = before := by
  have passed : ∀ other ∈ before,
      (!(other.name = definition.name && other.arity = definition.arity)) = true := by
    intro other member
    have lengths := typed.lengths other (by simp [split, member])
    have fresh := List.find?_eq_none.mp (typed.functions _ definition after split).fresh
      other.settled (List.mem_cons_of_mem _ (List.mem_map_of_mem member))
    rw [Bool.not_eq_true', FunctionDef.arity, lengths]
    exact Bool.eq_false_iff.mpr fresh
  rw [preceding, split, List.takeWhile_append_of_pos passed, List.takeWhile_cons_of_neg (by simp),
    List.append_nil]

/-- Functions that have been checked are what calls of them run. -/
theorem meant_settled {functions : List (FunctionDef .checked)}
    (lengths : ∀ other ∈ functions, other.parameters.length = other.routine.parameters.length) :
    List.Forall₂ Meant (Typing.printSignature :: functions.map FunctionDef.settled)
      (bodies functions) := by
  refine .cons ⟨rfl, rfl, rfl, by simp [Typing.printSignature, signature]⟩ ?_
  rw [List.forall₂_map_left_iff, List.forall₂_map_right_iff, List.forall₂_same]
  intro other member
  refine ⟨rfl, ?_, rfl, ?_⟩
  · simp [FunctionDef.settled, Routine.arity, routineOf, lengths other member]
  · simp [FunctionDef.settled, signature]

/-- Inside of a function those before it are known, and it itself. -/
theorem knows_site {before rest : List (FunctionDef .checked)} {definition : FunctionDef .checked}
    {root : List Binding}
    (lengths : ∀ other ∈ before ++ [definition],
      other.parameters.length = other.routine.parameters.length) :
    Knows (before ++ definition :: rest) (definition.site root before).scopes := by
  refine ⟨bodies (before ++ [definition]), ⟨rest.map fun other => .script other 0, ?_⟩, ?_⟩
  · simp [bodies]
  · have own : Meant definition.own (.script definition 0) := by
      refine ⟨rfl, ?_, rfl, ?_⟩
      · simp [FunctionDef.own, Routine.arity, routineOf, lengths definition (by simp)]
      · intro result declared
        simp only [FunctionDef.own, Option.mem_def] at declared
        split at declared
        · exact (Option.some.inj declared).symm
        · cases declared
    have others := meant_settled fun other member => lengths other (List.mem_append_left _ member)
    have shape : bodies (before ++ [definition]) = bodies before ++ [.script definition 0] := by
      simp [bodies]
    rw [shape]
    exact List.rel_append others (.cons own .nil)

/-- The body of a function stands in the root, wherever it is called from. -/
theorem Intact.body {before rest : List (FunctionDef .checked)} {definition : FunctionDef .checked}
    (intact : Intact world record) (split : world.functions = before ++ definition :: rest)
    (knows : Knows world.functions (definition.site world.program.bindings before).scopes) :
    Standing world
      (record.entering (definition.site world.program.bindings before).scopes (some 0))
      ⟨[[]], world.program.bindings,
        (definition.site world.program.bindings before).scopes.functions⟩ := by
  have root : world.root = world.program.bindings := world.ready (by simp [split])
  refine @Intact.standing world record _ (some 0) ⟨[], world.program.bindings,
    (definition.site world.program.bindings before).scopes.functions⟩ intact intact.occupied ?_
    knows
  exact .root (root ▸ intact.rooted.level)

/-- The functions in front of one that has been defined, which its text stands behind. -/
theorem World.function (world : World) {definition : FunctionDef .checked}
    (member : definition ∈ world.functions) :
    ∃ before rest, world.functions = before ++ definition :: rest ∧
      preceding world.program definition = before ∧
      FunctionTyped world.seen world.program.bindings before definition ∧
      Knows world.functions (definition.site world.program.bindings before).scopes := by
  obtain ⟨before, rest, split⟩ := List.append_of_mem member
  obtain ⟨more, whole⟩ := world.known
  have stands : world.program.functions = before ++ definition :: (rest ++ more) := by
    rw [← whole, split]
    simp
  refine ⟨before, rest, split, preceding_eq world.typed stands,
    world.typed.functions before definition _ stands, ?_⟩
  rw [split]
  refine knows_site fun other inside => world.typed.lengths other ?_
  rw [stands]
  simp only [List.mem_append, List.mem_cons, List.not_mem_nil, or_false] at inside ⊢
  tauto

/-- Behind its parameters the body of a function stands in the scopes that the text has
there. -/
theorem parameters_kept {before rest : List (FunctionDef .checked)}
    {definition : FunctionDef .checked} {site : Site} {arguments : List Value}
    (intact : Intact world record) (split : world.functions = before ++ definition :: rest)
    (typed : FunctionTyped world.seen world.program.bindings before definition)
    (here : definition.site world.program.bindings before = site)
    (knows : Knows world.functions site.scopes)
    (passed : List.Forall₂ (Typed record.makers) definition.routine.parameters arguments) :
    Meets (defineParameters before.length
        ⟨[[]], world.program.bindings, site.scopes.functions⟩ 0
        definition.parameters definition.routine.parameters arguments)
      (record.entering site.scopes (some 0))
      (fun _ final => Kept world (record.entering site.scopes (some 0)) final ∧
        Standing world final site.scopes)
      (Halted world (record.entering site.scopes (some 0))) := by
  subst here
  have behind := congrArg Site.scopes
    (Typing.site_definedScopes world.program.bindings before definition)
  refine (defineParameters_kept 0 (intact.body split knows) typed.lengths typed.distinct
    (by simp [Scopes.innermost]) passed).imp ?_ fun _ _ halted => halted
  rintro _ final ⟨kept, standing⟩
  refine ⟨kept, ?_⟩
  rw [behind]
  exact standing

/-- The body of a function runs behind its parameters. -/
theorem body_kept (specs : Specs world budget) {before rest : List (FunctionDef .checked)}
    {definition : FunctionDef .checked} {site : Site} {arguments : List Value}
    (intact : Intact world record) (split : world.functions = before ++ definition :: rest)
    (typed : FunctionTyped world.seen world.program.bindings before definition)
    (here : definition.site world.program.bindings before = site)
    (knows : Knows world.functions site.scopes)
    (passed : List.Forall₂ (Typed record.makers) definition.routine.parameters arguments) :
    Meets (do
        defineParameters before.length ⟨[[]], world.program.bindings, site.scopes.functions⟩ 0
          definition.parameters definition.routine.parameters arguments
        executeBlock world.program budget site definition.body)
      (record.entering site.scopes (some 0))
      (fun outcome final => Kept world (record.entering site.scopes (some 0)) final ∧
        Ends final.makers definition.routine.result outcome)
      (Halted world (record.entering site.scopes (some 0))) := by
  refine kept_then (parameters_kept intact split typed here knows passed)
    fun _ middle _ standing => ?_
  subst here
  exact specs.executeBlock typed.body standing

/-- With one more unit of the budget a call gives a value of the type of its result. -/
theorem invoke_step (specs : Specs world budget) {body : Body .checked} {arguments : List Value}
    (member : body ∈ bodies world.functions)
    (passed : List.Forall₂ (Typed record.makers) (signature body).parameters arguments)
    (intact : Intact world record) :
    Meets (invoke world.program (budget + 1) scopes (routineOf body) arguments) record
      (fun value final => Steady world record final ∧
        Typed final.makers (signature body).result value)
      (Halted world record) := by
  unfold invoke
  rcases List.mem_cons.mp member with rfl | member
  · refine steady_then (note_steady intact passed) fun _ first noted _ => ?_
    refine steady_then (perform_store noted.intact) fun store second stored _ => ?_
    refine steady_then
      (perform_outcome stored.intact fun _ refused => .inl (written_pardoned refused))
      fun text third wrote _ => ?_
    refine steady_then (only_steady (perform_print wrote.intact)) fun _ fourth printed _ => ?_
    refine steady_then (note_steady printed.intact .nil) fun _ fifth answered _ => ?_
    exact pure_steady answered.intact .nil
  · obtain ⟨definition, inside, rfl⟩ := List.mem_map.mp member
    obtain ⟨before, rest, split, preceded, typed, knows⟩ := world.function inside
    simp only [Routine.required, routineOf, preceded]
    refine steady_then (note_steady intact passed) fun _ first noted _ => ?_
    refine steady_then (only_steady (perform_trace noted.intact)) fun _ second traced _ => ?_
    have inside := body_kept specs traced.intact split typed rfl knows
      (passed.imp fun _ _ typed => typed.grow (noted.trans traced).makers)
    refine steady_then
      (meets_inScope (Ends · definition.routine.result ·) traced.intact inside)
      fun outcome third ran ends => ?_
    refine steady_then (note_steady ran.intact ends.value) fun _ fourth answered same => ?_
    refine pure_steady answered.intact ?_
    rw [same]
    exact ends.value

/-! ## Statements -/

/-- What is shown of a statement that leaves no binding behind. -/
theorem steady_statement {action : Recorded Outcome} {result : Ty}
    (standing : Standing world record scopes)
    (meets : Meets action record
      (fun outcome final => Steady world record final ∧ Ends final.makers result outcome)
      (Halted world record)) :
    Meets action record
      (fun outcome final => Kept world record final ∧ Ends final.makers result outcome ∧
        (outcome = .completed → Standing world final scopes))
      (Halted world record) := by
  refine meets.imp ?_ fun _ _ halted => halted
  rintro outcome final ⟨steady, ends⟩
  exact ⟨steady.kept, ends, fun _ => standing.after steady⟩

/-- A declaration adds its variable to the current scope, and the run stands behind it as the
text does. -/
theorem declaration_step (specs : Specs world budget) {site : Site} {result type : Ty}
    {name : String} {typeName : Option String} {value : Option (Expr .checked)}
    (standing : Standing world record site.scopes)
    (fresh : site.scopes.innermost.find? (Binding.isNamed name) = none)
    (typed : ∀ expression, value = some expression →
      ExprTyped world.seen site.scopes expression ∧ type.isAssignable expression.type = true) :
    Meets (execute world.program (budget + 1) site
        (.declaration ⟨name, type, true, ()⟩ name typeName value)) record
      (fun outcome final => Kept world record final ∧ Ends final.makers result outcome ∧
        (outcome = .completed → Standing world final
          (site.after (.declaration ⟨name, type, true, ()⟩ name typeName value)).scopes))
      (Halted world record) := by
  unfold execute
  refine steady_then_kept (specs.evaluateOptional typed standing.ready)
    fun initial first steady holds => ?_
  have held : Held first.makers ⟨name, initial.kind, true, initial⟩
      ⟨.declaration site.path, ⟨name, type, true, ()⟩⟩ := ⟨rfl, rfl, holds⟩
  refine kept_then (perform_define (standing.after steady) fresh held)
    fun _ second _ declared => ?_
  refine steady_then_kept (only_steady (perform_trace declared.intact)) fun _ third traced _ => ?_
  exact ⟨.refl traced.intact, trivial, fun _ => declared.after traced⟩

/-- An assignment to a variable puts a value of its type there. -/
theorem assignVariable_step (specs : Specs world budget) {site : Site} {result : Ty}
    {name : String} {binding : Binding} {value : Expr .checked}
    (standing : Standing world record site.scopes)
    (found : site.scopes.find? name = some binding)
    (seen : world.seen site.scopes (.access binding.entry.type binding.entry name))
    (typed : ExprTyped world.seen site.scopes value)
    (assignable : binding.entry.type.isAssignable value.type = true) :
    Meets (execute world.program (budget + 1) site
        (.assignment (.access binding.entry.type binding.entry name) value)) record
      (fun outcome final => Steady world record final ∧ Ends final.makers result outcome)
      (Halted world record) := by
  unfold execute
  refine steady_then (specs.evaluate typed standing.ready) fun given first steady holds => ?_
  have ready := standing.ready.after steady
  refine steady_then (resolving_steady ready seen (ready.resolvesVariable found))
    fun _ second noted _ => ?_
  refine steady_then (discard_steady (perform_mutableOf (ready.after noted) found))
    fun _ third looked _ => ?_
  have readyAgain := (ready.after noted).after looked
  refine steady_then (resolving_steady readyAgain seen (readyAgain.resolvesVariable found))
    fun _ fourth notedAgain _ => ?_
  have stored := (holds.assign assignable).grow ((noted.trans looked).trans notedAgain).makers
  refine steady_then
    (only_steady (perform_setVariable (readyAgain.after notedAgain) found stored))
    fun _ fifth set _ => ?_
  exact pure_steady set.intact trivial

/-- An assignment to an element puts a value of the type of the elements there. -/
theorem assignElement_step (specs : Specs world budget) {site : Site} {result element : Ty}
    {name : String} {binding : Binding} {offset value : Expr .checked}
    (standing : Standing world record site.scopes)
    (found : site.scopes.find? name = some binding) (listed : binding.entry.type = .list element)
    (offsetTyped : ExprTyped world.seen site.scopes offset) (integer : offset.type = .integer)
    (seen : world.seen site.scopes (.element element binding.entry name offset))
    (typed : ExprTyped world.seen site.scopes value)
    (assignable : element.isAssignable value.type = true) :
    Meets (execute world.program (budget + 1) site
        (.assignment (.element element binding.entry name offset) value)) record
      (fun outcome final => Steady world record final ∧ Ends final.makers result outcome)
      (Halted world record) := by
  unfold execute
  refine steady_then (specs.evaluate typed standing.ready) fun given first steady holds => ?_
  have ready := standing.ready.after steady
  refine steady_then (resolving_steady ready seen (ready.resolvesVariable found))
    fun _ second noted _ => ?_
  refine steady_then (perform_mutableOf (ready.after noted) found) fun entry third looked held => ?_
  have list : Typed third.makers (.list element) entry.value :=
    listed ▸ held.typed.grow looked.makers
  refine steady_then (perform_outcome looked.intact fun fault refused =>
    .inl (requireList_pardoned list refused)) fun handle fourth tested handled => ?_
  have made := requireList_made list handled
  refine steady_then (specs.evaluate offsetTyped (((ready.after noted).after looked).after tested))
    fun index fifth indexed indexTyped => ?_
  rw [integer] at indexTyped
  refine steady_then (perform_store indexed.intact) fun store sixth stored _ => ?_
  refine steady_then (perform_outcome stored.intact fun fault refused =>
    .inl (requireIndex_pardoned (indexTyped.grow stored.makers) refused))
    fun place seventh placed _ => ?_
  have later := ((tested.trans indexed).trans stored).trans placed
  have stored := (holds.assign assignable).grow (noted.trans (looked.trans later)).makers
  refine steady_then
    (only_steady (perform_replace placed.intact (made_grow made later.makers) stored))
    fun _ eighth replaced _ => ?_
  exact pure_steady replaced.intact trivial

/-- An assignment completes, and changes no scope. -/
theorem assignment_step (specs : Specs world budget) {site : Site} {result : Ty}
    {receiver value : Expr .checked} (standing : Standing world record site.scopes)
    (place : receiver.isPlace = true) (receiverTyped : ExprTyped world.seen site.scopes receiver)
    (typed : ExprTyped world.seen site.scopes value)
    (assignable : receiver.type.isAssignable value.type = true) :
    Meets (execute world.program (budget + 1) site (.assignment receiver value)) record
      (fun outcome final => Steady world record final ∧ Ends final.makers result outcome)
      (Halted world record) := by
  cases receiverTyped with
  | access found seen => exact assignVariable_step specs standing found seen typed assignable
  | element found listed offsetTyped integer seen =>
    exact assignElement_step specs standing found listed offsetTyped integer seen typed assignable
  | literal => simp [Expr.isPlace] at place
  | group => simp [Expr.isPlace] at place
  | binary => simp [Expr.isPlace] at place
  | call => simp [Expr.isPlace] at place
  | list => simp [Expr.isPlace] at place

/-- A block runs in a scope of its own. -/
theorem block_step (specs : Specs world budget) {site : Site} {result : Ty} {number : Nat}
    {statements : List (Stmt .checked)} (standing : Standing world record site.scopes)
    (typed : BlockTyped world.seen result (site.block number) statements) :
    Meets (inScope (site.block number).scopes none
        (executeBlock world.program budget (site.block number) statements)) record
      (fun outcome final => Steady world record final ∧ Ends final.makers result outcome)
      (Halted world record) :=
  meets_inScope (Ends · result ·) standing.intact (specs.executeBlock typed standing.entering)

/-- A conditional executes one of its blocks in a scope of its own. -/
theorem conditional_step (specs : Specs world budget) {site : Site} {result : Ty}
    {condition : Expr .checked} {thenBlock elseBlock : List (Stmt .checked)}
    (standing : Standing world record site.scopes)
    (typed : ExprTyped world.seen site.scopes condition) (boolean : condition.type = .boolean)
    (thenTyped : BlockTyped world.seen result (site.block 0) thenBlock)
    (elseTyped : BlockTyped world.seen result (site.block 1) elseBlock) :
    Meets (execute world.program (budget + 1) site
        (.conditional condition thenBlock elseBlock)) record
      (fun outcome final => Steady world record final ∧ Ends final.makers result outcome)
      (Halted world record) := by
  unfold execute
  refine steady_then (specs.evaluate typed standing.ready) fun value first steady holds => ?_
  rw [boolean] at holds
  refine steady_then (perform_boolean steady.intact holds) fun truth second tested _ => ?_
  refine steady_then (only_steady (perform_trace tested.intact)) fun _ third traced _ => ?_
  have there := standing.after ((steady.trans tested).trans traced)
  cases truth with
  | true => exact block_step specs there thenTyped
  | false => exact block_step specs there elseTyped

/-- The subject and the labels of a switch are in the scopes around it, while the run is
already in the scope that the chosen case will have. -/
theorem switch_step (specs : Specs world budget) {site : Site} {result : Ty}
    {subject : Expr .checked} {cases : List (Case .checked)}
    (standing : Standing world record site.scopes)
    (typed : ExprTyped world.seen site.scopes subject)
    (casesTyped : CasesTyped world.seen result subject.type site 0 cases) :
    Meets (execute world.program (budget + 1) site (.switch subject cases)) record
      (fun outcome final => Steady world record final ∧ Ends final.makers result outcome)
      (Halted world record) := by
  unfold execute
  have inside : Standing world (record.entering site.scopes none) site.scopes.enter :=
    standing.entering
  have ready : Ready world (record.entering site.scopes none) site.scopes :=
    ⟨inside.intact, ⟨_, inside.sees, .inr rfl⟩, inside.knows⟩
  refine meets_inScope (Ends · result ·) standing.intact ?_
  refine steady_then_kept (specs.evaluate typed ready) fun value first steady _ => ?_
  exact specs.executeCases casesTyped (inside.after steady) (ready.after steady)

/-- With one more unit of the budget a statement ends as its type says, and the run stands
behind it as the text does. -/
theorem execute_step (specs : Specs world budget) {result : Ty} {site : Site}
    {statement : Stmt .checked} (typed : StmtTyped world.seen result site statement)
    (standing : Standing world record site.scopes) :
    Meets (execute world.program (budget + 1) site statement) record
      (fun outcome final => Kept world record final ∧ Ends final.makers result outcome ∧
        (outcome = .completed → Standing world final (site.after statement).scopes))
      (Halted world record) := by
  cases typed with
  | expression typed =>
    refine steady_statement standing ?_
    unfold execute
    refine steady_then (discard_steady (specs.evaluate typed standing.ready))
      fun _ first steady _ => ?_
    exact pure_steady steady.intact trivial
  | uninitialised fresh => exact declaration_step specs standing fresh (by simp)
  | initialised fresh typed assignable =>
    refine declaration_step specs standing fresh ?_
    rintro expression ⟨⟩
    exact ⟨typed, assignable⟩
  | assignment place receiverTyped typed assignable =>
    exact steady_statement standing
      (assignment_step specs standing place receiverTyped typed assignable)
  | conditional typed boolean thenTyped elseTyped =>
    exact steady_statement standing
      (conditional_step specs standing typed boolean thenTyped elseTyped)
  | switch typed casesTyped =>
    exact steady_statement standing (switch_step specs standing typed casesTyped)
  | loop typed boolean bodyTyped =>
    refine steady_statement standing ?_
    unfold execute
    exact specs.repeatWhile typed boolean bodyTyped standing
  | @returning _ value typed assignable =>
    refine steady_statement standing ?_
    unfold execute
    refine steady_then (specs.evaluate typed standing.ready) fun value first steady holds => ?_
    exact pure_steady steady.intact (holds.assign assignable)

/-- With one more unit of the budget the statements of a block end as their types say. -/
theorem executeBlock_step (specs : Specs world budget) {result : Ty} {site : Site}
    {statements : List (Stmt .checked)} (typed : BlockTyped world.seen result site statements)
    (standing : Standing world record site.scopes) :
    Meets (executeBlock world.program (budget + 1) site statements) record
      (fun outcome final => Kept world record final ∧ Ends final.makers result outcome)
      (Halted world record) := by
  unfold executeBlock
  cases typed with
  | nil => exact ⟨.refl standing.intact, trivial⟩
  | cons first rest =>
    refine kept_then (specs.execute first standing) fun outcome middle kept done => ?_
    obtain ⟨ends, further⟩ := done
    cases outcome with
    | returning value => exact ⟨.refl kept.intact, ends⟩
    | completed => exact specs.executeBlock rest (further rfl)

/-- With one more unit of the budget cases end as their types say. -/
theorem executeCases_step (specs : Specs world budget) {result subjectType : Ty} {site : Site}
    {number : Nat} {subject : Value} {cases : List (Case .checked)}
    (typed : CasesTyped world.seen result subjectType site number cases)
    (standing : Standing world record site.scopes.enter) (ready : Ready world record site.scopes) :
    Meets (executeCases world.program (budget + 1) site number subject cases) record
      (fun outcome final => Kept world record final ∧ Ends final.makers result outcome)
      (Halted world record) := by
  unfold executeCases
  cases typed with
  | default typed =>
    refine steady_then_kept (only_steady (perform_trace standing.intact))
      fun _ first traced _ => ?_
    exact specs.executeBlock typed (standing.after traced)
  | labelled labelTyped _ typed rest =>
    refine steady_then_kept (specs.evaluate labelTyped ready) fun label first steady _ => ?_
    refine steady_then_kept (perform_store steady.intact) fun store second stored _ => ?_
    have looked := steady.trans stored
    split
    · refine steady_then_kept (only_steady (perform_trace stored.intact))
        fun _ third traced _ => ?_
      exact specs.executeBlock typed (standing.after (looked.trans traced))
    · exact specs.executeCases rest (standing.after looked) (ready.after looked)

/-- With one more unit of the budget a loop ends as the types of its statements say. -/
theorem repeatWhile_step (specs : Specs world budget) {result : Ty} {site : Site}
    {condition : Expr .checked} {body : List (Stmt .checked)}
    (typed : ExprTyped world.seen site.scopes condition) (boolean : condition.type = .boolean)
    (bodyTyped : BlockTyped world.seen result (site.block 0) body)
    (standing : Standing world record site.scopes) :
    Meets (repeatWhile world.program (budget + 1) site condition body) record
      (fun outcome final => Steady world record final ∧ Ends final.makers result outcome)
      (Halted world record) := by
  unfold repeatWhile
  refine steady_then (specs.evaluate typed standing.ready) fun value first steady holds => ?_
  rw [boolean] at holds
  refine steady_then (perform_boolean steady.intact holds) fun truth second tested _ => ?_
  have there := standing.after (steady.trans tested)
  cases truth with
  | false => exact pure_steady tested.intact trivial
  | true =>
    refine steady_then (block_step specs there bodyTyped) fun outcome third ran ends => ?_
    cases outcome with
    | returning value => exact pure_steady ran.intact ends
    | completed => exact specs.repeatWhile typed boolean bodyTyped (there.after ran)

/-! ## All parts -/

/-- Every typed part of a program keeps the invariant. -/
theorem specs (world : World) : ∀ budget : Nat, Specs world budget
  | 0 =>
    { evaluate := fun _ ready => meets_exhausted ready.intact
      evaluateLogical := fun _ _ _ ready => meets_exhausted ready.intact
      evaluateAll := fun _ ready => meets_exhausted ready.intact
      invoke := fun _ _ intact => meets_exhausted intact
      execute := fun _ standing => meets_exhausted standing.intact
      evaluateOptional := fun _ ready => meets_exhausted ready.intact
      executeBlock := fun _ standing => meets_exhausted standing.intact
      executeCases := fun _ standing _ => meets_exhausted standing.intact
      repeatWhile := fun _ _ _ standing => meets_exhausted standing.intact }
  | budget + 1 =>
    have smaller := specs world budget
    { evaluate := evaluate_step smaller
      evaluateLogical := evaluateLogical_step smaller
      evaluateAll := evaluateAll_step smaller
      invoke := invoke_step smaller
      execute := execute_step smaller
      evaluateOptional := evaluateOptional_step smaller
      executeBlock := executeBlock_step smaller
      executeCases := executeCases_step smaller
      repeatWhile := repeatWhile_step smaller }

end Blockscript.Chronicle
