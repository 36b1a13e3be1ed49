import Blockscript.Proofs.Typing.Agreement
import Blockscript.Proofs.Typing.Failing
import Blockscript.Proofs.Typing.Marks

/-!
# Inferred results

What becomes of a function that does not declare its result. The rules are asked about its
body with some result assumed for the function and nothing asked of its returns; the checker
knows no result of the function in there. So a body of which the rules derive a tree is
refused for its marks only: each part of the checker follows the judgement of the marks of
its part, and the inferred result goes along.
-/

namespace Blockscript.Typing

variable {α β : Type} {name : String} {arity : Nat} {before after : Checker} {scopes : Scopes}
  {value : α} {fault : TypeFault} {marks : List Mark}

/-! ## Checks that follow the judgement of marks -/

/-- The state in the body of a function that does not declare its result. -/
def inBody (scopes : Scopes) (inferred : Option Ty) : Checker :=
  ⟨scopes.environment, ⟨none, inferred⟩⟩

/-- In the body of a function of the name and arity the check passes and fails as the marks
are judged. Passing it gives the value and defines the variables, and failing it defines
variables at most. -/
structure Check.Judged (check : Check α) (name : String) (arity : Nat) (scopes : Scopes)
    (declared : List Binding) (marks : List Mark) (value : α) : Prop where
  passes : ∀ {inferred next : Option Ty}, judge name arity inferred marks = .ok next →
    check.Passes (inBody scopes inferred) value (inBody (scopes.extend declared) next)
  fails : ∀ {inferred : Option Ty} {fault : TypeFault},
    judge name arity inferred marks = .error fault → ∃ bindings next,
      check.Fails (inBody scopes inferred) fault (inBody (scopes.extend bindings) next)

namespace Check.Judged

variable {check : Check α} {next : α → Check β} {declared further : List Binding}
  {more : List Mark} {result : β}

/-- A check that always passes has no marks. -/
theorem of_passes (passes : ∀ {before : Checker}, before.environment = scopes.environment →
      check.Passes before value (before.withScopes (scopes.extend declared))) :
    check.Judged name arity scopes declared [] value where
  passes := by
    rintro inferred _ ⟨⟩
    exact passes rfl
  fails := by
    rintro _ _ ⟨⟩

/-- A check that always passes and leaves the state has no marks. -/
theorem still (passes : ∀ {before : Checker}, before.environment = scopes.environment →
      check.Passes before value before) :
    check.Judged name arity scopes [] [] value := by
  refine of_passes fun {before} same => ?_
  have unchanged : before.withScopes (scopes.extend []) = before := by
    rw [Scopes.extend_nil, Checker.withScopes, ← same]
  rw [unchanged]
  exact passes same

/-- To give a value is judged by no marks. -/
theorem pure (value : α) : (Pure.pure value : Check α).Judged name arity scopes [] [] value :=
  still fun _ => pure_passes.mpr ⟨rfl, rfl⟩

/-- The marks of two checks are those of the first one and then those of the second one. -/
theorem bind (first : check.Judged name arity scopes declared marks value)
    (second : (next value).Judged name arity (scopes.extend declared) further more result) :
    (check >>= next).Judged name arity scopes (declared ++ further) (marks ++ more) result where
  passes := by
    intro inferred last judged
    rw [judge_append] at judged
    split at judged
    · next middle passed =>
      rw [← Scopes.extend_extend]
      exact bind_passes.mpr ⟨_, _, first.passes passed, second.passes judged⟩
    · cases judged
  fails := by
    intro inferred fault judged
    rw [judge_append] at judged
    split at judged
    · next middle passed =>
      obtain ⟨bindings, last, failed⟩ := second.fails judged
      rw [Scopes.extend_extend] at failed
      exact ⟨_, last, bind_fails (.inr ⟨_, _, first.passes passed, failed⟩)⟩
    · next failed =>
      cases judged
      obtain ⟨bindings, last, failed⟩ := first.fails failed
      exact ⟨bindings, last, bind_fails (.inl failed)⟩

/-- Behind a check that defines nothing the scopes are the same. -/
theorem andThen (first : check.Judged name arity scopes [] marks value)
    (second : (next value).Judged name arity scopes further more result) :
    (check >>= next).Judged name arity scopes further (marks ++ more) result := by
  rw [← Scopes.extend_nil scopes] at second
  exact bind first second

/-- A check whose value is put into another form. -/
theorem map (first : check.Judged name arity scopes declared marks value) (form : α → β) :
    (check >>= fun value => Pure.pure (form value)).Judged name arity scopes declared marks
      (form value) := by
  have whole : (check >>= fun value => Pure.pure (form value)).Judged name arity scopes
      (declared ++ []) (marks ++ []) (form value) :=
    first.bind (Judged.pure (form value))
  simpa using whole

/-- A check that fails for want of the result of the function. -/
theorem recursion : (throw (.resultUnknown name arity) : Check α).Judged name arity scopes []
    [.recursion] value where
  passes := by
    rintro _ _ ⟨⟩
  fails := by
    rintro inferred _ ⟨⟩
    exact ⟨[], inferred, by rw [Scopes.extend_nil]; exact throw_fails⟩

/-- A returned type is taken note of, or compared with the first one. -/
theorem returned (type : Ty) :
    (checkReturned type).Judged name arity scopes [] [.returned type] () := by
  have start (inferred : Option Ty) : (get : Check Checker).Passes (inBody scopes inferred)
      (inBody scopes inferred) (inBody scopes inferred) :=
    get_passes.mpr ⟨rfl, rfl⟩
  constructor
  · intro inferred last judged
    rw [Scopes.extend_nil]
    refine bind_passes.mpr ⟨_, _, start inferred, ?_⟩
    cases inferred with
    | none =>
      cases judged
      exact set_passes.mpr rfl
    | some first =>
      rw [judge] at judged
      split at judged
      · next fits =>
        cases judged
        exact rule_passes.mpr ⟨fits, rfl⟩
      · cases judged
  · intro inferred fault judged
    refine ⟨[], inferred, ?_⟩
    rw [Scopes.extend_nil]
    refine bind_fails (.inr ⟨_, _, start inferred, ?_⟩)
    cases inferred with
    | none => cases judged
    | some first =>
      rw [judge] at judged
      split at judged
      · cases judged
      · next misfit =>
        cases judged
        exact rule_fails misfit

/-- A check in a scope of its own has the marks of the body, and leaves no variable behind. -/
theorem inScope (body : check.Judged name arity scopes.enter declared marks value) :
    (Check.inScope check).Judged name arity scopes [] marks value := by
  have closes (bindings : List Binding) :
      (scopes.enter.extend bindings).environment.closeScope
        (scopes.environment.openScope none).current = .ok scopes.environment := by
    rw [Scopes.enter_extend, Scopes.openScope_environment]
    exact Scopes.closeScope_environment scopes bindings
  have opened (inferred : Option Ty) : ({ inBody scopes inferred with
      environment := (inBody scopes inferred).environment.openScope none } : Checker) =
        inBody scopes.enter inferred := by
    rw [inBody, Scopes.openScope_environment]
    rfl
  constructor
  · intro inferred last judged
    rw [Scopes.extend_nil, inScope_passes, opened]
    exact ⟨_, _, body.passes judged, closes declared, rfl⟩
  · intro inferred fault judged
    obtain ⟨bindings, last, failed⟩ := body.fails judged
    refine ⟨[], last, ?_⟩
    rw [Scopes.extend_nil]
    rw [← opened] at failed
    exact inScope_fails failed (closes bindings)

end Check.Judged

/-! ## The scopes in a body -/

variable {assumed : Ty}

/-- The function of the name and arity is known, but not its result. -/
def Unsettled (name : String) (arity : Nat) (scopes : Scopes) : Prop :=
  ∃ routine, scopes.routine? name arity = some routine ∧ routine.result = none

/-- A function is unsettled inside a block when it is around it. -/
theorem Unsettled.enter (unsettled : Unsettled name arity scopes) :
    Unsettled name arity scopes.enter :=
  unsettled

/-- Variables that are declared leave the functions. -/
theorem extend_functions (scopes : Scopes) (bindings : List Binding) :
    (scopes.extend bindings).functions = scopes.functions := by
  obtain ⟨inner, root, functions⟩ := scopes
  cases inner <;> rfl

/-- A function is unsettled behind a declaration when it is before it. -/
theorem Unsettled.extend (unsettled : Unsettled name arity scopes) (bindings : List Binding) :
    Unsettled name arity (scopes.extend bindings) := by
  unfold Unsettled Scopes.routine? at *
  rw [extend_functions]
  exact unsettled

/-- To settle a function and to declare variables does not depend on the order. -/
theorem settle_extend (scopes : Scopes) (bindings : List Binding) :
    (scopes.settle name arity assumed).extend bindings =
      (scopes.extend bindings).settle name arity assumed := by
  obtain ⟨inner, root, functions⟩ := scopes
  cases inner <;> rfl

/-- With a result assumed for one function the others are known as before. -/
theorem routine?_settle (scopes : Scopes) (called : String) (count : Nat) :
    (scopes.settle name arity assumed).routine? called count =
      (scopes.routine? called count).map fun routine =>
        if routine.name = name && routine.arity = arity then
          { routine with result := some assumed }
        else
          routine := by
  have same (routine : Routine Unit) : ((if routine.name = name && routine.arity = arity then
      { routine with result := some assumed } else routine : Routine Unit).name = called &&
      (if routine.name = name && routine.arity = arity then
      { routine with result := some assumed } else routine : Routine Unit).arity = count) =
      (routine.name = called && routine.arity = count) := by
    split <;> rfl
  rw [Scopes.routine?, Scopes.settle, List.find?_map]
  simp only [Function.comp_def, same]
  rfl

/-- A function that is known with an assumed result is the function itself, or it is known
with its own result. -/
theorem routine?_assumed {called : String} {count : Nat} {routine : Routine Unit}
    (known : (scopes.settle name arity assumed).routine? called count = some routine) :
    ∃ own, scopes.routine? called count = some own ∧ routine.parameters = own.parameters ∧
      ((called = name ∧ count = arity) ∨ (¬ (called = name ∧ count = arity) ∧ routine = own)) := by
  rw [routine?_settle] at known
  obtain ⟨own, found, rfl⟩ := Option.map_eq_some_iff.mp known
  obtain ⟨named, counted⟩ := routine?_found found
  refine ⟨own, found, ?_, ?_⟩
  · split <;> rfl
  · by_cases self : called = name ∧ count = arity
    · exact .inl self
    · refine .inr ⟨self, if_neg ?_⟩
      simpa [named, counted] using self

/-! ## Expressions -/

/-- As many values are stored as are given. -/
theorem stored_length {types : List Ty} {sources : List (Expr .bare)}
    {trees : List (Expr .checked)} (derived : StoredDerives scopes types sources trees) :
    trees.length = sources.length := by
  induction trees generalizing types sources with
  | nil =>
    cases derived
    rfl
  | cons tree trees inductionHypothesis =>
    cases derived with
    | cons _ _ further => simp [inductionHypothesis further]

/-- A rule that passes is judged by no marks. -/
theorem rule_judged {outcome : Except TypeFault α} (passed : outcome = .ok value) :
    (Check.rule outcome).Judged name arity scopes [] [] value :=
  .still fun _ => rule_passes.mpr ⟨passed, rfl⟩

/-- A lookup that finds something is judged by no marks. -/
theorem lookup_judged {find : Environment Unit Unit → Except ScopeFault α}
    (found : find scopes.environment = .ok value) :
    (Check.lookup find).Judged name arity scopes [] [] value :=
  .still fun same => lookup_passes.mpr ⟨same ▸ found, rfl⟩

/-- A type that may be assigned is judged by no marks. -/
theorem assignable_judged {target source : Ty} (assignable : Assignable target source) :
    (Check.rule (requireAssignable target source)).Judged name arity scopes [] [] () :=
  rule_judged (requireAssignable_iff.mpr assignable)

mutual

/-- An expression that is derived with some result assumed for the function passes without it,
unless it calls the function. -/
theorem expr_judged (unsettled : Unsettled name arity scopes) :
    ∀ {source : Expr .bare} {tree : Expr .checked},
      ExprDerives (scopes.settle name arity assumed) source tree →
      (checkExpr source).Judged name arity scopes [] (exprMarks name arity tree) tree
  | _, _, .literal derived => .still fun same => expr_passes (.literal derived) same
  | _, _, .access bound =>
    .still fun same => expr_passes (@ExprDerives.access scopes _ _ bound) same
  | _, _, .group derived => by
    rw [checkExpr, if_pos (show Expr.isBinary _ = true from rfl), exprMarks]
    exact (expr_judged unsettled derived).map _
  | _, _, .binary left right typed => by
    rw [checkExpr, exprMarks]
    refine (expr_judged unsettled left).andThen ?_
    rw [← List.append_nil (exprMarks name arity _)]
    refine (expr_judged unsettled right).andThen ?_
    exact (rule_judged (binaryType_iff.mpr typed)).map _
  | _, _, @ExprDerives.element _ used binding element _ _ bound list derived integer => by
    have here : scopes.find? used = some binding := bound
    obtain ⟨place, found⟩ := Scopes.lookupVariable_environment.mpr ⟨binding, here, rfl⟩
    rw [checkExpr, exprMarks, ← List.append_nil (exprMarks name arity _)]
    refine (lookup_judged found).andThen ?_
    refine (expr_judged unsettled derived).andThen ?_
    simp only [integer, list, Ty.element?, ne_eq, not_true_eq_false, if_false]
    exact .pure _
  | _, _, @ExprDerives.call _ called sources trees routine result known given derived => by
    obtain ⟨own, found, parameters, self⟩ := routine?_assumed known
    rw [checkExpr, exprMarks, stored_length derived]
    refine (lookup_judged (Scopes.lookupFunction_environment.mpr found)).andThen ?_
    rw [parameters] at derived
    refine (arguments_judged unsettled derived).andThen ?_
    rcases self with ⟨rfl, rfl⟩ | ⟨other, rfl⟩
    · -- The arguments have been checked, but no result is known of the function yet.
      obtain ⟨itself, again, missing⟩ := unsettled
      cases found.symm.trans again
      rw [if_pos ⟨rfl, rfl⟩]
      simp only [missing, stored_length derived]
      exact .recursion
    · rw [if_neg other]
      simp only [given]
      exact .pure _
  | _, _, .list derived others => by
    rw [checkExpr, exprMarks, exprsMarks]
    refine (expr_judged unsettled derived).andThen ?_
    exact (elements_judged unsettled others rfl).map _

/-- Arguments that are derived so pass, unless they call the function. -/
theorem arguments_judged (unsettled : Unsettled name arity scopes) : ∀ {targets : List Ty}
    {sources : List (Expr .bare)} {trees : List (Expr .checked)},
    StoredDerives (scopes.settle name arity assumed) targets sources trees →
      (checkArguments targets sources).Judged name arity scopes [] (exprsMarks name arity trees)
        trees
  | _, _, _, .nil => by
    rw [checkArguments, exprsMarks]
    · exact .pure []
    · simp
  | _, _, _, .cons derived assignable further => by
    rw [checkArguments, exprsMarks]
    refine (expr_judged unsettled derived).andThen ?_
    refine (assignable_judged assignable).andThen ?_
    exact (arguments_judged unsettled further).map _

/-- Elements that are derived so pass, unless they call the function. -/
theorem elements_judged (unsettled : Unsettled name arity scopes) : ∀ {targets : List Ty}
    {sources : List (Expr .bare)} {trees : List (Expr .checked)},
    StoredDerives (scopes.settle name arity assumed) targets sources trees →
    ∀ {element : Ty}, targets = List.replicate sources.length element →
      (checkElements element sources).Judged name arity scopes [] (exprsMarks name arity trees)
        trees
  | _, _, _, .nil, element, _ => by
    rw [checkElements, exprsMarks]
    exact .pure []
  | _, _, _, .cons derived assignable further, element, alike => by
    rw [List.length_cons, List.replicate_succ] at alike
    obtain ⟨rfl, others⟩ := List.cons.inj alike
    rw [checkElements, exprsMarks]
    refine (expr_judged unsettled derived).andThen ?_
    refine (assignable_judged assignable).andThen ?_
    exact (elements_judged unsettled further others).map _

end

/-- A value that is derived so passes and fits, unless it calls the function. -/
theorem value_judged (unsettled : Unsettled name arity scopes) {target : Ty}
    {source : Expr .bare} {tree : Expr .checked}
    (derived : ValueDerives (scopes.settle name arity assumed) target source tree) :
    (checkValue target source).Judged name arity scopes [] (exprMarks name arity tree) tree ∧
      Assignable target tree.type := by
  cases derived with
  | plain plain assignable =>
    refine ⟨?_, assignable⟩
    unfold checkValue
    split
    · split
      · obtain ⟨trees, rfl, stored⟩ := list_contextual plain assignable
        rw [exprMarks]
        exact (elements_judged unsettled stored rfl).map _
      · exact expr_judged unsettled plain
    · exact expr_judged unsettled plain
  | contextual stored =>
    refine ⟨?_, .same _⟩
    rw [checkValue, exprMarks]
    exact (elements_judged unsettled stored rfl).map _

/-- A binding that is derived so passes, unless its value calls the function. -/
theorem binding_judged (unsettled : Unsettled name arity scopes) {used : String}
    {typeName : Option String} {source : Option (Expr .bare)} {type : Ty}
    {value : Option (Expr .checked)}
    (derived : BindingDerives (scopes.settle name arity assumed) typeName source type value) :
    (checkBinding used typeName source).Judged name arity scopes []
      (valueMarks name arity value) (type, value) := by
  unfold checkBinding
  cases derived with
  | uninitialised => exact (rule_judged (resolve_iff.mpr rfl)).map _
  | initialised derived =>
    obtain ⟨stored, assignable⟩ := value_judged unsettled derived
    rw [valueMarks, ← List.nil_append (exprMarks name arity _)]
    refine (rule_judged (resolve_iff.mpr rfl)).andThen ?_
    rw [← List.append_nil (exprMarks name arity _)]
    refine stored.andThen ?_
    exact (assignable_judged assignable).map _
  | inferred derived =>
    rw [valueMarks]
    exact (expr_judged unsettled derived).map _

/-! ## Statements -/

/-- A condition that is derived so passes, unless it calls the function. -/
theorem condition_judged (unsettled : Unsettled name arity scopes) {keyword : String}
    {source : Expr .bare} {tree : Expr .checked}
    (derived : ExprDerives (scopes.settle name arity assumed) source tree)
    (boolean : tree.type = .boolean) :
    (checkCondition keyword source).Judged name arity scopes [] (exprMarks name arity tree)
      tree := by
  rw [checkCondition, ← List.append_nil (exprMarks name arity _)]
  refine (expr_judged unsettled derived).andThen ?_
  rw [if_pos boolean]
  exact .pure _

/-- A label that is derived so passes in front of other cases, unless it calls the function. -/
theorem label_judged (unsettled : Unsettled name arity scopes) {subject : Ty}
    {source : Expr .bare} {tree : Expr .checked}
    (derived : ExprDerives (scopes.settle name arity assumed) source tree)
    (agrees : tree.type = subject) :
    (checkLabel subject false (some source)).Judged name arity scopes []
      (exprMarks name arity tree) (some tree) := by
  rw [checkLabel, ← List.append_nil (exprMarks name arity _)]
  refine (expr_judged unsettled derived).andThen ?_
  rw [if_pos agrees]
  exact .pure _

/-- A variable whose name is free in the innermost level is defined. -/
theorem define_judged {used : String} {type : Ty} (origin : Origin)
    (fresh : scopes.innermost.find? (Binding.isNamed used) = none) :
    (Check.define used type true).Judged name arity scopes
      [⟨origin, ⟨used, type, true, ()⟩⟩] [] ⟨used, type, true, ()⟩ :=
  .of_passes fun same => (define_iff origin same).mpr ⟨rfl, fresh, rfl⟩

/-- A place where a result is assumed for a function. -/
def settledAt (name : String) (arity : Nat) (assumed : Ty) (site : Site) : Site :=
  ⟨site.scopes.settle name arity assumed, site.path⟩

/-- A statement declares the same variables when a result is assumed for a function. -/
theorem settledAt_after (site : Site) (tree : Stmt .checked) :
    (settledAt name arity assumed site).after tree =
      settledAt name arity assumed (site.after tree) := by
  cases tree with
  | declaration =>
    unfold settledAt
    simp only [Site.after, Scopes.declare, settle_extend]
  | _ => rfl

/-- What is shown of statements: they pass unless their marks are refused, and define
variables at most. -/
def BlockJudged (name : String) (arity : Nat) (site : Site) (source : List (Stmt .bare))
    (trees : List (Stmt .checked)) : Prop :=
  ∃ declared, (checkBlock source).Judged name arity site.scopes declared
    (blockMarks name arity trees) trees

/-- Statements in a scope of their own have their marks, and leave no trace. -/
theorem BlockJudged.inScope {site : Site} {number : Nat} {source : List (Stmt .bare)}
    {trees : List (Stmt .checked)}
    (judged : BlockJudged name arity (site.block number) source trees) :
    (Check.inScope (checkBlock source)).Judged name arity site.scopes []
      (blockMarks name arity trees) trees := by
  obtain ⟨declared, body⟩ := judged
  exact Check.Judged.inScope body

mutual

/-- A statement that is derived with some result assumed for the function, and with any type
to return, passes without it, unless its marks are refused. -/
theorem stmt_judged : ∀ {site : Site} {source : Stmt .bare} {tree : Stmt .checked},
    StmtDerives .any (settledAt name arity assumed site) source tree →
    Unsettled name arity site.scopes →
      ∃ declared, (site.after tree).scopes = site.scopes.extend declared ∧
        (checkStmt source).Judged name arity site.scopes declared (stmtMarks name arity tree) tree
  | site, _, _, .expression derived, unsettled => by
    refine ⟨[], (Scopes.extend_nil _).symm, ?_⟩
    rw [checkStmt, if_pos (show Expr.isCall _ = true from rfl), stmtMarks]
    exact (expr_judged unsettled derived).map _
  | site, _, _, @StmtDerives.declaration _ _ used _ _ type value fresh derived, unsettled => by
    refine ⟨[⟨.declaration site.path, ⟨used, type, true, ()⟩⟩], rfl, ?_⟩
    rw [checkStmt, stmtMarks, ← List.append_nil (valueMarks name arity value)]
    refine (binding_judged unsettled derived).andThen ?_
    have defined := @define_judged name arity site.scopes used type (.declaration site.path) fresh
    dsimp only
    exact defined.map _
  | site, _, _, .assignment place receiver derived, unsettled => by
    obtain ⟨stored, assignable⟩ := value_judged unsettled derived
    refine ⟨[], (Scopes.extend_nil _).symm, ?_⟩
    rw [checkStmt, if_pos place, stmtMarks]
    refine (expr_judged unsettled receiver).andThen ?_
    rw [← List.append_nil (exprMarks name arity _)]
    refine stored.andThen ?_
    exact (assignable_judged assignable).map _
  | site, _, _, .conditional derived boolean filled thenDerived elseDerived, unsettled => by
    refine ⟨[], (Scopes.extend_nil _).symm, ?_⟩
    rw [checkStmt, stmtMarks]
    refine (condition_judged unsettled derived boolean).andThen ?_
    rw [if_neg (by simpa using filled)]
    refine (@block_judged (site.block 0) _ _ thenDerived unsettled.enter).inScope.andThen ?_
    exact (@block_judged (site.block 1) _ _ elseDerived unsettled.enter).inScope.map _
  | site, _, _, .switch derived casesDerived, unsettled => by
    obtain ⟨filled, judged⟩ := cases_judged casesDerived unsettled
    refine ⟨[], (Scopes.extend_nil _).symm, ?_⟩
    rw [checkStmt, stmtMarks]
    refine (expr_judged unsettled derived).andThen ?_
    rw [if_neg (by simpa using filled)]
    exact judged.map _
  | site, _, _, .loop derived boolean bodyDerived, unsettled => by
    refine ⟨[], (Scopes.extend_nil _).symm, ?_⟩
    rw [checkStmt, stmtMarks]
    refine (condition_judged unsettled derived boolean).andThen ?_
    exact (@block_judged (site.block 0) _ _ bodyDerived unsettled.enter).inScope.map _
  | site, _, _, .returning derived _, unsettled => by
    -- The rules are asked for a result that takes any type, so only the mark restricts it.
    refine ⟨[], (Scopes.extend_nil _).symm, ?_⟩
    rw [checkStmt, stmtMarks]
    refine (expr_judged unsettled derived).andThen ?_
    exact (Check.Judged.returned _).map _

/-- Statements that are derived so pass, unless their marks are refused. -/
theorem block_judged : ∀ {site : Site} {sources : List (Stmt .bare)}
    {trees : List (Stmt .checked)},
    BlockDerives .any (settledAt name arity assumed site) sources trees →
    Unsettled name arity site.scopes → BlockJudged name arity site sources trees
  | site, _, _, .nil, unsettled => by
    refine ⟨[], ?_⟩
    rw [checkBlock, blockMarks]
    exact .pure []
  | site, _, _, @BlockDerives.cons _ _ _ _ tree _ firstDerived restDerived, unsettled => by
    obtain ⟨declared, behind, first⟩ := stmt_judged firstDerived unsettled
    rw [settledAt_after] at restDerived
    obtain ⟨further, rest⟩ := block_judged restDerived (by
      rw [behind]
      exact unsettled.extend declared)
    rw [behind] at rest
    refine ⟨declared ++ further, ?_⟩
    rw [checkBlock, blockMarks]
    refine first.bind ?_
    exact rest.map _

/-- Cases that are derived so pass, unless their marks are refused, and there are some. -/
theorem cases_judged : ∀ {subject : Ty} {site : Site} {number : Nat} {sources : List (Case .bare)}
    {trees : List (Case .checked)},
    CasesDerives .any subject (settledAt name arity assumed site) number sources trees →
    Unsettled name arity site.scopes →
      sources ≠ [] ∧ (checkCases subject sources).Judged name arity site.scopes []
        (casesMarks name arity trees) trees
  | subject, site, number, _, _, .default derived, unsettled => by
    refine ⟨by simp, ?_⟩
    rw [checkCases, casesMarks]
    refine (Check.Judged.pure (none : Option (Expr .checked))).andThen ?_
    refine (@block_judged (site.block number) _ _ derived unsettled.enter).inScope.andThen ?_
    rw [checkCases, casesMarks]
    exact (Check.Judged.pure []).map _
  | subject, site, number, _, _, .labelled derived agrees bodyDerived restDerived, unsettled => by
    obtain ⟨filled, further⟩ := cases_judged restDerived unsettled
    refine ⟨by simp, ?_⟩
    rw [checkCases, casesMarks, List.isEmpty_eq_false_iff.mpr filled, valueMarks]
    refine (label_judged unsettled derived agrees).andThen ?_
    refine (@block_judged (site.block number) _ _ bodyDerived unsettled.enter).inScope.andThen ?_
    exact further.map _

end

/-! ## Functions -/

/-- A function that does not declare its result and stands behind others is well typed but
for its result: it is so with some result assumed for its calls of itself, and with any type
to return. -/
structure OtherwiseTyped (root : List Binding) (earlier : List (FunctionDef .checked))
    (source : FunctionDef .bare) (types : List Ty) (assumed : Ty) (trees : List (Stmt .checked)) :
    Prop where
  undeclared : source.returnType = none
  parameterTypes : List.Forall₂ ParameterDerives source.parameterTypes types
  lengths : source.parameters.length = types.length
  distinct : source.parameters.Nodup
  fresh : (definedScopes root earlier).routine? source.name types.length = none
  body : BlockDerives .any
    ⟨((definedScopes root earlier).declareRoutine
        ⟨source.name, types, some assumed, none⟩).enter.extend
        (parameterBindings earlier.length 0 source.parameters types), [0, earlier.length]⟩
    source.body trees

section Functions

variable {root : List Binding} {earlier : List (FunctionDef .checked)} {source : FunctionDef .bare}
  {types : List Ty} {trees : List (Stmt .checked)}

/-- The scopes of the root when the body of the function is checked. -/
def openedScopes (root : List Binding) (earlier : List (FunctionDef .checked))
    (source : FunctionDef .bare) (types : List Ty) : Scopes :=
  (definedScopes root earlier).declareRoutine ⟨source.name, types, none, none⟩

/-- The function is defined behind the others, with its result unknown. -/
theorem OtherwiseTyped.opens (typed : OtherwiseTyped root earlier source types assumed trees)
    (same : before.environment = (definedScopes root earlier).environment) :
    before.environment.defineFunction ⟨source.name, types, none, none⟩ =
      .ok (openedScopes root earlier source types).environment := by
  rw [same]
  exact Scopes.defineFunction_fresh rfl typed.fresh

/-- In its body the function is known without its result. -/
theorem OtherwiseTyped.unsettled (typed : OtherwiseTyped root earlier source types assumed trees) :
    Unsettled source.name types.length (openedScopes root earlier source types) := by
  refine ⟨⟨source.name, types, none, none⟩, ?_, rfl⟩
  have fresh := typed.fresh
  unfold Scopes.routine? at fresh ⊢
  rw [openedScopes, Scopes.declareRoutine, List.find?_append, fresh, Option.none_or]
  simp [Routine.arity]

/-- The body passes in its scope unless its marks are refused. -/
theorem OtherwiseTyped.judged (typed : OtherwiseTyped root earlier source types assumed trees) :
    (Check.inScope do
      defineParameters source.parameters types
      checkBlock source.body).Judged source.name types.length
        (openedScopes root earlier source types) []
        (blockMarks source.name types.length trees) trees := by
  let bindings := parameterBindings earlier.length 0 source.parameters types
  let site : Site :=
    ⟨(openedScopes root earlier source types).enter.extend bindings, [0, earlier.length]⟩
  have parameters : (defineParameters source.parameters types).Judged source.name types.length
      (openedScopes root earlier source types).enter bindings [] () :=
    .of_passes fun same => defineParameters_passes _ 0 typed.lengths same typed.distinct
      fun _ _ => rfl
  have settled : settledAt source.name types.length assumed site =
      ⟨((definedScopes root earlier).declareRoutine
        ⟨source.name, types, some assumed, none⟩).enter.extend bindings, [0, earlier.length]⟩ := by
    rw [← settle_declareRoutine typed.fresh]
    exact congrArg (Site.mk · _) (settle_extend _ bindings).symm
  have derived := typed.body
  rw [← settled] at derived
  obtain ⟨declared, block⟩ := block_judged derived (typed.unsettled.enter.extend bindings)
  exact Check.Judged.inScope (parameters.bind block)

/-- The tree of a function that does not declare its result. -/
def inferredTree (source : FunctionDef .bare) (types : List Ty) (trees : List (Stmt .checked))
    (inferred : Option Ty) : FunctionDef .checked where
  name := source.name
  parameters := source.parameters
  parameterTypes := source.parameterTypes
  returnType := none
  body := trees
  routine := ⟨types, inferred.getD .nil⟩

/-- A function passes when its marks are judged so, and has the result that is inferred. -/
theorem OtherwiseTyped.passes (typed : OtherwiseTyped root earlier source types assumed trees)
    (same : before.environment = (definedScopes root earlier).environment) {inferred : Option Ty}
    (judged : judge source.name types.length none (blockMarks source.name types.length trees) =
      .ok inferred) :
    (checkFunction source).Passes before (inferredTree source types trees inferred)
      (before.withScopes
        (definedScopes root (earlier ++ [inferredTree source types trees inferred]))) := by
  have body : (Check.inFunction none (Check.inScope do
      defineParameters source.parameters types
      checkBlock source.body)).Passes (before.withScopes (openedScopes root earlier source types))
        (trees, inferred) (before.withScopes (openedScopes root earlier source types)) := by
    have checked := typed.judged.passes judged
    rw [Scopes.extend_nil] at checked
    exact inFunction_passes.mpr ⟨_, checked, rfl, rfl⟩
  have settled := Scopes.setResult_environment (rfl : (openedScopes root earlier source types).inner
    = []) source.name types.length (inferred.getD .nil)
  rw [openedScopes, settle_declareRoutine typed.fresh] at settled
  rw [definedScopes_append]
  unfold checkFunction
  refine bind_passes.mpr ⟨_, _, parameterTypes_iff.mpr ⟨rfl, typed.parameterTypes⟩, ?_⟩
  rw [typed.undeclared]
  refine bind_passes.mpr ⟨none, before, pure_passes.mpr ⟨rfl, rfl⟩, ?_⟩
  refine bind_passes.mpr ⟨(), _, change_passes.mpr ⟨_, typed.opens same, rfl⟩, ?_⟩
  refine bind_passes.mpr ⟨_, _, body, ?_⟩
  refine bind_passes.mpr ⟨(), _, change_passes.mpr ⟨_, rfl, rfl⟩, ?_⟩
  refine pure_passes.mpr ⟨rfl, ?_⟩
  exact congrArg (Checker.mk · before.returns) settled.symm

/-- A function fails when its marks are refused, for the same reason. -/
theorem OtherwiseTyped.fails (typed : OtherwiseTyped root earlier source types assumed trees)
    (same : before.environment = (definedScopes root earlier).environment)
    (judged : judge source.name types.length none (blockMarks source.name types.length trees) =
      .error fault) :
    ∃ after, (checkFunction source).Fails before fault after := by
  obtain ⟨bindings, next, checked⟩ := typed.judged.fails judged
  let left := before.withScopes ((openedScopes root earlier source types).extend bindings)
  have body : (Check.inFunction none (Check.inScope do
      defineParameters source.parameters types
      checkBlock source.body)).Fails (before.withScopes (openedScopes root earlier source types))
        fault left :=
    @inFunction_fails _ (before.withScopes (openedScopes root earlier source types)) _ _ _ _
      checked
  unfold checkFunction
  refine ⟨left, bind_fails (.inr ⟨_, _, parameterTypes_iff.mpr ⟨rfl, typed.parameterTypes⟩, ?_⟩)⟩
  rw [typed.undeclared]
  refine bind_fails (.inr ⟨none, before, pure_passes.mpr ⟨rfl, rfl⟩, ?_⟩)
  refine bind_fails (.inr ⟨(), _, change_passes.mpr ⟨_, typed.opens same, rfl⟩, ?_⟩)
  exact bind_fails (.inl body)

/-- A function passes exactly when its marks do. -/
theorem OtherwiseTyped.passes_iff {tree : FunctionDef .checked}
    (typed : OtherwiseTyped root earlier source types assumed trees)
    (same : before.environment = (definedScopes root earlier).environment) :
    (checkFunction source).Passes before tree after ↔
      ∃ inferred, judge source.name types.length none
          (blockMarks source.name types.length trees) = .ok inferred ∧
        tree = inferredTree source types trees inferred ∧
        after = before.withScopes (definedScopes root (earlier ++ [tree])) := by
  constructor
  · intro passes
    cases judged : judge source.name types.length none
        (blockMarks source.name types.length trees) with
    | ok inferred =>
      obtain ⟨rfl, rfl⟩ := passes_unique passes (typed.passes same judged)
      exact ⟨inferred, rfl, rfl, rfl⟩
    | error fault =>
      obtain ⟨left, fails⟩ := typed.fails same judged
      exact absurd fails (not_fails_of_passes passes)
  · rintro ⟨inferred, judged, rfl, rfl⟩
    exact typed.passes same judged

/-- A function fails exactly when its marks are refused, and with the same fault. -/
theorem OtherwiseTyped.fails_iff
    (typed : OtherwiseTyped root earlier source types assumed trees)
    (same : before.environment = (definedScopes root earlier).environment) :
    (∃ after, (checkFunction source).Fails before fault after) ↔
      judge source.name types.length none (blockMarks source.name types.length trees) =
        .error fault := by
  constructor
  · rintro ⟨after, fails⟩
    cases judged : judge source.name types.length none
        (blockMarks source.name types.length trees) with
    | ok inferred => exact absurd fails (not_fails_of_passes (typed.passes same judged))
    | error other =>
      obtain ⟨left, again⟩ := typed.fails same judged
      rw [fails_unique fails again]
  · exact typed.fails same

/-- The result of a function that does not declare it and is well typed otherwise. The
function passes exactly when it does not call itself and every type that it returns fits the
first one, and then that one is its result, or nil without any return. The first call of
itself is refused for want of the result if every return before it passes, also if there are
some. A return is refused when it does not fit the first one and nothing before it is
refused. -/
theorem result_is_inferred (typed : OtherwiseTyped root earlier source types assumed trees)
    (same : before.environment = (definedScopes root earlier).environment) {marks : List Mark}
    (whole : blockMarks source.name types.length trees = marks) :
    (∀ tree after, (checkFunction source).Passes before tree after ↔
      .recursion ∉ marks ∧ Fitting (returnedTypes marks) ∧
        tree = inferredTree source types trees (returnedTypes marks).head? ∧
        after = before.withScopes (definedScopes root (earlier ++ [tree]))) ∧
    ((∃ after, (checkFunction source).Fails before (.resultUnknown source.name types.length)
        after) ↔
      ∃ front back, marks = front ++ .recursion :: back ∧ .recursion ∉ front ∧
        Fitting (returnedTypes front)) ∧
    ∀ type first, (∃ after, (checkFunction source).Fails before (.notAssignable type first)
        after) ↔
      ∃ front back, marks = front ++ .returned type :: back ∧ .recursion ∉ front ∧
        Fitting (returnedTypes front) ∧ (returnedTypes front).head? = some first ∧
        ¬ Assignable first type := by
  subst whole
  refine ⟨fun tree after => ?_, ?_, fun type first => ?_⟩
  · rw [typed.passes_iff same]
    simp only [judge_ok_iff, Option.toList_none, List.nil_append]
    constructor
    · rintro ⟨inferred, ⟨free, fits, rfl⟩, rfl, rfl⟩
      exact ⟨free, fits, rfl, rfl⟩
    · rintro ⟨free, fits, rfl, rfl⟩
      exact ⟨_, ⟨free, fits, rfl⟩, rfl, rfl⟩
  · rw [typed.fails_iff same, judge_unknown_iff]
  · rw [typed.fails_iff same, judge_misfit_iff]

end Functions

/-- A parameter that is an integer. -/
def numberEntry : Variable Unit :=
  ⟨"n", .integer, true, ()⟩

/-- An operation on the parameter and one. -/
def numberUse (operator : String) : Expr .bare :=
  .binary () operator (.access () () "n") (.literal () (.integer 1))

/-- What becomes of it. -/
def numberTree (type : Ty) (operator : String) : Expr .checked :=
  .binary type operator (.access .integer numberEntry "n") (.literal .integer (.integer 1))

/-- A use of a name becomes the variable that the name means. -/
theorem access_derives {used : String} {entry : Variable Unit}
    (bound : (scopes.find? used).map Binding.entry = some entry) :
    ExprDerives scopes (.access () () used) (.access entry.type entry used) := by
  obtain ⟨binding, found, rfl⟩ := Option.map_eq_some_iff.mp bound
  exact .access found

/-- An operator on the parameter and one has the type that the operator gives. -/
theorem numberUse_derives {type : Ty} {operator : String}
    (bound : (scopes.find? "n").map Binding.entry = some numberEntry)
    (typed : OperatorDerives operator .integer .integer type) :
    ExprDerives scopes (numberUse operator) (numberTree type operator) :=
  .binary (access_derives bound) (.literal (.integer (by decide) (by decide))) typed

/-- A function whose first return stands in a loop: for an `n` below one it returns the
variable `best`, declared as `Comparable`, and two otherwise. -/
def pick : FunctionDef .bare :=
  ⟨"pick", ["n"], [some "Integer"], none,
    [.loop (numberUse "<")
      [.declaration () "best" (some "Comparable") (some (.access () () "n")),
       .returning (.access () () "best")],
     .returning (.literal () (.integer 2))], ()⟩

/-- What its body becomes. -/
def pickTrees : List (Stmt .checked) :=
  [.loop (numberTree .boolean "<")
    [.declaration ⟨"best", .comparable, true, ()⟩ "best" (some "Comparable")
       (some (.access .integer numberEntry "n")),
     .returning (.access .comparable ⟨"best", .comparable, true, ()⟩ "best")],
   .returning (.literal .integer (.integer 2))]

/-- The function that returns two types is well typed but for its result. -/
theorem pick_typed : OtherwiseTyped [] [] pick [.integer] .nil pickTrees where
  undeclared := rfl
  parameterTypes := .cons (.typed .integer) .nil
  lengths := rfl
  distinct := by decide
  fresh := rfl
  body := by
    refine .cons (.loop (numberUse_derives rfl (.comparison (by decide) .integer)) rfl ?_) ?_
    · refine .cons (.declaration rfl (@BindingDerives.initialised _ .comparable _ _ ?_))
        (.cons (.returning ?_ (.any _)) .nil)
      · exact .plain (@access_derives _ "n" numberEntry rfl) .integer
      · exact @access_derives _ "best" ⟨"best", .comparable, true, ()⟩ rfl
    · exact .cons (.returning (.literal (.integer (by decide) (by decide))) (.any _)) .nil

/-- The result of `pick` is that of its first return, which the second one fits. -/
theorem pick_comparable :
    blockMarks "pick" 1 pickTrees = [.returned .comparable, .returned .integer] ∧
      (checkFunction pick).Passes Checker.initial
        (inferredTree pick [.integer] pickTrees (some .comparable))
        (Checker.initial.withScopes (definedScopes []
          [inferredTree pick [.integer] pickTrees (some .comparable)])) := by
  have marks : blockMarks pick.name 1 pickTrees = [.returned .comparable, .returned .integer] := by
    decide
  have fitting : Fitting (returnedTypes [.returned .comparable, .returned .integer]) := by
    simp [returnedTypes, Fitting, Assignable.integer]
  have result := (result_is_inferred pick_typed (rfl : Checker.initial.environment = _) marks).1
  exact ⟨marks, (result _ _).mpr ⟨by decide, fitting, rfl, rfl⟩⟩

/-- A program with a function that counts down, and calls itself behind its first return. -/
def countingText : String :=
  "FUN count(n: Integer) DO IF n < 1 DO RETURN 0; END RETURN count(n - 1); END " ++
    "FUN main(): Integer DO RETURN count(3); END"

/-- Its first function. -/
def count : FunctionDef .bare :=
  ⟨"count", ["n"], [some "Integer"], none,
    [.conditional (numberUse "<") [.returning (.literal () (.integer 0))] [],
     .returning (.call () () "count" [numberUse "-"])], ()⟩

/-- What its body becomes, with an integer as its result. -/
def countTrees : List (Stmt .checked) :=
  [.conditional (numberTree .boolean "<") [.returning (.literal .integer (.integer 0))] [],
   .returning (.call .integer ⟨[.integer], .integer⟩ "count" [numberTree .integer "-"])]

/-- The function that calls itself is well typed but for its result. -/
theorem count_typed : OtherwiseTyped [] [] count [.integer] .integer countTrees where
  undeclared := rfl
  parameterTypes := .cons (.typed .integer) .nil
  lengths := rfl
  distinct := by decide
  fresh := rfl
  body := by
    refine .cons (.conditional (numberUse_derives rfl (.comparison (by decide) .integer)) rfl
      (by simp) ?_ .nil) (.cons (.returning ?_ (.any _)) .nil)
    · exact .cons (.returning (.literal (.integer (by decide) (by decide))) (.any _)) .nil
    · refine @ExprDerives.call _ _ _ _ ⟨"count", [.integer], some .integer, none⟩ _ rfl rfl ?_
      refine .cons ?_ (.same _) .nil
      exact numberUse_derives rfl (.arithmetic (by decide) (by decide))

/-- The whole program. -/
def countingProgram : Program .bare :=
  ⟨[], [count, ⟨"main", [], [], some "Integer",
    [.returning (.call () () "count" [.literal () (.integer 3)])], ()⟩]⟩

/-- A call behind a return is refused too: counting down is well typed with the type of its
first return as its result, but the program is refused for want of it. -/
theorem counting_refused :
    parseProgram countingText = .ok countingProgram ∧
      OtherwiseTyped [] [] count [.integer] .integer countTrees ∧
      blockMarks "count" 1 countTrees = [.returned .integer, .recursion, .returned .integer] ∧
      check countingProgram = .error (.resultUnknown "count" 1) := by
  refine ⟨by cbv, count_typed, by decide, by cbv⟩

end Blockscript.Typing
