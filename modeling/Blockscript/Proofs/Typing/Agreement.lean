import Blockscript.Proofs.Grammar.Exactness
import Blockscript.Proofs.Typing.Decision
import Blockscript.Proofs.Typing.Programs
import Mathlib

/-!
# Checker and rules agree

What passes is derived, and what is derived passes: first for statements, whose checking
adds the declared variables to the scopes and leaves the blocks that it has entered, then
for globals and functions, and at the end for whole programs.

The functions here declare their result. A function without a declared result has its type
from its returns in the order of the text, which the rules do not follow.
-/

namespace Blockscript.Typing

variable {before after : Checker} {site : Site} {scopes : Scopes} {result : Ty}

/-- The checker with other scopes. -/
def Checker.withScopes (checker : Checker) (scopes : Scopes) : Checker :=
  { checker with environment := scopes.environment }

/-- Scopes that are replaced twice are those of the second time. -/
@[simp] theorem Checker.withScopes_withScopes (checker : Checker) (first second : Scopes) :
    (checker.withScopes first).withScopes second = checker.withScopes second :=
  rfl

/-! ## Statements -/

/-- A returned value has to fit the declared result. -/
theorem checkReturned_iff {type : Ty} {done : Unit}
    (declares : before.returns.declared = some result) :
    (checkReturned type).Passes before done after ↔ after = before ∧ Assignable result type := by
  simp only [checkReturned, bind_passes, get_passes]
  constructor
  · rintro ⟨_, _, ⟨rfl, rfl⟩, passes⟩
    simp only [declares, rule_passes, requireAssignable_iff] at passes
    exact passes.symm
  · rintro ⟨rfl, assignable⟩
    refine ⟨_, _, ⟨rfl, rfl⟩, ?_⟩
    simp only [declares, rule_passes, requireAssignable_iff]
    exact ⟨assignable, trivial⟩

/-- A condition has to be Boolean. -/
theorem checkCondition_iff {keyword : String} {source : Expr .bare} {tree : Expr .checked}
    (same : before.environment = scopes.environment) :
    (checkCondition keyword source).Passes before tree after ↔
      after = before ∧ ExprDerives scopes source tree ∧ tree.type = .boolean := by
  simp only [checkCondition, bind_passes, checkExpr_iff same, ite_passes, pure_passes,
    throw_passes, and_false, or_false]
  constructor
  · rintro ⟨_, _, ⟨rfl, derived⟩, boolean, rfl, rfl⟩
    exact ⟨rfl, derived, boolean⟩
  · rintro ⟨rfl, derived, boolean⟩
    exact ⟨_, _, ⟨rfl, derived⟩, boolean, rfl, rfl⟩

/-- The definition of a variable passes when its name is free in the innermost level. -/
theorem define_iff {name : String} {type : Ty} {mutable : Bool} {entry : Variable Unit}
    (origin : Origin) (same : before.environment = scopes.environment) :
    (Check.define name type mutable).Passes before entry after ↔
      entry = ⟨name, type, mutable, ()⟩ ∧
        scopes.innermost.find? (Binding.isNamed name) = none ∧
        after = before.withScopes (scopes.declare ⟨origin, entry⟩) := by
  simp only [define_passes, same]
  constructor
  · rintro ⟨rfl, environment, defined, rfl⟩
    obtain ⟨fresh, rfl⟩ := Scopes.defineVariable_environment defined origin
    exact ⟨rfl, fresh, rfl⟩
  · rintro ⟨rfl, fresh, rfl⟩
    exact ⟨rfl, _, Scopes.defineVariable_fresh origin fresh, rfl⟩

/-- What is shown of statements that pass: they are derived, and define variables at most. -/
def BlockDecides (result : Ty) (site : Site) (source : List (Stmt .bare)) : Prop :=
  ∀ {before after : Checker} {trees : List (Stmt .checked)},
    before.environment = site.scopes.environment → before.returns.declared = some result →
    (checkBlock source).Passes before trees after →
      (∃ bindings, after = before.withScopes (site.scopes.extend bindings)) ∧
        BlockDerives result site source trees

/-- A block that passes in a scope of its own is derived there, and leaves no trace. -/
theorem BlockDecides.inScope {number : Nat} {source : List (Stmt .bare)}
    {trees : List (Stmt .checked)} (decides : BlockDecides result (site.block number) source)
    (same : before.environment = site.scopes.environment)
    (declares : before.returns.declared = some result)
    (passes : (Check.inScope (checkBlock source)).Passes before trees after) :
    after = before ∧ BlockDerives result (site.block number) source trees := by
  have holds := inScope_sound
    (fun returns => returns = before.returns ∧
      BlockDerives result (site.block number) source trees) same ?_ passes
  · obtain ⟨restored, returned, derived⟩ := holds
    refine ⟨?_, derived⟩
    obtain ⟨environment, returns⟩ := after
    obtain ⟨environmentBefore, returnsBefore⟩ := before
    cases restored.trans same.symm
    cases returned
    rfl
  · intro inside checked
    obtain ⟨⟨bindings, rfl⟩, derived⟩ :=
      @decides ⟨site.scopes.enter.environment, before.returns⟩ _ _ rfl declares checked
    exact ⟨⟨bindings, rfl⟩, rfl, derived⟩

/-- A block that passes in the entered scopes passes in a scope of its own. -/
theorem inScope_pass {number : Nat} {source : List (Stmt .bare)} {trees : List (Stmt .checked)}
    (same : before.environment = site.scopes.environment)
    (passes : ∃ bindings, (checkBlock source).Passes
      (before.withScopes (site.block number).scopes) trees
        (before.withScopes ((site.block number).scopes.extend bindings))) :
    (Check.inScope (checkBlock source)).Passes before trees before := by
  obtain ⟨bindings, passes⟩ := passes
  rw [inScope_passes, same, Scopes.openScope_environment]
  refine ⟨_, site.scopes.environment, passes, ?_, ?_⟩
  · exact Scopes.closeScope_environment site.scopes bindings
  · rw [Checker.withScopes, ← same]

/-- A conditional that passes is derived, if its blocks are. -/
theorem checkConditional_derives {condition : Expr .bare}
    {thenSource elseSource : List (Stmt .bare)} {tree : Stmt .checked}
    (thenDecides : BlockDecides result (site.block 0) thenSource)
    (elseDecides : BlockDecides result (site.block 1) elseSource)
    (same : before.environment = site.scopes.environment)
    (declares : before.returns.declared = some result)
    (passes : (checkStmt (.conditional condition thenSource elseSource)).Passes before tree after) :
    after = before.withScopes (site.after tree).scopes ∧
      StmtDerives result site (.conditional condition thenSource elseSource) tree := by
  simp only [checkStmt, bind_passes, checkCondition_iff same, ite_passes, throw_passes, false_and,
    exists_false, and_false, false_or, pure_passes] at passes
  obtain ⟨tree, _, ⟨rfl, derived, boolean⟩, filled, thenTrees, _, first, elseTrees, _, second,
    rfl, rfl⟩ := passes
  obtain ⟨rfl, thenDerived⟩ := thenDecides.inScope same declares first
  obtain ⟨rfl, elseDerived⟩ := elseDecides.inScope same declares second
  refine ⟨?_, .conditional derived boolean (by simpa using filled) thenDerived elseDerived⟩
  rw [Checker.withScopes]
  exact congrArg (fun environment => (⟨environment, after.returns⟩ : Checker)) same

/-- A default that passes is derived, if its block is. -/
theorem checkDefault_derives {source : List (Stmt .bare)} {subject : Ty} {number : Nat}
    {trees : List (Case .checked)} (decides : BlockDecides result (site.block number) source)
    (same : before.environment = site.scopes.environment)
    (declares : before.returns.declared = some result)
    (passes : (checkCases subject [.mk none source]).Passes before trees after) :
    after = before ∧ CasesDerives result subject site number [.mk none source] trees := by
  simp only [checkCases, checkLabel, List.isEmpty_nil, bind_passes, pure_passes] at passes
  obtain ⟨_, _, ⟨rfl, rfl⟩, body, _, checked, _, _, ⟨rfl, rfl⟩, rfl, rfl⟩ := passes
  obtain ⟨rfl, derived⟩ := decides.inScope same declares checked
  exact ⟨rfl, .default derived⟩

/-- A statement that declares nothing leaves the state as it is. -/
theorem withScopes_same (same : before.environment = site.scopes.environment) :
    before = before.withScopes site.scopes := by
  rw [Checker.withScopes, ← same]

mutual

/-- A statement that passes has its type derived, and the checker stands behind it as the text
does. -/
theorem checkStmt_derives : ∀ {tokens : List Token} {source : Stmt .bare},
    Grammar.Phrase.Statement tokens source →
    ∀ {site : Site} {before after : Checker} {tree : Stmt .checked},
      before.environment = site.scopes.environment → before.returns.declared = some result →
      (checkStmt source).Passes before tree after →
        after = before.withScopes (site.after tree).scopes ∧ StmtDerives result site source tree
  | _, _, .declaration _ _ _ _ _, site, before, after, tree, same, _, passes => by
    simp only [checkStmt, bind_passes, pure_passes] at passes
    obtain ⟨⟨type, value⟩, _, bound, entry, _, defined, rfl, rfl⟩ := passes
    obtain ⟨rfl, derived⟩ := (checkBinding_iff same).mp bound
    obtain ⟨rfl, fresh, rfl⟩ := (define_iff (.declaration site.path) same).mp defined
    exact ⟨rfl, .declaration fresh derived⟩
  | _, _, .switch _ _ listed _, site, before, after, tree, same, declares, passes => by
    simp only [checkStmt, bind_passes, checkExpr_iff same] at passes
    obtain ⟨subject, _, ⟨rfl, derived⟩, passes⟩ := passes
    simp only [ite_passes, bind_passes, throw_passes, false_and, exists_false, and_false,
      false_or, pure_passes] at passes
    obtain ⟨_, trees, _, checked, rfl, rfl⟩ := passes
    obtain ⟨rfl, casesDerived⟩ := checkCases_derives listed same declares checked
    exact ⟨withScopes_same same, .switch derived casesDerived⟩
  | _, _, .conditional _ _ _ bodyPhrase _, site, before, after, tree, same, declares, passes =>
    checkConditional_derives (checkBlock_derives bodyPhrase) (checkBlock_derives .empty) same
      declares passes
  | _, _, .alternative _ _ _ bodyPhrase _ otherPhrase _, site, before, after, tree, same,
      declares, passes =>
    checkConditional_derives (checkBlock_derives bodyPhrase) (checkBlock_derives otherPhrase) same
      declares passes
  | _, _, .loop _ _ _ bodyPhrase _, site, before, after, tree, same, declares, passes => by
    simp only [checkStmt, bind_passes, checkCondition_iff same, pure_passes] at passes
    obtain ⟨condition, _, ⟨rfl, derived, boolean⟩, body, _, checked, rfl, rfl⟩ := passes
    obtain ⟨rfl, bodyDerived⟩ :=
      BlockDecides.inScope (checkBlock_derives bodyPhrase) same declares checked
    exact ⟨withScopes_same same, .loop derived boolean bodyDerived⟩
  | _, _, .returning _ _ _, site, before, after, tree, same, declares, passes => by
    simp only [checkStmt, bind_passes, checkExpr_iff same, pure_passes] at passes
    obtain ⟨value, _, ⟨rfl, derived⟩, _, _, returned, rfl, rfl⟩ := passes
    obtain ⟨rfl, assignable⟩ := (checkReturned_iff declares).mp returned
    exact ⟨withScopes_same same, .returning derived assignable⟩
  | _, _, @Grammar.Phrase.Statement.expression _ _ inner _ _ _, site, before, after, tree, same, _,
      passes => by
    simp only [checkStmt, ite_passes, bind_passes, checkExpr_iff same, pure_passes, throw_passes,
      and_false, or_false] at passes
    obtain ⟨call, _, _, ⟨rfl, derived⟩, rfl, rfl⟩ := passes
    refine ⟨withScopes_same same, ?_⟩
    cases inner with
    | call _ _ name arguments => exact .expression derived
    | _ => simp [Expr.isCall] at call
  | _, _, .assignment _ _ _ _ _ _, site, before, after, tree, same, _, passes => by
    simp only [checkStmt, ite_passes, bind_passes, checkExpr_iff same, rule_passes, pure_passes,
      throw_passes, and_false, or_false, requireAssignable_iff] at passes
    obtain ⟨place, receiver, _, ⟨rfl, receiverDerived⟩, value, _, second, _, _, ⟨assignable, rfl⟩,
      rfl, rfl⟩ := passes
    obtain ⟨rfl, derived⟩ := checkValue_derives same second assignable
    exact ⟨withScopes_same same, .assignment place receiverDerived derived⟩

/-- A block that passes has the types of its statements derived. -/
theorem checkBlock_derives : ∀ {tokens : List Token} {sources : List (Stmt .bare)},
    Grammar.Phrase.Block tokens sources → ∀ {site : Site}, BlockDecides result site sources
  | _, _, .empty, site, before, after, trees, same, _, passes => by
    simp only [checkBlock, pure_passes] at passes
    obtain ⟨rfl, rfl⟩ := passes
    refine ⟨⟨[], ?_⟩, .nil⟩
    rw [Scopes.extend_nil]
    exact withScopes_same same
  | _, _, .cons phrase _ later, site, before, after, trees, same, declares, passes => by
    simp only [checkBlock, bind_passes, pure_passes] at passes
    obtain ⟨first, _, earlier, rest, _, further, rfl, rfl⟩ := passes
    obtain ⟨rfl, firstDerived⟩ := checkStmt_derives phrase same declares earlier
    obtain ⟨⟨bindings, rfl⟩, restDerived⟩ :=
      @checkBlock_derives _ _ later (site.after first)
        (before.withScopes (site.after first).scopes) _ _ rfl declares further
    obtain ⟨declared, behind⟩ := site.after_scopes first
    refine ⟨⟨declared ++ bindings, ?_⟩, .cons firstDerived restDerived⟩
    rw [behind, Scopes.extend_extend]
    rfl

/-- Cases that pass have their types derived. -/
theorem checkCases_derives : ∀ {tokens : List Token} {sources : List (Case .bare)},
    Grammar.Phrase.Cases tokens sources →
    ∀ {subject : Ty} {site : Site} {number : Nat} {before after : Checker}
      {trees : List (Case .checked)},
      before.environment = site.scopes.environment → before.returns.declared = some result →
      (checkCases subject sources).Passes before trees after →
        after = before ∧ CasesDerives result subject site number sources trees
  | _, _, .labelled _ _ _ bodyPhrase later, subject, site, number, before, after, trees, same,
      declares, passes => by
    simp only [checkCases, bind_passes, pure_passes] at passes
    obtain ⟨label, _, labels, body, _, checked, rest, _, further, rfl, rfl⟩ := passes
    generalize List.isEmpty _ = last at labels
    cases last with
    | true => exact (throw_passes.mp labels).elim
    | false =>
      simp only [checkLabel, bind_passes, checkExpr_iff same, ite_passes, pure_passes,
        throw_passes, and_false, or_false] at labels
      obtain ⟨tree, _, ⟨rfl, derived⟩, agrees, rfl, rfl⟩ := labels
      obtain ⟨rfl, bodyDerived⟩ :=
        BlockDecides.inScope (checkBlock_derives bodyPhrase) same declares checked
      obtain ⟨rfl, restDerived⟩ := checkCases_derives later same declares further
      exact ⟨rfl, .labelled derived agrees bodyDerived restDerived⟩
  | _, _, .default _ _ bodyPhrase, subject, site, number, before, after, trees, same, declares,
      passes =>
    checkDefault_derives (checkBlock_derives bodyPhrase) same declares passes
  | _, _, .bareDefault _ bodyPhrase, subject, site, number, before, after, trees, same, declares,
      passes =>
    checkDefault_derives (checkBlock_derives bodyPhrase) same declares passes

end

mutual

/-- A statement that is derived passes. -/
theorem stmt_passes : ∀ {site : Site} {source : Stmt .bare} {tree : Stmt .checked},
    StmtDerives result site source tree → ∀ {before : Checker},
      before.environment = site.scopes.environment → before.returns.declared = some result →
      (checkStmt source).Passes before tree (before.withScopes (site.after tree).scopes)
  | site, _, _, .expression derived, before, same, _ => by
    rw [checkStmt, if_pos (show Expr.isCall _ = true from rfl)]
    simp only [bind_passes, pure_passes]
    exact ⟨_, _, expr_passes derived same, rfl, (withScopes_same same).symm⟩
  | site, _, _, .declaration fresh derived, before, same, _ => by
    simp only [checkStmt, bind_passes, pure_passes]
    exact ⟨_, _, (checkBinding_iff same).mpr ⟨rfl, derived⟩, _, _,
      (define_iff (.declaration site.path) same).mpr ⟨rfl, fresh, rfl⟩, rfl, rfl⟩
  | site, _, _, .assignment place receiver derived, before, same, _ => by
    obtain ⟨stored, assignable⟩ := value_passes derived same
    rw [checkStmt, if_pos place]
    simp only [bind_passes, rule_passes, pure_passes, requireAssignable_iff]
    exact ⟨_, _, expr_passes receiver same, _, _, stored, (), _, ⟨assignable, rfl⟩, rfl,
      (withScopes_same same).symm⟩
  | site, _, _, .conditional derived boolean filled thenDerived elseDerived, before, same,
      declares => by
    simp only [checkStmt, bind_passes, checkCondition_iff same, ite_passes, throw_passes,
      false_and, exists_false, and_false, false_or, pure_passes]
    exact ⟨_, _, ⟨rfl, derived, boolean⟩, by simpa using filled, _, _,
      inScope_pass same (block_passes thenDerived rfl declares), _, _,
      inScope_pass same (block_passes elseDerived rfl declares), rfl, (withScopes_same same).symm⟩
  | site, _, _, .switch derived casesDerived, before, same, declares => by
    obtain ⟨filled, passes⟩ := cases_pass casesDerived same declares
    simp only [checkStmt, bind_passes, checkExpr_iff same]
    refine ⟨_, _, ⟨rfl, derived⟩, ?_⟩
    simp only [ite_passes, bind_passes, throw_passes, false_and, exists_false, and_false,
      false_or, pure_passes]
    exact ⟨by simpa using filled, _, _, passes, rfl, (withScopes_same same).symm⟩
  | site, _, _, .loop derived boolean bodyDerived, before, same, declares => by
    simp only [checkStmt, bind_passes, checkCondition_iff same, pure_passes]
    exact ⟨_, _, ⟨rfl, derived, boolean⟩, _, _,
      inScope_pass same (block_passes bodyDerived rfl declares), rfl, (withScopes_same same).symm⟩
  | site, _, _, .returning derived assignable, before, same, declares => by
    simp only [checkStmt, bind_passes, pure_passes]
    exact ⟨_, _, expr_passes derived same, (), _,
      (checkReturned_iff declares).mpr ⟨rfl, assignable⟩, rfl, (withScopes_same same).symm⟩

/-- Statements that are derived pass, and define variables at most. -/
theorem block_passes : ∀ {site : Site} {sources : List (Stmt .bare)}
    {trees : List (Stmt .checked)}, BlockDerives result site sources trees →
    ∀ {before : Checker}, before.environment = site.scopes.environment →
      before.returns.declared = some result →
      ∃ bindings, (checkBlock sources).Passes before trees
        (before.withScopes (site.scopes.extend bindings))
  | site, _, _, .nil, before, same, _ => by
    refine ⟨[], ?_⟩
    simp only [checkBlock, pure_passes]
    refine ⟨trivial, ?_⟩
    rw [Scopes.extend_nil]
    exact (withScopes_same same).symm
  | site, _, _, @BlockDerives.cons _ _ _ _ tree _ firstDerived restDerived, before, same,
      declares => by
    obtain ⟨declared, behind⟩ := site.after_scopes tree
    have first := stmt_passes firstDerived same declares
    obtain ⟨bindings, rest⟩ := @block_passes _ _ _ restDerived
      (before.withScopes (site.after tree).scopes) rfl declares
    refine ⟨declared ++ bindings, ?_⟩
    rw [← Scopes.extend_extend, ← behind]
    simp only [checkBlock, bind_passes, pure_passes]
    exact ⟨_, _, first, _, _, rest, rfl, rfl⟩

/-- Cases that are derived pass, and there are some. -/
theorem cases_pass : ∀ {subject : Ty} {site : Site} {number : Nat} {sources : List (Case .bare)}
    {trees : List (Case .checked)}, CasesDerives result subject site number sources trees →
    ∀ {before : Checker}, before.environment = site.scopes.environment →
      before.returns.declared = some result →
      sources ≠ [] ∧ (checkCases subject sources).Passes before trees before
  | subject, site, number, _, _, .default derived, before, same, declares => by
    refine ⟨by simp, ?_⟩
    simp only [checkCases, checkLabel, List.isEmpty_nil, bind_passes, pure_passes]
    exact ⟨_, _, ⟨rfl, rfl⟩, _, _, inScope_pass same (block_passes derived rfl declares), _, _,
      ⟨rfl, rfl⟩, rfl, rfl⟩
  | subject, site, number, _, _, .labelled derived agrees bodyDerived restDerived, before, same,
      declares => by
    obtain ⟨filled, further⟩ := cases_pass restDerived same declares
    refine ⟨by simp, ?_⟩
    simp only [checkCases, bind_passes, pure_passes, List.isEmpty_eq_false_iff.mpr filled,
      checkLabel, checkExpr_iff same, ite_passes, throw_passes, and_false, or_false]
    exact ⟨_, _, ⟨_, _, ⟨rfl, derived⟩, agrees, rfl, rfl⟩, _, _,
      inScope_pass same (block_passes bodyDerived rfl declares), _, _, further, rfl, rfl⟩

end

/-! ## Globals -/

/-- A global passes exactly with what is derived for it. -/
theorem checkGlobal_iff {root : List Binding} {source : GlobalDef .bare}
    {tree : GlobalDef .checked} (same : before.environment = (rootScopes root).environment) :
    (checkGlobal source).Passes before tree after ↔
      after = before.withScopes (rootScopes (root ++ [tree.binding root.length])) ∧
        GlobalDerives root source tree := by
  have valued : ¬(!source.mutable && source.value.isNone) = true ↔
      (source.mutable = false → source.value ≠ none) := by
    simp
  simp only [checkGlobal, ite_passes, throw_passes, false_and, exists_false, and_false, false_or,
    valued, bind_passes, pure_passes]
  constructor
  · rintro ⟨some, ⟨type, value⟩, _, bound, entry, _, defined, rfl, rfl⟩
    obtain ⟨rfl, derived⟩ := (checkBinding_iff same).mp bound
    obtain ⟨rfl, fresh, rfl⟩ := (define_iff (.globalDef root.length) same).mp defined
    exact ⟨rfl, rfl, rfl, rfl, rfl, some, fresh, derived⟩
  · obtain ⟨name, typeName, mutable, value, entry⟩ := tree
    rintro ⟨rfl, rfl, rfl, rfl, known, some, fresh, derived⟩
    exact ⟨some, _, _, (checkBinding_iff same).mpr ⟨rfl, derived⟩, _, _,
      (define_iff (.globalDef root.length) same).mpr ⟨known, fresh, rfl⟩, rfl, rfl⟩

/-- Globals pass exactly with what is derived for them. -/
theorem checkGlobals_iff {root : List Binding} {sources : List (GlobalDef .bare)}
    {trees : List (GlobalDef .checked)}
    (same : before.environment = (rootScopes root).environment) :
    (checkGlobals sources).Passes before trees after ↔
      after = before.withScopes (rootScopes (root ++ trees.mapIdx fun index definition =>
        definition.binding (root.length + index))) ∧
        GlobalsDerive root sources trees := by
  induction sources generalizing root before after trees with
  | nil =>
    simp only [checkGlobals, pure_passes]
    constructor
    · rintro ⟨rfl, rfl⟩
      exact ⟨by simp [Checker.withScopes, ← same], .nil⟩
    · rintro ⟨rfl, derived⟩
      cases derived
      exact ⟨rfl, by simp [Checker.withScopes, ← same]⟩
  | cons source sources inductionHypothesis =>
    simp only [checkGlobals, bind_passes, pure_passes, checkGlobal_iff same]
    constructor
    · rintro ⟨first, _, ⟨rfl, derived⟩, rest, _, later, rfl, rfl⟩
      obtain ⟨rfl, others⟩ := (@inductionHypothesis _ _ _ _ (by rfl)).mp later
      refine ⟨?_, .cons derived others⟩
      simp [Checker.withScopes, List.mapIdx_cons, Nat.add_assoc, Nat.add_comm 1]
    · rintro ⟨rfl, derived⟩
      cases derived with
      | cons derived others =>
        refine ⟨_, _, ⟨rfl, derived⟩, _, _, (inductionHypothesis rfl).mpr ⟨rfl, others⟩, rfl, ?_⟩
        simp [Checker.withScopes, List.mapIdx_cons, Nat.add_assoc, Nat.add_comm 1]

/-! ## Functions -/

/-- Parameters have the types that are derived for them. -/
theorem parameterTypes_iff {names : List (Option String)} {types : List Ty} :
    (parameterTypes names).Passes before types after ↔
      after = before ∧ List.Forall₂ ParameterDerives names types := by
  induction names generalizing types before after with
  | nil =>
    simp only [parameterTypes, pure_passes, List.forall₂_nil_left_iff]
    exact and_comm
  | cons name names inductionHypothesis =>
    cases name with
    | none =>
      simp only [parameterTypes, bind_passes, pure_passes, inductionHypothesis]
      constructor
      · rintro ⟨rest, _, ⟨rfl, derived⟩, rfl, rfl⟩
        exact ⟨rfl, .cons .untyped derived⟩
      · rintro ⟨rfl, derived⟩
        cases derived with
        | cons first derived =>
          cases first with
          | untyped => exact ⟨_, _, ⟨rfl, derived⟩, rfl, rfl⟩
    | some name =>
      simp only [parameterTypes, bind_passes, rule_passes, pure_passes, resolve_iff,
        inductionHypothesis]
      constructor
      · rintro ⟨type, _, ⟨rfl, rfl⟩, rest, _, ⟨rfl, derived⟩, rfl, rfl⟩
        exact ⟨rfl, .cons (.typed type) derived⟩
      · rintro ⟨rfl, derived⟩
        cases derived with
        | cons first derived =>
          cases first with
          | typed type => exact ⟨_, _, ⟨rfl, rfl⟩, _, _, ⟨rfl, derived⟩, rfl, rfl⟩

/-- Parameters with different names can be defined in a scope of their own. -/
theorem defineParameters_passes (index position : Nat) {names : List String} {types : List Ty}
    (lengths : names.length = types.length) (same : before.environment = scopes.environment)
    (distinct : names.Nodup)
    (free : ∀ name ∈ names, scopes.innermost.find? (Binding.isNamed name) = none) :
    (defineParameters names types).Passes before ()
      (before.withScopes (scopes.extend (parameterBindings index position names types))) := by
  induction names generalizing types position scopes before with
  | nil =>
    obtain rfl := List.length_eq_zero_iff.mp lengths.symm
    simp only [defineParameters, pure_passes]
    simp [parameterBindings, Scopes.extend_nil, Checker.withScopes, ← same]
  | cons name names inductionHypothesis =>
    obtain ⟨type, types, rfl⟩ := List.exists_cons_of_length_eq_add_one lengths.symm
    have defined : (Check.define name type true).Passes before ⟨name, type, true, ()⟩
        (before.withScopes (scopes.declare ⟨.parameter index position,
          ⟨name, type, true, ()⟩⟩)) :=
      (define_iff (.parameter index position) same).mpr ⟨rfl, free name (by simp), rfl⟩
    obtain ⟨absent, others⟩ := List.nodup_cons.mp distinct
    have later := inductionHypothesis (position + 1) (Nat.succ.inj lengths)
      (rfl : (before.withScopes (scopes.declare ⟨.parameter index position,
        ⟨name, type, true, ()⟩⟩)).environment = _) others ?_
    · simp only [defineParameters, bind_passes, discard_passes]
      refine ⟨⟨⟩, _, ⟨_, defined⟩, ?_⟩
      rw [parameterBindings_cons]
      simpa only [Scopes.declare, Scopes.extend_extend, Checker.withScopes_withScopes,
        List.singleton_append] using later
    · intro other member
      have apart : name ≠ other := by
        rintro rfl
        exact absent member
      rw [Scopes.declare, Scopes.innermost_extend, List.find?_append,
        free other (List.mem_cons_of_mem _ member)]
      simp [Binding.isNamed, apart]

/-- The body of a function with a declared result passes exactly with what is derived for it
behind its parameters, which have different names. -/
theorem checkBody_iff {tokens : List Token} {source : List (Stmt .bare)} {names : List String}
    {types : List Ty} {inferred : Option Ty} {trees : List (Stmt .checked)}
    (phrase : Grammar.Phrase.Block tokens source) (index : Nat)
    (lengths : names.length = types.length) (same : before.environment = scopes.environment) :
    (Check.inFunction (some result) (Check.inScope do
      defineParameters names types
      checkBlock source)).Passes before (trees, inferred) after ↔
        after = before ∧ inferred = none ∧ names.Nodup ∧
          BlockDerives result
            ⟨scopes.enter.extend (parameterBindings index 0 names types), [0, index]⟩ source
            trees := by
  rw [inFunction_passes]
  constructor
  · rintro ⟨inside, checked, rfl, rfl⟩
    have unchanged : ({ before with returns := ⟨some result, none⟩ } : Checker).environment =
        scopes.environment := same
    have holds := inScope_sound
      (fun returns => returns = ⟨some result, none⟩ ∧ names.Nodup ∧
        BlockDerives result
          ⟨scopes.enter.extend (parameterBindings index 0 names types), [0, index]⟩ source trees)
      unchanged ?_ checked
    · obtain ⟨restored, returned, distinct, derived⟩ := holds
      refine ⟨?_, by rw [returned], distinct, derived⟩
      rw [restored, ← same]
    · intro within passes
      rw [bind_passes] at passes
      obtain ⟨_, middle, parameters, block⟩ := passes
      obtain ⟨rfl, distinct, _⟩ :=
        @defineParameters_sound _ _ index 0 names types scopes.enter _ lengths rfl parameters
      obtain ⟨⟨bindings, rfl⟩, derived⟩ := @checkBlock_derives result _ _ phrase
        ⟨scopes.enter.extend (parameterBindings index 0 names types), [0, index]⟩ _ _ _ rfl rfl
        block
      refine ⟨⟨parameterBindings index 0 names types ++ bindings, ?_⟩, rfl, distinct, derived⟩
      rw [Checker.withScopes, Scopes.extend_extend]
  · rintro ⟨rfl, rfl, distinct, derived⟩
    have parameters := @defineParameters_passes
      ⟨scopes.enter.environment, ⟨some result, none⟩⟩ scopes.enter index 0 names types lengths rfl
      distinct fun _ _ => rfl
    obtain ⟨bindings, block⟩ := @block_passes result _ _ _ derived
      ((⟨scopes.enter.environment, ⟨some result, none⟩⟩ : Checker).withScopes
        (scopes.enter.extend (parameterBindings index 0 names types))) rfl rfl
    refine ⟨⟨scopes.environment, ⟨some result, none⟩⟩, ?_, rfl, ?_⟩
    · rw [inScope_passes]
      simp only [same, Scopes.openScope_environment, bind_passes]
      refine ⟨_, scopes.environment, ⟨(), _, parameters, block⟩, ?_, rfl⟩
      rw [Scopes.extend_extend, Checker.withScopes, Scopes.enter_extend]
      exact Scopes.closeScope_environment scopes _
    · rw [← same]

/-- The declared result of a function is what its name means. -/
theorem resultType?_iff {name : String} {declared : Option Ty} :
    (resultType? (some name)).Passes before declared after ↔
      after = before ∧ ∃ type, name = type.text ∧ declared = some type := by
  simp only [resultType?, bind_passes, rule_passes, pure_passes, resolve_iff]
  constructor
  · rintro ⟨type, _, ⟨named, rfl⟩, rfl, rfl⟩
    exact ⟨rfl, type, named, rfl⟩
  · rintro ⟨rfl, type, named, rfl⟩
    exact ⟨type, _, ⟨named, rfl⟩, rfl, rfl⟩

/-- A function that declares its result passes exactly with what is derived for it. -/
theorem checkFunction_iff {tokens : List Token} {root : List Binding}
    {earlier : List (FunctionDef .checked)} {source : FunctionDef .bare}
    {tree : FunctionDef .checked} (phrase : Grammar.Phrase.Function tokens source)
    (declares : source.returnType.isSome = true)
    (same : before.environment = (definedScopes root earlier).environment) :
    (checkFunction source).Passes before tree after ↔
      after = before.withScopes (definedScopes root (earlier ++ [tree])) ∧
        FunctionDerives root earlier source tree := by
  obtain ⟨written, returnType⟩ := Option.isSome_iff_exists.mp declares
  obtain ⟨matching, inside, bodyPhrase⟩ :
      source.parameters.length = source.parameterTypes.length ∧
        ∃ inside, Grammar.Phrase.Block inside source.body := by
    cases phrase with
    | mk _ _ _ _ _ _ _ bodyPhrase => exact ⟨by simp, _, bodyPhrase⟩
  rw [definedScopes_append]
  simp only [checkFunction, returnType, bind_passes, parameterTypes_iff, resultType?_iff,
    change_passes]
  constructor
  · rintro ⟨types, _, ⟨rfl, derived⟩, _, _, ⟨rfl, result, named, rfl⟩, _, _,
      ⟨environment, defined, rfl⟩, ⟨body, inferred⟩, _, checked, passes⟩
    have lengths := matching.trans derived.length_eq
    rw [same] at defined
    obtain ⟨fresh, rfl⟩ := Scopes.defineFunction_environment rfl defined
    obtain ⟨rfl, rfl, distinct, bodyDerived⟩ :=
      (checkBody_iff bodyPhrase earlier.length lengths rfl).mp checked
    simp only [Option.isNone_some, Bool.false_eq_true, ↓reduceIte, pure_passes] at passes
    obtain ⟨rfl, rfl⟩ := passes
    refine ⟨rfl, rfl, rfl, rfl, returnType.symm, derived, returnType.trans (congrArg some named),
      distinct, lengths ▸ fresh, ?_⟩
    rw [site_definedScopes]
    exact bodyDerived
  · obtain ⟨name, parameters, parameterTypes, treeReturn, body, types, result⟩ := tree
    rintro ⟨rfl, rfl, rfl, rfl, treeDeclares, derived, named, distinct, fresh, bodyDerived⟩
    have lengths : source.parameters.length = types.length := matching.trans derived.length_eq
    rw [site_definedScopes] at bodyDerived
    simp only [returnType, Option.some.injEq] at treeDeclares named
    subst treeDeclares
    let known : Routine Unit := ⟨source.name, types, some result, none⟩
    have defined : before.environment.defineFunction known =
        .ok ((definedScopes root earlier).declareRoutine known).environment := by
      have free : (definedScopes root earlier).routine? source.name types.length = none :=
        lengths ▸ fresh
      rw [same]
      exact Scopes.defineFunction_fresh rfl free
    have checked := (@checkBody_iff (before.withScopes ((definedScopes root earlier).declareRoutine
      known)) _ _ result _ _ _ types none body bodyPhrase earlier.length lengths rfl).mpr
        ⟨rfl, rfl, distinct, bodyDerived⟩
    refine ⟨types, _, ⟨rfl, derived⟩, _, _, ⟨rfl, result, named, rfl⟩, (), _, ⟨_, defined, rfl⟩,
      (body, none), _, checked, ?_⟩
    simp only [Option.isNone_some, Bool.false_eq_true, ↓reduceIte, pure_passes]
    exact ⟨rfl, rfl⟩

/-- Functions that declare their results pass exactly with what is derived for them. -/
theorem checkFunctions_iff {tokens : List Token} {root : List Binding}
    {earlier : List (FunctionDef .checked)} {sources : List (FunctionDef .bare)}
    {trees : List (FunctionDef .checked)}
    (phrases : Grammar.Phrase.Sequence Grammar.Phrase.Function tokens sources)
    (declares : ∀ source ∈ sources, source.returnType.isSome = true)
    (same : before.environment = (definedScopes root earlier).environment) :
    (checkFunctions sources).Passes before trees after ↔
      after = before.withScopes (definedScopes root (earlier ++ trees)) ∧
        FunctionsDerive root earlier sources trees := by
  induction phrases generalizing earlier before after trees with
  | empty =>
    simp only [checkFunctions, pure_passes]
    constructor
    · rintro ⟨rfl, rfl⟩
      exact ⟨by simp [Checker.withScopes, ← same], .nil⟩
    · rintro ⟨rfl, derived⟩
      cases derived
      exact ⟨rfl, by simp [Checker.withScopes, ← same]⟩
  | cons phrase _ inductionHypothesis =>
    have further := fun source member => declares source (List.mem_cons_of_mem _ member)
    simp only [checkFunctions, bind_passes, pure_passes,
      checkFunction_iff phrase (declares _ (by simp)) same]
    constructor
    · rintro ⟨first, _, ⟨rfl, derived⟩, rest, _, later, rfl, rfl⟩
      obtain ⟨rfl, others⟩ := (inductionHypothesis further (by rfl)).mp later
      exact ⟨by simp, .cons derived others⟩
    · rintro ⟨rfl, derived⟩
      cases derived with
      | cons derived others =>
        refine ⟨_, _, ⟨rfl, derived⟩, _, _, (inductionHypothesis further rfl).mpr ⟨rfl, others⟩,
          rfl, by simp⟩

/-! ## Programs -/

/-- Functions have as many parameters as they have types for them. -/
theorem function_arity {tokens : List Token} {root : List Binding}
    {earlier : List (FunctionDef .checked)} {source : FunctionDef .bare}
    {tree : FunctionDef .checked} (phrase : Grammar.Phrase.Function tokens source)
    (derived : FunctionDerives root earlier source tree) :
    tree.routine.parameters.length = source.parameters.length := by
  cases phrase
  have lengths := derived.types.length_eq
  simpa using lengths.symm

/-- A derived function has as many parameter types as parameters. -/
theorem functions_arity {tokens : List Token} {root : List Binding}
    {earlier : List (FunctionDef .checked)} {sources : List (FunctionDef .bare)}
    {trees : List (FunctionDef .checked)}
    (phrases : Grammar.Phrase.Sequence Grammar.Phrase.Function tokens sources)
    (derived : FunctionsDerive root earlier sources trees) :
    ∀ tree ∈ trees, tree.parameters.length = tree.routine.parameters.length := by
  induction phrases generalizing earlier trees with
  | empty =>
    cases derived
    simp
  | cons phrase _ inductionHypothesis =>
    cases derived with
    | cons derived further =>
      intro tree member
      rcases List.mem_cons.mp member with rfl | later
      · rw [derived.parameters, function_arity phrase derived]
      · exact inductionHypothesis further tree later

/-- Functions have names and arities of their own, so each is found by its own. -/
theorem routine?_settled {tokens : List Token} {root : List Binding}
    {earlier : List (FunctionDef .checked)} {sources : List (FunctionDef .bare)}
    {trees : List (FunctionDef .checked)}
    (phrases : Grammar.Phrase.Sequence Grammar.Phrase.Function tokens sources)
    (derived : FunctionsDerive root earlier sources trees) :
    ∀ tree ∈ trees, (definedScopes root (earlier ++ trees)).routine? tree.name
      tree.parameters.length = some tree.settled := by
  induction phrases generalizing earlier trees with
  | empty =>
    cases derived
    simp
  | cons phrase _ inductionHypothesis =>
    cases derived with
    | @cons _ _ _ first others derived further =>
      intro tree member
      rcases List.mem_cons.mp member with rfl | later
      · have split : (definedScopes root (earlier ++ tree :: others)).functions =
            (definedScopes root earlier).functions ++
              tree.settled :: others.map FunctionDef.settled := by
          simp [definedScopes]
        have unknown := derived.fresh
        have arity := function_arity phrase derived
        rw [← derived.name, ← derived.parameters] at unknown
        rw [← derived.parameters] at arity
        unfold Scopes.routine? at unknown ⊢
        rw [split, List.find?_append, unknown]
        simp [FunctionDef.settled, Routine.arity, arity]
      · simpa using inductionHypothesis further tree later

/-- Where the functions are derived, an integer is known as the result of `main` exactly when
one of them is a `main` without parameters that gives an integer. -/
theorem main_iff {tokens : List Token} {root : List Binding} {sources : List (FunctionDef .bare)}
    {trees : List (FunctionDef .checked)}
    (phrases : Grammar.Phrase.Sequence Grammar.Phrase.Function tokens sources)
    (derived : FunctionsDerive root [] sources trees) :
    (∃ main, (definedScopes root trees).routine? "main" 0 = some main ∧
      main.result = some .integer) ↔
      ∃ definition ∈ trees, definition.name = "main" ∧ definition.parameters = [] ∧
        definition.routine.result = .integer := by
  constructor
  · rintro ⟨main, known, integer⟩
    exact main_of_routine? known (functions_arity phrases derived) integer
  · rintro ⟨definition, member, named, none, integer⟩
    have found := routine?_settled phrases derived definition member
    rw [named, none] at found
    exact ⟨definition.settled, found, congrArg some integer⟩

/-- A program passes exactly with what is derived for it. -/
theorem checkProgram_iff {tokens : List Token} {source : Program .bare} {tree : Program .checked}
    (phrase : Grammar.Phrase.Program tokens source)
    (declares : ∀ definition ∈ source.functions, definition.returnType.isSome = true) :
    (∃ after, (checkProgram source).Passes Checker.initial tree after) ↔
      ProgramDerives source tree := by
  cases phrase with
  | @mk _ _ globals functions _ functionPhrases =>
    obtain ⟨globalTrees, functionTrees⟩ := tree
    have bindings : ([] ++ globalTrees.mapIdx fun index definition =>
        definition.binding (([] : List Binding).length + index)) =
          (⟨globalTrees, functionTrees⟩ : Program .checked).bindings := by
      simp [Program.bindings]
    have start : Checker.initial.environment = (rootScopes []).environment := rfl
    simp only [checkProgram, bind_passes, lookup_passes, ite_passes, pure_passes, throw_passes,
      and_false, or_false, checkGlobals_iff start]
    constructor
    · rintro ⟨_, others, _, ⟨rfl, globalsDerived⟩, _, _, second, main, _, ⟨found, rfl⟩, integer,
        same, rfl⟩
      obtain ⟨rfl, rfl⟩ := Program.mk.inj same
      rw [bindings] at second
      obtain ⟨rfl, functionsDerived⟩ := (@checkFunctions_iff _ _ _ _ [] _ _ functionPhrases
        declares rfl).mp second
      refine ⟨globalsDerived, functionsDerived, (main_iff functionPhrases functionsDerived).mp ?_⟩
      exact ⟨main, Scopes.lookupFunction_environment.mp found, integer⟩
    · rintro ⟨globalsDerived, functionsDerived, main⟩
      obtain ⟨routine, known, integer⟩ := (main_iff functionPhrases functionsDerived).mpr main
      refine ⟨Checker.initial.withScopes (definedScopes _ functionTrees), globalTrees, _,
        ⟨rfl, globalsDerived⟩, functionTrees, _, ?_, routine, _,
        ⟨Scopes.lookupFunction_environment.mpr known, rfl⟩, integer, rfl, rfl⟩
      rw [bindings]
      exact (@checkFunctions_iff _ _ _ _ [] _ _ functionPhrases declares rfl).mpr
        ⟨rfl, functionsDerived⟩

/-- The checker decides the typing rules: for a program that is read from a text and whose
functions declare their results it succeeds with exactly the trees that the rules derive,
and they derive one at most. -/
theorem check_decides {source : String} {program : Program .bare}
    (parsed : parseProgram source = .ok program)
    (declares : ∀ definition ∈ program.functions, definition.returnType.isSome = true) :
    (∀ tree, (∃ checker, check program = .ok (tree, checker)) ↔ ProgramDerives program tree) ∧
      ∀ first second, ProgramDerives program first → ProgramDerives program second →
        first = second := by
  obtain ⟨tokens, phrase⟩ := Grammar.parseProgram_derives parsed
  have decides (tree : Program .checked) :
      (∃ checker, check program = .ok (tree, checker)) ↔ ProgramDerives program tree := by
    simp only [check_iff]
    exact checkProgram_iff phrase declares
  refine ⟨decides, fun first second firstDerived secondDerived => ?_⟩
  obtain ⟨_, accepted⟩ := (decides first).mpr firstDerived
  obtain ⟨_, acceptedToo⟩ := (decides second).mpr secondDerived
  exact (Prod.mk.inj (Except.ok.inj (accepted.symm.trans acceptedToo))).1

/-- A text in which a list literal takes its type from a list of anything. -/
def widening : String :=
  "LIST xs: Any = [1, 'a']; FUN main(): Integer DO RETURN 2 ^ 3; END"

/-- Its program. -/
def wideningProgram : Program .bare where
  globals := [⟨"xs", some "List<Any>", true,
    some (.list () [.literal () (.integer 1), .literal () (.character "a")]), ()⟩]
  functions := [⟨"main", [], [], some "Integer",
    [.returning (.binary () "^" (.literal () (.integer 2)) (.literal () (.integer 3)))], ()⟩]

/-- What the rules derive for it. -/
def wideningTree : Program .checked where
  globals := [⟨"xs", some "List<Any>", true,
    some (.list (.list .any)
      [.literal .integer (.integer 1), .literal .character (.character "a")]),
    ⟨"xs", .list .any, true, ()⟩⟩]
  functions := [⟨"main", [], [], some "Integer",
    [.returning (.binary .integer "^" (.literal .integer (.integer 2))
      (.literal .integer (.integer 3)))], ⟨[], .integer⟩⟩]

/-- The types of a program that stores integers and characters under wider types are derived. -/
theorem widening_derives :
    parseProgram widening = .ok wideningProgram ∧
      (∀ definition ∈ wideningProgram.functions, definition.returnType.isSome = true) ∧
      ProgramDerives wideningProgram wideningTree := by
  have parsed : parseProgram widening = .ok wideningProgram := by cbv
  have declares : ∀ definition ∈ wideningProgram.functions,
      definition.returnType.isSome = true := by
    simp [wideningProgram]
  have accepted : check wideningProgram = .ok (wideningTree,
      ⟨⟨#[{ parent := none, entries := [⟨"xs", .list .any, true, ()⟩],
            functions := [printSignature, ⟨"main", [], some .integer, none⟩] }]⟩,
        ⟨none, none⟩⟩) := by
    cbv
  exact ⟨parsed, declares, ((check_decides parsed declares).1 wideningTree).mp ⟨_, accepted⟩⟩

end Blockscript.Typing
