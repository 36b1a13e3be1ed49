import Blockscript.Proofs.Grammar.Derivation
import Blockscript.Proofs.Typing.Judgement
import Blockscript.Proofs.Typing.Operators
import Blockscript.Proofs.Typing.Visits

/-!
# What the checker accepts is typed

Each lemma reads the passing of one part of the checker as the rule that it has
decided. Of a use of a name it also says that the checker comes to it. The scopes of
the checker are lexical scopes throughout: expressions do not touch them, a
declaration adds one binding, and a block leaves them as they were.
-/

namespace Blockscript.Typing

variable {program : Program .bare} {scopes : Scopes} {before after : Checker}

/-- A function that is found has the name and the arity it was looked for by. -/
theorem routine?_found {name : String} {arity : Nat} {routine : Routine Unit}
    (found : scopes.routine? name arity = some routine) :
    routine.name = name ∧ routine.arity = arity := by
  simpa using List.find?_some found

mutual

/-- An expression that passes is typed, and leaves everything as it is. -/
theorem checkExpr_sound : ∀ (source : Expr .bare) {before after : Checker} {tree : Expr .checked},
    Visits program (.expression source) before →
    before.environment = scopes.environment → (checkExpr source).Passes before tree after →
      after = before ∧ ExprTyped (Checked program) scopes tree
  | .literal _ literal, before, after, tree, visits, same, passes => by
    simp only [checkExpr, bind_passes, rule_passes, pure_passes] at passes
    obtain ⟨type, _, ⟨typed, rfl⟩, rfl, rfl⟩ := passes
    exact ⟨rfl, .literal typed⟩
  | .group _ inner, before, after, tree, visits, same, passes => by
    rw [checkExpr] at passes
    split at passes
    · simp only [bind_passes, pure_passes] at passes
      obtain ⟨_, _, inside, rfl, rfl⟩ := passes
      obtain ⟨rfl, typed⟩ := checkExpr_sound inner (visits.part (by simp [Expr.parts])) same inside
      exact ⟨rfl, .group typed⟩
    · exact (throw_passes.mp passes).elim
  | .binary _ operator left right, before, after, tree, visits, same, passes => by
    simp only [checkExpr, bind_passes, rule_passes, pure_passes] at passes
    obtain ⟨_, _, first, _, _, second, type, _, ⟨typed, rfl⟩, rfl, rfl⟩ := passes
    obtain ⟨rfl, leftTyped⟩ := checkExpr_sound left (visits.part (by simp [Expr.parts])) same first
    obtain ⟨rfl, rightTyped⟩ :=
      checkExpr_sound right (visits.part (by simp [Expr.parts])) same second
    exact ⟨rfl, .binary leftTyped rightTyped typed⟩
  | .access _ _ name, before, after, tree, visits, same, passes => by
    have whole := passes
    simp only [checkExpr, bind_passes, lookup_passes, pure_passes] at passes
    obtain ⟨⟨place, entry⟩, _, ⟨found, rfl⟩, rfl, rfl⟩ := passes
    rw [same] at found
    obtain ⟨binding, bound, rfl⟩ := Scopes.lookupVariable_environment.mp ⟨place, found⟩
    exact ⟨rfl, .access bound ⟨_, _, visits, same, whole⟩⟩
  | .element _ _ name offset, before, after, tree, visits, same, passes => by
    have whole := passes
    simp only [checkExpr, bind_passes, lookup_passes] at passes
    obtain ⟨⟨place, entry⟩, _, ⟨found, rfl⟩, passes⟩ := passes
    obtain ⟨checked, _, inside, passes⟩ := passes
    rw [same] at found
    obtain ⟨binding, bound, rfl⟩ := Scopes.lookupVariable_environment.mp ⟨place, found⟩
    obtain ⟨rfl, typed⟩ := checkExpr_sound offset (visits.part (by simp [Expr.parts])) same inside
    simp only [ite_passes, bind_passes, throw_passes, false_and, exists_false, and_false,
      false_or, ne_eq, not_not] at passes
    obtain ⟨integer, passes⟩ := passes
    cases list : binding.entry.type with
    | list element =>
      simp only [list, Ty.element?, pure_passes] at passes
      obtain ⟨rfl, rfl⟩ := passes
      exact ⟨rfl, .element bound list typed integer ⟨_, _, visits, same, whole⟩⟩
    | _ => simp [list, Ty.element?] at passes
  | .call _ _ name arguments, before, after, tree, visits, same, passes => by
    have whole := passes
    simp only [checkExpr, bind_passes, lookup_passes] at passes
    obtain ⟨routine, _, ⟨found, rfl⟩, trees, _, inside, passes⟩ := passes
    rw [same] at found
    have known := Scopes.lookupFunction_environment.mp found
    have arity : routine.parameters.length = arguments.length := (routine?_found known).2
    obtain ⟨rfl, typed, assignable⟩ := checkArguments_sound routine.parameters arguments arity
      (fun argument member => visits.part member) same inside
    have lengths : trees.length = arguments.length := by
      rw [← assignable.length_eq, arity]
    cases result : routine.result with
    | none => simp [result] at passes
    | some type =>
      simp only [result, pure_passes] at passes
      obtain ⟨rfl, rfl⟩ := passes
      exact ⟨rfl, .call (lengths ▸ known) result typed assignable ⟨_, _, visits, same, whole⟩⟩
  | .list _ [], before, after, tree, visits, same, passes => by
    rw [checkExpr] at passes
    exact (throw_passes.mp passes).elim
  | .list _ (first :: rest), before, after, tree, visits, same, passes => by
    simp only [checkExpr, bind_passes, pure_passes] at passes
    obtain ⟨_, _, earlier, _, _, later, rfl, rfl⟩ := passes
    obtain ⟨rfl, typed⟩ := checkExpr_sound first (visits.part (by simp [Expr.parts])) same earlier
    obtain ⟨rfl, allTyped, allAssignable⟩ := checkElements_sound _ rest
      (fun element member => visits.part (by simp [Expr.parts, member])) same later
    refine ⟨rfl, .list ?_ ?_⟩
    · simpa using ⟨typed, allTyped⟩
    · simpa using ⟨isAssignable_refl _, allAssignable⟩

/-- Arguments are checked pairwise with the parameters, of which there are as many. -/
theorem checkArguments_sound : ∀ (parameters : List Ty) (sources : List (Expr .bare)),
    parameters.length = sources.length →
    ∀ {before after : Checker} {trees : List (Expr .checked)},
    (∀ source ∈ sources, Visits program (.expression source) before) →
    before.environment = scopes.environment →
      (checkArguments parameters sources).Passes before trees after →
      after = before ∧ (∀ argument ∈ trees, ExprTyped (Checked program) scopes argument) ∧
        List.Forall₂ (fun parameter argument => parameter.isAssignable argument.type = true)
          parameters trees
  | [], [], _, before, after, trees, _, _, passes => by
    simp only [checkArguments, pure_passes] at passes
    obtain ⟨rfl, rfl⟩ := passes
    simp
  | parameter :: parameters, argument :: arguments, lengths, before, after, trees, visits, same,
      passes => by
    simp only [checkArguments, bind_passes, rule_passes, pure_passes, requireAssignable_ok]
      at passes
    obtain ⟨tree, _, earlier, _, _, ⟨assignable, rfl⟩, others, _, later, rfl, rfl⟩ := passes
    obtain ⟨rfl, typed⟩ := checkExpr_sound argument (visits argument (by simp)) same earlier
    obtain ⟨rfl, allTyped, allAssignable⟩ :=
      checkArguments_sound parameters arguments (Nat.succ.inj lengths)
        (fun other member => visits other (List.mem_cons_of_mem _ member)) same later
    refine ⟨rfl, ?_, .cons assignable allAssignable⟩
    simpa using ⟨typed, allTyped⟩

/-- Elements that pass are typed, and of types that the element type admits. -/
theorem checkElements_sound (element : Ty) : ∀ (sources : List (Expr .bare))
    {before after : Checker} {trees : List (Expr .checked)},
    (∀ source ∈ sources, Visits program (.expression source) before) →
    before.environment = scopes.environment →
      (checkElements element sources).Passes before trees after →
      after = before ∧ (∀ inner ∈ trees, ExprTyped (Checked program) scopes inner) ∧
        (∀ inner ∈ trees, element.isAssignable inner.type = true)
  | [], before, after, trees, _, _, passes => by
    simp only [checkElements, pure_passes] at passes
    obtain ⟨rfl, rfl⟩ := passes
    simp
  | first :: rest, before, after, trees, visits, same, passes => by
    simp only [checkElements, bind_passes, rule_passes, pure_passes, requireAssignable_ok] at passes
    obtain ⟨tree, _, earlier, _, _, ⟨assignable, rfl⟩, others, _, later, rfl, rfl⟩ := passes
    obtain ⟨rfl, typed⟩ := checkExpr_sound first (visits first (by simp)) same earlier
    obtain ⟨rfl, allTyped, allAssignable⟩ := checkElements_sound element rest
      (fun other member => visits other (List.mem_cons_of_mem _ member)) same later
    refine ⟨rfl, ?_, ?_⟩
    · simpa using ⟨typed, allTyped⟩
    · simpa using ⟨assignable, allAssignable⟩

end

/-- The value of a binding of a known type is typed, whether it is a list literal
that takes its type from the binding or not. -/
theorem checkValue_sound {target : Ty} {source : Expr .bare} {tree : Expr .checked}
    (visits : Visits program (.expression source) before)
    (same : before.environment = scopes.environment)
    (passes : (checkValue target source).Passes before tree after) :
    after = before ∧ ExprTyped (Checked program) scopes tree := by
  unfold checkValue at passes
  split at passes
  · split at passes
    · simp only [bind_passes, pure_passes] at passes
      obtain ⟨_, _, inside, rfl, rfl⟩ := passes
      obtain ⟨rfl, typed, assignable⟩ := checkElements_sound _ _
        (fun element member => visits.part member) same inside
      exact ⟨rfl, .list typed assignable⟩
    · exact checkExpr_sound _ visits same passes
  · exact checkExpr_sound _ visits same passes

/-- A binding that has a value has one that is assignable to its type. -/
theorem checkBinding_sound {name : String} {typeName : Option String}
    {source : Option (Expr .bare)} {type : Ty} {value : Option (Expr .checked)}
    (visits : ∀ value, source = some value → Visits program (.expression value) before)
    (same : before.environment = scopes.environment)
    (passes : (checkBinding name typeName source).Passes before (type, value) after) :
    after = before ∧ ∀ tree, value = some tree →
      ExprTyped (Checked program) scopes tree ∧ type.isAssignable tree.type = true := by
  unfold checkBinding at passes
  split at passes
  · exact (throw_passes.mp passes).elim
  · simp only [bind_passes, pure_passes, Prod.mk.injEq] at passes
    obtain ⟨_, _, inside, ⟨rfl, rfl⟩, rfl⟩ := passes
    obtain ⟨rfl, typed⟩ := checkExpr_sound _ (visits _ rfl) same inside
    refine ⟨rfl, ?_⟩
    rintro tree ⟨⟩
    exact ⟨typed, isAssignable_refl _⟩
  · simp only [bind_passes, rule_passes, pure_passes, Prod.mk.injEq] at passes
    obtain ⟨_, _, ⟨_, rfl⟩, ⟨rfl, rfl⟩, rfl⟩ := passes
    simp
  · simp only [bind_passes, rule_passes, pure_passes, requireAssignable_ok, Prod.mk.injEq] at passes
    obtain ⟨_, _, ⟨_, rfl⟩, _, _, inside, _, _, ⟨assignable, rfl⟩, ⟨rfl, rfl⟩, rfl⟩ := passes
    obtain ⟨rfl, typed⟩ := checkValue_sound (visits _ rfl) same inside
    refine ⟨rfl, ?_⟩
    rintro tree ⟨⟩
    exact ⟨typed, assignable⟩

/-- A condition that passes is typed as a truth value. -/
theorem checkCondition_sound {keyword : String} {source : Expr .bare} {tree : Expr .checked}
    (visits : Visits program (.expression source) before)
    (same : before.environment = scopes.environment)
    (passes : (checkCondition keyword source).Passes before tree after) :
    after = before ∧ ExprTyped (Checked program) scopes tree ∧ tree.type = .boolean := by
  simp only [checkCondition, bind_passes, ite_passes, pure_passes, throw_passes, and_false,
    or_false] at passes
  obtain ⟨_, _, inside, boolean, rfl, rfl⟩ := passes
  obtain ⟨rfl, typed⟩ := checkExpr_sound _ visits same inside
  exact ⟨rfl, typed, boolean⟩

/-! ## Returns -/

/-- The result type as far as it is settled. -/
def ReturnContext.settled (returns : ReturnContext) : Option Ty :=
  returns.declared.or returns.inferred

/-- Whether the given result type is the settled one, should there be one. -/
def ReturnContext.Fits (returns : ReturnContext) (result : Ty) : Prop :=
  ∀ type ∈ returns.settled, type = result

/-- What is settled stays so, and nothing is declared on the way. -/
structure ReturnContext.Keeps (earlier later : ReturnContext) : Prop where
  declared : later.declared = earlier.declared
  settled : ∀ type ∈ earlier.settled, type ∈ later.settled

/-- Returns keep themselves. -/
theorem ReturnContext.Keeps.refl (returns : ReturnContext) : returns.Keeps returns :=
  ⟨rfl, fun _ settled => settled⟩

/-- Returns that are kept twice in order are kept. -/
theorem ReturnContext.Keeps.trans {first second third : ReturnContext}
    (earlier : first.Keeps second) (later : second.Keeps third) : first.Keeps third :=
  ⟨later.declared.trans earlier.declared,
    fun type settled => later.settled type (earlier.settled type settled)⟩

/-- A result type that fits in the end has fitted all along. -/
theorem ReturnContext.Keeps.fits {earlier later : ReturnContext} {result : Ty}
    (keeps : earlier.Keeps later) (fits : later.Fits result) : earlier.Fits result :=
  fun type settled => fits type (keeps.settled type settled)

/-- A return settles the result type, or is assignable to the settled one. -/
theorem checkReturned_sound {type : Ty} {done : Unit}
    (passes : (checkReturned type).Passes before done after) :
    after.environment = before.environment ∧ before.returns.Keeps after.returns ∧
      ∀ result, after.returns.Fits result → result.isAssignable type = true := by
  simp only [checkReturned, bind_passes, get_passes] at passes
  obtain ⟨_, _, ⟨rfl, rfl⟩, passes⟩ := passes
  split at passes
  · next _ declared same =>
    simp only [rule_passes, requireAssignable_ok] at passes
    obtain ⟨assignable, rfl⟩ := passes
    refine ⟨rfl, .refl _, ?_⟩
    intro result fits
    have settled := fits declared (by simp [ReturnContext.settled, same])
    exact settled ▸ assignable
  · next inferred none same =>
    simp only [rule_passes, requireAssignable_ok] at passes
    obtain ⟨assignable, rfl⟩ := passes
    refine ⟨rfl, .refl _, ?_⟩
    intro result fits
    have settled := fits inferred (by simp [ReturnContext.settled, none, same])
    exact settled ▸ assignable
  · next none same =>
    cases set_passes.mp passes
    refine ⟨rfl, ⟨rfl, ?_⟩, ?_⟩
    · intro other settled
      simp [ReturnContext.settled, none, same] at settled
    · intro result fits
      have settled := fits type (by simp [ReturnContext.settled, none])
      exact settled ▸ isAssignable_refl type

/-! ## Statements -/

/-- A check in a scope of its own leaves the scopes as they were, if all that it
does to them is to define variables. -/
theorem inScope_sound {α : Type} {body : Check α} {value : α} (property : ReturnContext → Prop)
    (same : before.environment = scopes.environment)
    (sound : ∀ {inside : Checker},
      body.Passes { before with environment := scopes.enter.environment } value inside →
      (∃ bindings, inside.environment = (scopes.enter.extend bindings).environment) ∧
        property inside.returns)
    (passes : (Check.inScope body).Passes before value after) :
    after.environment = scopes.environment ∧ property after.returns := by
  obtain ⟨inside, environment, checked, closed, rfl⟩ := inScope_passes.mp passes
  simp only [same, Scopes.openScope_environment] at checked closed
  obtain ⟨⟨bindings, grown⟩, holds⟩ := sound checked
  rw [grown, Scopes.enter_extend, Scopes.closeScope_environment] at closed
  cases closed
  exact ⟨rfl, holds⟩

/-- What is shown of a block of the program that starts at a place: it defines
variables at most, and it is typed for every result type that its returns fit. -/
def BlockSound (program : Program .bare) (site : Site) (source : List (Stmt .bare)) : Prop :=
  ∀ {before after : Checker} {trees : List (Stmt .checked)},
    Visits program (.block source) before → before.environment = site.scopes.environment →
    (checkBlock source).Passes before trees after →
    (∃ bindings, after.environment = (site.scopes.extend bindings).environment) ∧
      before.returns.Keeps after.returns ∧
      ∀ result, after.returns.Fits result → BlockTyped (Checked program) result site trees

/-- A sound block in a scope of its own. -/
theorem BlockSound.inScope {site : Site} {number : Nat} {source : List (Stmt .bare)}
    {trees : List (Stmt .checked)} (sound : BlockSound program (site.block number) source)
    (visits : Visits program (.block source) before.entered)
    (same : before.environment = site.scopes.environment)
    (passes : (Check.inScope (checkBlock source)).Passes before trees after) :
    after.environment = site.scopes.environment ∧ before.returns.Keeps after.returns ∧
      ∀ result, after.returns.Fits result →
        BlockTyped (Checked program) result (site.block number) trees := by
  have entered : before.entered = ⟨site.scopes.enter.environment, before.returns⟩ := by
    rw [Checker.entered, same, Scopes.openScope_environment]
  rw [entered] at visits
  exact inScope_sound
    (fun returns => before.returns.Keeps returns ∧
      ∀ result, returns.Fits result →
        BlockTyped (Checked program) result (site.block number) trees)
    same
    (fun checked => @sound ⟨site.scopes.enter.environment, before.returns⟩ _ _ visits rfl checked)
    passes

/-- A place stays a place. -/
theorem checkExpr_isPlace {source : Expr .bare} {tree : Expr .checked}
    (place : source.isPlace = true) (passes : (checkExpr source).Passes before tree after) :
    tree.isPlace = true := by
  cases source with
  | access _ _ name =>
    simp only [checkExpr, bind_passes, pure_passes] at passes
    obtain ⟨_, _, _, rfl, _⟩ := passes
    rfl
  | element _ _ name offset =>
    simp only [checkExpr, bind_passes, ite_passes, throw_passes, false_and, exists_false,
      and_false, false_or] at passes
    obtain ⟨_, _, _, _, _, _, _, passes⟩ := passes
    split at passes
    · obtain ⟨rfl, _⟩ := pure_passes.mp passes
      rfl
    · exact (throw_passes.mp passes).elim
  | _ => simp [Expr.isPlace] at place

/-- A conditional is typed when its blocks are, the second of which may be left
out. -/
theorem checkConditional_sound {condition : Expr .bare} {thenSource elseSource : List (Stmt .bare)}
    {site : Site} {tree : Stmt .checked}
    (visits : Visits program (.statement (.conditional condition thenSource elseSource)) before)
    (same : before.environment = site.scopes.environment)
    (thenSound : BlockSound program (site.block 0) thenSource)
    (elseSound : BlockSound program (site.block 1) elseSource)
    (passes : (checkStmt (.conditional condition thenSource elseSource)).Passes before tree after) :
    after.environment = (site.after tree).scopes.environment ∧
      before.returns.Keeps after.returns ∧
      ∀ result, after.returns.Fits result → StmtTyped (Checked program) result site tree := by
  simp only [checkStmt, bind_passes, ite_passes, throw_passes, false_and, exists_false, and_false,
    false_or, pure_passes] at passes
  obtain ⟨condition, _, inside, _, thenBlock, _, first, elseBlock, _, second, rfl, rfl⟩ := passes
  obtain ⟨rfl, typed, boolean⟩ :=
    checkCondition_sound (visits.operand (by simp [Stmt.expressions])) same inside
  obtain ⟨between, keeps, thenTyped⟩ := thenSound.inScope visits.thenBlock same first
  obtain ⟨restored, keepsMore, elseTyped⟩ :=
    elseSound.inScope (visits.elseBlock first) between second
  refine ⟨restored, keeps.trans keepsMore, ?_⟩
  intro result fits
  exact .conditional typed boolean (thenTyped result (keepsMore.fits fits)) (elseTyped result fits)

/-- A label that is there has the type of the subject. -/
theorem checkLabel_sound {subject : Ty} {last : Bool} {source : Expr .bare}
    {label : Option (Expr .checked)} (visits : Visits program (.expression source) before)
    (same : before.environment = scopes.environment)
    (passes : (checkLabel subject last (some source)).Passes before label after) :
    after = before ∧ ∃ tree, label = some tree ∧ ExprTyped (Checked program) scopes tree ∧
      tree.type = subject := by
  cases last with
  | true => exact (throw_passes.mp passes).elim
  | false =>
    simp only [checkLabel, bind_passes, ite_passes, pure_passes, throw_passes, and_false,
      or_false] at passes
    obtain ⟨tree, _, inside, agrees, rfl, rfl⟩ := passes
    obtain ⟨rfl, typed⟩ := checkExpr_sound _ visits same inside
    exact ⟨rfl, tree, rfl, typed, agrees⟩

/-- The default is typed when its block is. -/
theorem checkDefault_sound {source : List (Stmt .bare)} {subject : Ty} {site : Site} {number : Nat}
    {trees : List (Case .checked)} (visits : Visits program (.cases [.mk none source]) before)
    (same : before.environment = site.scopes.environment)
    (sound : BlockSound program (site.block number) source)
    (passes : (checkCases subject [.mk none source]).Passes before trees after) :
    after.environment = site.scopes.environment ∧ before.returns.Keeps after.returns ∧
      ∀ result, after.returns.Fits result →
        CasesTyped (Checked program) result subject site number trees := by
  simp only [checkCases, checkLabel, List.isEmpty_nil, bind_passes, pure_passes] at passes
  obtain ⟨_, _, ⟨rfl, rfl⟩, body, _, checked, _, _, ⟨rfl, rfl⟩, rfl, rfl⟩ := passes
  obtain ⟨restored, keeps, bodyTyped⟩ := sound.inScope visits.chosen same checked
  refine ⟨restored, keeps, ?_⟩
  intro result fits
  exact .default (bodyTyped result fits)

mutual

/-- A statement that passes is typed for every result that its returns fit, and the checker
stands behind it as the text does. -/
theorem checkStmt_sound : ∀ {tokens : List Token} {source : Stmt .bare},
    Grammar.Phrase.Statement tokens source →
    ∀ {site : Site} {before after : Checker} {tree : Stmt .checked},
      Visits program (.statement source) before →
      before.environment = site.scopes.environment →
      (checkStmt source).Passes before tree after →
      after.environment = (site.after tree).scopes.environment ∧
        before.returns.Keeps after.returns ∧
        ∀ result, after.returns.Fits result → StmtTyped (Checked program) result site tree
  | _, _, .declaration _ _ _ _ _, site, before, after, tree, visits, same, passes => by
    simp only [checkStmt, bind_passes, define_passes, pure_passes] at passes
    obtain ⟨⟨type, value⟩, _, bound, entry, _, ⟨rfl, environment, defined, rfl⟩, rfl, rfl⟩ := passes
    obtain ⟨rfl, valued⟩ := checkBinding_sound
      (fun value given => visits.operand (by simp [Stmt.expressions, given])) same bound
    rw [same] at defined
    obtain ⟨fresh, rfl⟩ :=
      Scopes.defineVariable_environment defined (.declaration site.path)
    refine ⟨rfl, .refl _, ?_⟩
    intro result _
    cases value with
    | none => exact .uninitialised fresh
    | some value =>
      obtain ⟨typed, assignable⟩ := valued value rfl
      exact .initialised fresh typed assignable
  | _, _, .switch _ _ listed _, site, before, after, tree, visits, same, passes => by
    simp only [checkStmt, bind_passes] at passes
    obtain ⟨subject, _, inside, passes⟩ := passes
    obtain ⟨rfl, typed⟩ :=
      checkExpr_sound _ (visits.operand (by simp [Stmt.expressions])) same inside
    simp only [ite_passes, bind_passes, throw_passes, false_and, exists_false, and_false,
      false_or, pure_passes] at passes
    obtain ⟨_, trees, _, checked, rfl, rfl⟩ := passes
    obtain ⟨restored, keeps, casesTyped⟩ := checkCases_sound listed visits.switch same checked
    refine ⟨restored, keeps, ?_⟩
    intro result fits
    exact .switch typed (casesTyped result fits)
  | _, _, .conditional _ _ _ bodyPhrase _, site, before, after, tree, visits, same,
      passes =>
    checkConditional_sound visits same (checkBlock_sound bodyPhrase) (checkBlock_sound .empty)
      passes
  | _, _, .alternative _ _ _ bodyPhrase _ otherPhrase _, site, before, after, tree, visits, same,
      passes =>
    checkConditional_sound visits same (checkBlock_sound bodyPhrase) (checkBlock_sound otherPhrase)
      passes
  | _, _, .loop _ _ _ bodyPhrase _, site, before, after, tree, visits, same, passes => by
    simp only [checkStmt, bind_passes, pure_passes] at passes
    obtain ⟨condition, _, inside, body, _, checked, rfl, rfl⟩ := passes
    obtain ⟨rfl, typed, boolean⟩ :=
      checkCondition_sound (visits.operand (by simp [Stmt.expressions])) same inside
    obtain ⟨restored, keeps, bodyTyped⟩ :=
      BlockSound.inScope (checkBlock_sound bodyPhrase) visits.loop same checked
    refine ⟨restored, keeps, ?_⟩
    intro result fits
    exact .loop typed boolean (bodyTyped result fits)
  | _, _, .returning _ _ _, site, before, after, tree, visits, same, passes => by
    simp only [checkStmt, bind_passes, pure_passes] at passes
    obtain ⟨value, _, inside, _, _, returned, rfl, rfl⟩ := passes
    obtain ⟨rfl, typed⟩ :=
      checkExpr_sound _ (visits.operand (by simp [Stmt.expressions])) same inside
    obtain ⟨unchanged, keeps, assignable⟩ := checkReturned_sound returned
    refine ⟨unchanged.trans same, keeps, ?_⟩
    intro result fits
    exact .returning typed (assignable result fits)
  | _, _, .expression _ _ _, site, before, after, tree, visits, same, passes => by
    simp only [checkStmt, ite_passes, bind_passes, pure_passes, throw_passes, and_false,
      or_false] at passes
    obtain ⟨_, _, _, inside, rfl, rfl⟩ := passes
    obtain ⟨rfl, typed⟩ :=
      checkExpr_sound _ (visits.operand (by simp [Stmt.expressions])) same inside
    exact ⟨same, .refl _, fun result _ => .expression typed⟩
  | _, _, .assignment _ _ _ _ _ _, site, before, after, tree, visits, same, passes => by
    simp only [checkStmt, ite_passes, bind_passes, rule_passes, pure_passes, throw_passes,
      and_false, or_false, requireAssignable_ok] at passes
    obtain ⟨place, receiver, _, first, value, _, second, _, _, ⟨assignable, rfl⟩, rfl, rfl⟩ :=
      passes
    obtain ⟨rfl, receiverTyped⟩ :=
      checkExpr_sound _ (visits.operand (by simp [Stmt.expressions])) same first
    obtain ⟨rfl, valueTyped⟩ :=
      checkValue_sound (visits.operand (by simp [Stmt.expressions])) same second
    refine ⟨same, .refl _, ?_⟩
    intro result _
    exact .assignment (checkExpr_isPlace place first) receiverTyped valueTyped assignable

/-- A block that passes is typed for every result that its returns fit. -/
theorem checkBlock_sound : ∀ {tokens : List Token} {sources : List (Stmt .bare)},
    Grammar.Phrase.Block tokens sources → ∀ {site : Site}, BlockSound program site sources
  | _, _, .empty, site, before, after, trees, _, same, passes => by
    simp only [checkBlock, pure_passes] at passes
    obtain ⟨rfl, rfl⟩ := passes
    refine ⟨⟨[], ?_⟩, .refl _, fun result _ => .nil⟩
    rw [Scopes.extend_nil, same]
  | _, _, .cons phrase _ later, site, before, after, trees, visits, same, passes => by
    simp only [checkBlock, bind_passes, pure_passes] at passes
    obtain ⟨first, _, earlier, rest, _, further, rfl, rfl⟩ := passes
    obtain ⟨grown, keeps, firstTyped⟩ := checkStmt_sound phrase visits.first same earlier
    obtain ⟨⟨bindings, grownMore⟩, keepsMore, restTyped⟩ :=
      checkBlock_sound later (visits.rest earlier) grown further
    obtain ⟨declared, behind⟩ := site.after_scopes first
    refine ⟨⟨declared ++ bindings, ?_⟩, keeps.trans keepsMore, ?_⟩
    · rw [grownMore, behind, Scopes.extend_extend]
    · intro result fits
      exact .cons (firstTyped result (keepsMore.fits fits)) (restTyped result fits)

/-- Cases that pass are typed for every result that their returns fit. -/
theorem checkCases_sound : ∀ {tokens : List Token} {sources : List (Case .bare)},
    Grammar.Phrase.Cases tokens sources →
    ∀ {subject : Ty} {site : Site} {number : Nat} {before after : Checker}
      {trees : List (Case .checked)},
      Visits program (.cases sources) before →
      before.environment = site.scopes.environment →
      (checkCases subject sources).Passes before trees after →
      after.environment = site.scopes.environment ∧
        before.returns.Keeps after.returns ∧
        ∀ result, after.returns.Fits result →
          CasesTyped (Checked program) result subject site number trees
  | _, _, .labelled _ _ _ bodyPhrase later, subject, site, number, before, after, trees,
      visits, same, passes => by
    simp only [checkCases, bind_passes, pure_passes] at passes
    obtain ⟨label, _, labels, body, _, checked, rest, _, further, rfl, rfl⟩ := passes
    obtain ⟨rfl, label, rfl, typed, agrees⟩ := checkLabel_sound visits.label same labels
    obtain ⟨between, keeps, bodyTyped⟩ :=
      BlockSound.inScope (checkBlock_sound bodyPhrase) visits.chosen same checked
    obtain ⟨restored, keepsMore, restTyped⟩ :=
      checkCases_sound later (visits.others checked) between further
    refine ⟨restored, keeps.trans keepsMore, ?_⟩
    intro result fits
    exact .labelled typed agrees (bodyTyped result (keepsMore.fits fits)) (restTyped result fits)
  | _, _, .default _ _ bodyPhrase, subject, site, number, before, after, trees, visits, same,
      passes =>
    checkDefault_sound visits same (checkBlock_sound bodyPhrase) passes
  | _, _, .bareDefault _ bodyPhrase, subject, site, number, before, after, trees, visits, same,
      passes =>
    checkDefault_sound visits same (checkBlock_sound bodyPhrase) passes

end

end Blockscript.Typing
