import Blockscript.Proofs.Typing.Soundness

/-!
# Accepted programs are typed

Globals and functions are defined in the root one behind the other, and what is
known there grows with each. A function that declares no result type is known
without one to its own body; once the body is checked its type is settled, and
this changes no other function because names and arities differ.
-/

namespace Blockscript.Typing

variable {program : Program .bare} {before after : Checker}

/-- A global that passes is typed, and adds its binding to the root. -/
theorem checkGlobal_sound {root : List Binding} {source : GlobalDef .bare}
    {tree : GlobalDef .checked}
    (visits : ∀ value, source.value = some value → Visits program (.expression value) before)
    (same : before.environment = (rootScopes root).environment)
    (passes : (checkGlobal source).Passes before tree after) :
    after.environment = (rootScopes (root ++ [tree.binding root.length])).environment ∧
      GlobalTyped (Checked program) root tree := by
  simp only [checkGlobal, ite_passes, bind_passes, throw_passes, false_and, exists_false,
    and_false, false_or, define_passes, pure_passes] at passes
  obtain ⟨_, ⟨type, value⟩, _, bound, entry, _, ⟨rfl, environment, defined, rfl⟩, rfl, rfl⟩ :=
    passes
  obtain ⟨rfl, valued⟩ := checkBinding_sound visits same bound
  rw [same] at defined
  obtain ⟨fresh, rfl⟩ := Scopes.defineVariable_environment defined (.globalDef root.length)
  exact ⟨rfl, rfl, rfl, fresh, valued⟩

/-- Where parts are checked in order, some that pass and one behind them that passes
pass together. -/
theorem inOrder_append {α β : Type} (one : α → Check β) (all : List α → Check (List β))
    (none : all [] = pure [])
    (more : ∀ first rest, all (first :: rest) = do
      let tree ← one first
      let trees ← all rest
      return tree :: trees)
    {source : α} {tree : β} {middle : Checker} (last : (one source).Passes middle tree after)
    (sources : List α) {trees : List β} (passes : (all sources).Passes before trees middle) :
    (all (sources ++ [source])).Passes before (trees ++ [tree]) after := by
  induction sources generalizing before trees with
  | nil =>
    rw [none, pure_passes] at passes
    obtain ⟨rfl, rfl⟩ := passes
    simp only [List.nil_append, more, none, bind_passes, pure_passes]
    exact ⟨tree, after, last, [], after, ⟨rfl, rfl⟩, rfl, rfl⟩
  | cons first rest inductionHypothesis =>
    simp only [more, bind_passes, pure_passes] at passes
    obtain ⟨firstTree, between, firstPasses, others, _, restPasses, rfl, rfl⟩ := passes
    simp only [List.cons_append, more, bind_passes, pure_passes]
    exact ⟨firstTree, between, firstPasses, _, _, inductionHypothesis restPasses, rfl, rfl⟩

/-- Globals that pass are typed in order, and add their bindings to the root. -/
theorem checkGlobals_sound {sources earlier : List (GlobalDef .bare)}
    {done trees : List (GlobalDef .checked)} {root : List Binding}
    (split : program.globals = earlier ++ sources)
    (front : (checkGlobals earlier).Passes .initial done before)
    (same : before.environment = (rootScopes root).environment)
    (passes : (checkGlobals sources).Passes before trees after) :
    after.environment = (rootScopes (root ++ trees.mapIdx fun index definition =>
      definition.binding (root.length + index))).environment ∧
      GlobalsTyped (Checked program) root trees := by
  induction sources generalizing earlier done root before trees with
  | nil =>
    simp only [checkGlobals, pure_passes] at passes
    obtain ⟨rfl, rfl⟩ := passes
    exact ⟨by simpa using same, .nil⟩
  | cons source sources inductionHypothesis =>
    simp only [checkGlobals, bind_passes, pure_passes] at passes
    obtain ⟨first, _, now, rest, _, later, rfl, rfl⟩ := passes
    obtain ⟨grown, firstTyped⟩ :=
      checkGlobal_sound (fun value given => .globalValue split front given) same now
    have further := inOrder_append checkGlobal checkGlobals rfl (fun _ _ => rfl) now earlier front
    obtain ⟨grownMore, restTyped⟩ :=
      inductionHypothesis (by simpa using split) further grown later
    refine ⟨?_, .cons firstTyped restTyped⟩
    rw [grownMore]
    simp [List.mapIdx_cons, Nat.add_assoc, Nat.add_comm 1]

/-- The types of parameters are as many as their names. -/
theorem parameterTypes_length {names : List (Option String)} {types : List Ty}
    (passes : (parameterTypes names).Passes before types after) :
    after = before ∧ types.length = names.length := by
  induction names generalizing before types with
  | nil =>
    simp only [parameterTypes, pure_passes] at passes
    obtain ⟨rfl, rfl⟩ := passes
    constructor
    · rfl
    · rfl
  | cons name names inductionHypothesis =>
    cases name with
    | none =>
      simp only [parameterTypes, bind_passes, pure_passes] at passes
      obtain ⟨rest, _, later, rfl, rfl⟩ := passes
      obtain ⟨rfl, lengths⟩ := inductionHypothesis later
      constructor
      · rfl
      · simp [lengths]
    | some name =>
      simp only [parameterTypes, bind_passes, rule_passes, pure_passes] at passes
      obtain ⟨_, _, ⟨_, rfl⟩, rest, _, later, rfl, rfl⟩ := passes
      obtain ⟨rfl, lengths⟩ := inductionHypothesis later
      constructor
      · rfl
      · simp [lengths]

/-- A result is declared when a name is there. -/
theorem resultType?_isSome {name : Option String} {declared : Option Ty}
    (passes : (resultType? name).Passes before declared after) :
    after = before ∧ declared.isSome = name.isSome := by
  cases name with
  | none =>
    simp only [resultType?, pure_passes] at passes
    obtain ⟨rfl, rfl⟩ := passes
    exact ⟨rfl, rfl⟩
  | some name =>
    simp only [resultType?, bind_passes, rule_passes, pure_passes] at passes
    obtain ⟨_, _, ⟨_, rfl⟩, rfl, rfl⟩ := passes
    exact ⟨rfl, rfl⟩

/-- The bindings of parameters from a position on. -/
def parameterBindings (index position : Nat) (names : List String) (types : List Ty) :
    List Binding :=
  (names.zip types).mapIdx fun further parameter =>
    ⟨.parameter index (position + further), ⟨parameter.1, parameter.2, true, ()⟩⟩

/-- The first parameter is bound at the first position, and the others behind it. -/
theorem parameterBindings_cons (index position : Nat) (name : String) (names : List String)
    (type : Ty) (types : List Ty) :
    parameterBindings index position (name :: names) (type :: types) =
      ⟨.parameter index position, ⟨name, type, true, ()⟩⟩ ::
        parameterBindings index (position + 1) names types := by
  simp [parameterBindings, List.mapIdx_cons, Nat.add_assoc, Nat.add_comm 1]

/-- Parameters are defined in order, and no two have the same name. -/
theorem defineParameters_sound (index position : Nat) {names : List String} {types : List Ty}
    {scopes : Scopes} {done : Unit} (lengths : names.length = types.length)
    (same : before.environment = scopes.environment)
    (passes : (defineParameters names types).Passes before done after) :
    after = { before with environment :=
      (scopes.extend (parameterBindings index position names types)).environment } ∧
    names.Nodup ∧ ∀ name ∈ names, scopes.innermost.find? (Binding.isNamed name) = none := by
  induction names generalizing types position scopes before with
  | nil =>
    obtain rfl := List.length_eq_zero_iff.mp lengths.symm
    simp only [defineParameters, pure_passes] at passes
    obtain ⟨_, rfl⟩ := passes
    refine ⟨?_, by simp, by simp⟩
    simp [parameterBindings, Scopes.extend_nil, ← same]
  | cons name names inductionHypothesis =>
    obtain ⟨type, types, rfl⟩ := List.exists_cons_of_length_eq_add_one lengths.symm
    simp only [defineParameters, bind_passes, discard_passes, define_passes] at passes
    obtain ⟨_, _, ⟨_, rfl, environment, defined, rfl⟩, later⟩ := passes
    rw [same] at defined
    obtain ⟨fresh, rfl⟩ := Scopes.defineVariable_environment defined (.parameter index position)
    obtain ⟨rfl, distinct, free⟩ :=
      inductionHypothesis (position + 1) (Nat.succ.inj lengths) (by rfl) later
    simp only [Scopes.declare, Scopes.innermost_extend, List.find?_append, Option.or_eq_none_iff]
      at free
    refine ⟨?_, ?_, ?_⟩
    · simp only [Scopes.declare, Scopes.extend_extend]
      rw [parameterBindings_cons]
      rfl
    · apply List.nodup_cons.mpr
      constructor
      · intro again
        simpa [Binding.isNamed] using (free name again).2
      · exact distinct
    · intro other member
      rcases List.mem_cons.mp member with rfl | later
      · exact fresh
      · exact (free other later).1

/-- Settling the result of a new function changes no other, because no other has
its name and arity. -/
theorem settle_declareRoutine {scopes : Scopes} {name : String} {parameters : List Ty}
    {declared : Option Ty} {result : Ty} (fresh : scopes.routine? name parameters.length = none) :
    (scopes.declareRoutine ⟨name, parameters, declared, none⟩).settle name parameters.length
        result =
      scopes.declareRoutine ⟨name, parameters, some result, none⟩ := by
  have others : scopes.functions.map (fun routine =>
      if routine.name = name && routine.arity = parameters.length then
        { routine with result := some result }
      else
        routine) = scopes.functions := by
    rw [Scopes.routine?, List.find?_eq_none] at fresh
    conv_rhs => rw [← List.map_id scopes.functions]
    apply List.map_congr_left
    intro routine member
    rw [if_neg (fresh routine member)]
    rfl
  simp only [Scopes.settle, Scopes.declareRoutine, List.map_append, others]
  simp [Routine.arity]

/-- The body of a function is typed behind its parameters, with the declared result
type, or else with the inferred one. -/
theorem checkBody_sound {tokens : List Token} {source : List (Stmt .bare)} {scopes : Scopes}
    {names : List String} {types : List Ty} {declared inferred : Option Ty}
    {trees : List (Stmt .checked)} (phrase : Grammar.Phrase.Block tokens source) (index : Nat)
    (visits : ∀ {inside : Checker}, (defineParameters names types).Passes
      ⟨scopes.enter.environment, ⟨declared, none⟩⟩ () inside →
      Visits program (.block source) inside)
    (lengths : names.length = types.length) (same : before.environment = scopes.environment)
    (passes : (Check.inFunction declared (Check.inScope do
      defineParameters names types
      checkBlock source)).Passes before (trees, inferred) after) :
    after.environment = scopes.environment ∧ names.Nodup ∧
      BlockTyped (Checked program) (declared.getD (inferred.getD .nil))
        ⟨scopes.enter.extend (parameterBindings index 0 names types), [0, index]⟩ trees := by
  obtain ⟨inside, checked, rfl, rfl⟩ := inFunction_passes.mp passes
  have unchanged :
      ({ before with returns := ⟨declared, none⟩ } : Checker).environment = scopes.environment :=
    same
  have holds := inScope_sound
    (fun returns => names.Nodup ∧ returns.declared = declared ∧
      ∀ result, returns.Fits result →
        BlockTyped (Checked program) result
          ⟨scopes.enter.extend (parameterBindings index 0 names types), [0, index]⟩
          trees)
    unchanged ?_ checked
  · obtain ⟨restored, distinct, declares, typed⟩ := holds
    refine ⟨restored, distinct, typed _ ?_⟩
    intro type settled
    rw [ReturnContext.settled, declares] at settled
    cases declared with
    | some declared => simpa [eq_comm] using settled
    | none =>
      rw [Option.none_or] at settled
      rw [Option.mem_def.mp settled]
      rfl
  · intro within passes
    rw [bind_passes] at passes
    obtain ⟨_, middle, parameters, block⟩ := passes
    obtain ⟨named, distinct, _⟩ :=
      @defineParameters_sound _ _ index 0 names types scopes.enter _ lengths rfl parameters
    have grown : middle.environment =
        (scopes.enter.extend (parameterBindings index 0 names types)).environment := by
      rw [named]
    have undeclared : middle.returns = ⟨declared, none⟩ := by
      rw [named]
    obtain ⟨⟨bindings, grownMore⟩, keeps, typed⟩ :=
      @checkBlock_sound program _ _ phrase
        ⟨scopes.enter.extend (parameterBindings index 0 names types), [0, index]⟩ _ _ _
        (visits parameters) grown block
    refine ⟨⟨parameterBindings index 0 names types ++ bindings, ?_⟩, distinct, ?_, typed⟩
    · rw [grownMore, Scopes.extend_extend]
    · rw [keeps.declared, undeclared]

/-- A function that has been checked is known with its result type. -/
theorem definedScopes_append (root : List Binding) (earlier : List (FunctionDef .checked))
    (definition : FunctionDef .checked) :
    definedScopes root (earlier ++ [definition]) =
      (definedScopes root earlier).declareRoutine definition.settled := by
  simp [definedScopes, Scopes.declareRoutine]

/-- A body starts behind the parameters, in a scope inside of the root. -/
theorem site_definedScopes (root : List Binding) (earlier : List (FunctionDef .checked))
    (definition : FunctionDef .checked) :
    definition.site root earlier =
      ⟨((definedScopes root earlier).declareRoutine definition.own).enter.extend
        (parameterBindings earlier.length 0 definition.parameters definition.routine.parameters),
        [0, earlier.length]⟩ := by
  simp [FunctionDef.site, FunctionDef.bindings, definedScopes, Scopes.declareRoutine,
    Scopes.enter_extend, parameterBindings]

/-- Whether checking comes to the body of a function when it comes to the function
in the given state. -/
def BodyVisited (program : Program .bare) (source : FunctionDef .bare) (before : Checker) : Prop :=
  ∀ {types : List Ty} {declared : Option Ty} {environment : Environment Unit Unit}
    {inside : Checker}, (parameterTypes source.parameterTypes).Passes before types before →
    (resultType? source.returnType).Passes before declared before →
    before.environment.defineFunction ⟨source.name, types, declared, none⟩ = .ok environment →
    (defineParameters source.parameters types).Passes
      ⟨environment.openScope none, ⟨declared, none⟩⟩ () inside →
    Visits program (.block source.body) inside

/-- A function is typed where it stands, and known with its result from then on. -/
theorem checkFunction_sound {tokens : List Token} {root : List Binding}
    {earlier : List (FunctionDef .checked)} {source : FunctionDef .bare}
    {tree : FunctionDef .checked} (phrase : Grammar.Phrase.Function tokens source)
    (visits : BodyVisited program source before)
    (same : before.environment = (definedScopes root earlier).environment)
    (passes : (checkFunction source).Passes before tree after) :
    after.environment = (definedScopes root (earlier ++ [tree])).environment ∧
      FunctionTyped (Checked program) root earlier tree := by
  cases phrase with
  | @mk _ name _ _ _ _ _ _ _ listed result statements _ _ _ _ _ _ _ bodyPhrase _ =>
    simp only [checkFunction, bind_passes, change_passes] at passes
    obtain ⟨parameters, _, typed, declared, _, resolved, _, _, ⟨environment, defined, rfl⟩,
      ⟨body, inferred⟩, middle, checked, passes⟩ := passes
    obtain ⟨rfl, lengths⟩ := parameterTypes_length typed
    obtain ⟨rfl, declares⟩ := resultType?_isSome resolved
    have known := defined
    rw [same] at known
    obtain ⟨fresh, rfl⟩ := Scopes.defineFunction_environment rfl known
    have matching : (listed.map (·.1)).length = parameters.length := by
      simpa using lengths.symm
    have comes : ∀ {inside : Checker}, (defineParameters (listed.map (·.1)) parameters).Passes
        ⟨((definedScopes root earlier).declareRoutine ⟨name.text, parameters, declared,
          none⟩).enter.environment, ⟨declared, none⟩⟩ () inside →
        Visits program (.block statements) inside := by
      intro inside opened
      rw [← Scopes.openScope_environment] at opened
      exact visits typed resolved defined opened
    obtain ⟨restored, distinct, bodyTyped⟩ :=
      checkBody_sound bodyPhrase earlier.length comes matching rfl checked
    have unknown : (definedScopes root earlier).routine? name.text (listed.map (·.1)).length =
        none := by
      rw [matching]
      exact fresh
    rw [definedScopes_append]
    cases declared with
    | none =>
      simp only [Option.isNone_none, ↓reduceIte, bind_passes, change_passes, pure_passes] at passes
      obtain ⟨_, _, ⟨_, settles, rfl⟩, rfl, rfl⟩ := passes
      cases settles
      rw [restored, Scopes.setResult_environment rfl, settle_declareRoutine fresh]
      refine ⟨rfl, matching, distinct, unknown, ?_⟩
      rw [site_definedScopes, FunctionDef.own]
      simpa [← declares] using bodyTyped
    | some declared =>
      simp only [Option.isNone_some, Bool.false_eq_true, ↓reduceIte, pure_passes] at passes
      obtain ⟨rfl, rfl⟩ := passes
      refine ⟨restored, matching, distinct, unknown, ?_⟩
      rw [site_definedScopes, FunctionDef.own]
      simpa [← declares] using bodyTyped

/-- Every function is typed behind those before it. -/
theorem checkFunctions_sound {tokens : List Token} {root : List Binding}
    {sources : List (FunctionDef .bare)} {globals : List (GlobalDef .checked)} {rooted : Checker}
    (globalsPass : (checkGlobals program.globals).Passes .initial globals rooted)
    (phrases : Grammar.Phrase.Sequence Grammar.Phrase.Function tokens sources) :
    ∀ {front : List (FunctionDef .bare)} {earlier : List (FunctionDef .checked)}
      {before after : Checker} {trees : List (FunctionDef .checked)},
      program.functions = front ++ sources → (checkFunctions front).Passes rooted earlier before →
      before.environment = (definedScopes root earlier).environment →
      (checkFunctions sources).Passes before trees after →
      after.environment = (definedScopes root (earlier ++ trees)).environment ∧
        ∀ others tree later, trees = others ++ tree :: later →
          FunctionTyped (Checked program) root (earlier ++ others) tree := by
  induction phrases with
  | empty =>
    intro front earlier before after trees split done same passes
    simp only [checkFunctions, pure_passes] at passes
    obtain ⟨rfl, rfl⟩ := passes
    simp [same]
  | cons phrase _ inductionHypothesis =>
    intro front earlier before after trees split done same passes
    simp only [checkFunctions, bind_passes, pure_passes] at passes
    obtain ⟨first, _, now, rest, _, later, rfl, rfl⟩ := passes
    obtain ⟨grown, firstTyped⟩ := checkFunction_sound phrase (.body split globalsPass done) same now
    have further := inOrder_append checkFunction checkFunctions rfl (fun _ _ => rfl) now front done
    obtain ⟨grownMore, restTyped⟩ := inductionHypothesis (by simpa using split) further grown later
    refine ⟨by simpa using grownMore, ?_⟩
    intro others tree later split
    cases others with
    | nil =>
      obtain ⟨rfl, rfl⟩ := List.cons.inj split
      simpa using firstTyped
    | cons second others =>
      obtain ⟨rfl, remaining⟩ := List.cons.inj split
      simpa using restTyped others tree later remaining

/-- Where `main` is known with an integer as its result, it is a function of the
program, since it is not `print`. -/
theorem main_of_routine? {root : List Binding} {functions : List (FunctionDef .checked)}
    {main : Routine Unit} (known : (definedScopes root functions).routine? "main" 0 = some main)
    (lengths : ∀ definition ∈ functions,
      definition.parameters.length = definition.routine.parameters.length)
    (integer : main.result = some .integer) :
    ∃ definition ∈ functions, definition.name = "main" ∧ definition.parameters = [] ∧
      definition.routine.result = .integer := by
  obtain ⟨named, arity⟩ := routine?_found known
  have member := List.mem_of_find?_eq_some known
  rcases List.mem_cons.mp member with rfl | member
  · simp [printSignature] at named
  · obtain ⟨definition, inside, rfl⟩ := List.mem_map.mp member
    refine ⟨definition, inside, named, ?_, Option.some.inj integer⟩
    rw [← List.length_eq_zero_iff, lengths definition inside]
    exact arity

/-- A program that the grammar derives and the checker accepts is typed. -/
theorem check_sound {tokens : List Token} {source : Program .bare} {tree : Program .checked}
    {checker : Checker} (phrase : Grammar.Phrase.Program tokens source)
    (accepted : check source = .ok (tree, checker)) :
    ProgramTyped (Checked source) tree ∧
      checker.environment = (definedScopes tree.bindings tree.functions).environment := by
  have passes := check_iff.mp accepted
  cases phrase with
  | @mk _ _ sources definitions _ functionPhrases =>
    simp only [checkProgram, bind_passes, lookup_passes, ite_passes, pure_passes, throw_passes,
      and_false, or_false] at passes
    obtain ⟨globals, _, first, functions, _, second, main, _, ⟨found, rfl⟩, integer, rfl, rfl⟩ :=
      passes
    obtain ⟨rooted, globalsTyped⟩ :=
      @checkGlobals_sound ⟨sources, definitions⟩ _ _ _ [] [] _ [] rfl rfl rfl first
    have start : (⟨globals, functions⟩ : Program .checked).bindings =
        [] ++ globals.mapIdx fun index definition => definition.binding (0 + index) := by
      simp [Program.bindings]
    rw [List.length_nil, ← start] at rooted
    obtain ⟨grown, functionsTyped⟩ :=
      @checkFunctions_sound ⟨sources, definitions⟩ _ _ _ _ _ first functionPhrases [] [] _ _ _ rfl
        rfl rooted second
    refine ⟨⟨globalsTyped, functionsTyped, ?_⟩, grown⟩
    rw [grown] at found
    refine main_of_routine? (Scopes.lookupFunction_environment.mp found) ?_ integer
    intro definition member
    obtain ⟨front, back, split⟩ := List.append_of_mem member
    exact (functionsTyped front definition back split).lengths

end Blockscript.Typing
