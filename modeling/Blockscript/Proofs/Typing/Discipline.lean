import Blockscript.Proofs.Running.Discipline
import Blockscript.Proofs.Scopes.Lifting
import Blockscript.Proofs.Typing.Failing

/-!
# Scope discipline of the checker

Whether a check passes or fails, at whatever depth, the scopes that were open before are
open behind it, each as it was. Only the current scope may have gained something: the
variables of the declarations that have passed right in it, the variable of a global, or
the function that was checked, which also gets its result in the end. So a check that fails
leaves no name behind that a later check could see by mistake. A result type that has been
inferred stays the inferred one.
-/

namespace Blockscript

/-- Settling a result passes over the functions of other names and arities. -/
theorem Scope.setResult_append {ν ι : Type} {scope : Scope ν ι} {name : String} {arity : Nat}
    {result : Ty} {routine : Routine ι} (fresh : scope.findFunction name arity = none) :
    Scope.setResult { scope with functions := scope.functions ++ [routine] } name arity result =
      { scope with
        functions := scope.functions ++
          [if routine.name = name && routine.arity = arity then
            { routine with result := some result }
          else routine] } := by
  have others : ∀ routine ∈ scope.functions, ¬(routine.name = name && routine.arity = arity) := by
    simpa [findFunction] using fresh
  have kept : (scope.functions.map fun routine =>
      if routine.name = name && routine.arity = arity then { routine with result := some result }
      else routine) = scope.functions := by
    rw [List.map_congr_left fun routine member => if_neg (others routine member), List.map_id']
  simp only [setResult, List.map_append, kept, List.map_cons, List.map_nil]

namespace Environment

variable {ν ι : Type} {environment after : Environment ν ι} {entries more : List (Variable ν)}
  {functions : List (Routine ι)}

/-- The scopes with variables and functions added to the current one, behind those that it
has. -/
def gain (environment : Environment ν ι) (entries : List (Variable ν))
    (functions : List (Routine ι)) : Environment ν ι :=
  environment.modifyCurrent fun scope =>
    { scope with entries := scope.entries ++ entries, functions := scope.functions ++ functions }

/-- What is gained opens no scope. -/
@[simp] theorem size_gain : (environment.gain entries functions).scopes.size =
    environment.scopes.size := by
  simp [gain, modifyCurrent]

/-- What is gained leaves the current scope current. -/
@[simp] theorem current_gain : (environment.gain entries functions).current =
    environment.current := by
  simp [current]

/-- What stands at a place when the current scope has gained something. -/
theorem getElem?_gain (place : Nat) :
    (environment.gain entries functions).scopes[place]? =
      (environment.scopes[place]?).map fun scope =>
        if place = environment.current then
          { scope with
            entries := scope.entries ++ entries, functions := scope.functions ++ functions }
        else scope := by
  simp only [gain, modifyCurrent, Array.getElem?_modify]
  by_cases current : environment.current = place
  · simp [current]
  · simp [current, Ne.symm current]

/-- To gain nothing changes nothing. -/
@[simp] theorem gain_nil : environment.gain [] [] = environment := by
  refine ext_place fun place => ?_
  rw [getElem?_gain]
  cases environment.scopes[place]? <;> simp

/-- What is gained twice is gained together. -/
theorem gain_gain {others : List (Routine ι)} :
    (environment.gain entries functions).gain more others =
      environment.gain (entries ++ more) (functions ++ others) := by
  refine ext_place fun place => ?_
  simp only [getElem?_gain, current_gain, Option.map_map]
  congr 1
  funext scope
  by_cases current : place = environment.current <;> simp [current]

/-- A scope on top of others can be closed, whatever it has gained. -/
theorem closeScope_gain {parent : Option Nat} (occupied : 0 < environment.scopes.size) :
    ((environment.openScope parent).gain entries functions).closeScope
      (environment.openScope parent).current = .ok environment := by
  have opened := current_openScope environment parent
  have inner : 0 < ((environment.openScope parent).gain entries functions).current := by
    rw [current_gain, opened]
    exact occupied
  have closed := closeScope_current inner
  rw [current_gain] at closed
  rw [closed]
  refine congrArg Except.ok (ext_place fun place => ?_)
  rw [Array.getElem?_pop, size_gain, getElem?_gain, opened]
  simp only [openScope, Array.size_push, Nat.add_sub_cancel]
  split
  · next below =>
    rw [Array.getElem?_push_lt below, Array.getElem?_eq_getElem below, Option.map_some,
      if_neg (Nat.ne_of_lt below)]
  · next above => rw [Array.getElem?_eq_none (Nat.not_lt.mp above)]

/-- A definition gains its variable. -/
theorem defineVariable_gain {entry : Variable ν}
    (defined : environment.defineVariable entry = .ok after) :
    after = environment.gain [entry] [] := by
  obtain ⟨-, rfl⟩ := defineVariable_ok_iff.mp defined
  simp [gain]

/-- A definition gains its function, which was not there before. -/
theorem defineFunction_gain {routine : Routine ι}
    (defined : environment.defineFunction routine = .ok after) :
    environment.currentScope.findFunction routine.name routine.arity = none ∧
      after = environment.gain [] [routine] := by
  obtain ⟨fresh, rfl⟩ := defineFunction_ok_iff.mp defined
  exact ⟨fresh, by simp [gain]⟩

/-- The result that is settled is that of the new function alone, for it is the only one of
its name and arity. -/
theorem setResult_gain {name : String} {parameters : List Ty} {declared : Option Ty} {result : Ty}
    {implementation : Option ι}
    (fresh : environment.currentScope.findFunction name parameters.length = none) :
    (environment.gain [] [⟨name, parameters, declared, implementation⟩]).setResult name
        parameters.length result =
      environment.gain [] [⟨name, parameters, some result, implementation⟩] := by
  refine ext_place fun place => ?_
  rw [setResult, modifyCurrent, current_gain, Array.getElem?_modify, getElem?_gain, getElem?_gain]
  by_cases current : environment.current = place
  · subst current
    cases there : environment.scopes[environment.current]? with
    | none => simp
    | some scope =>
      have unknown : scope.findFunction name parameters.length = none := by
        simpa [currentScope, there] using fresh
      simp [Scope.setResult_append unknown, Routine.arity]
  · simp [current, Ne.symm current]

end Environment

namespace Typing

variable {α β : Type} {before middle after : Checker} {names more : List String}

/-! ## Checks that leave everything as it is -/

/-- However the check ends, the state is the one before. -/
def Check.Still (check : Check α) : Prop :=
  ∀ before, (check.run before).2 = before

/-- To give a value leaves everything as it is. -/
theorem still_pure (value : α) : (pure value : Check α).Still :=
  fun _ => rfl

/-- A fault leaves everything as it is. -/
theorem still_throw (fault : TypeFault) : (throw fault : Check α).Still :=
  fun _ => rfl

/-- A rule leaves everything as it is. -/
theorem still_rule (outcome : Except TypeFault α) : (Check.rule outcome).Still := by
  cases outcome with
  | ok value => exact still_pure value
  | error fault => exact still_throw fault

/-- What comes behind a check that leaves the state goes on from the same state. -/
theorem Check.run_bind_of_same {check : Check α} (next : α → Check β)
    (same : (check.run before).2 = before) :
    (check >>= next).run before =
      match (check.run before).1 with
      | .ok value => (next value).run before
      | .error fault => (.error fault, before) := by
  rw [Check.run_bind]
  cases ending : check.run before with
  | mk outcome middle =>
    rw [ending] at same
    obtain rfl : middle = before := same
    cases outcome with
    | ok value => rfl
    | error fault => rfl

/-- A check that leaves everything as it is passes without a change. -/
theorem Check.Still.passes {check : Check α} {value : α} (still : check.Still)
    (passed : (check.run before).1 = .ok value) : check.Passes before value before :=
  Prod.ext passed (still before)

/-- Two checks in order leave everything as it is when each of them does. -/
theorem Check.Still.bind {check : Check α} {next : α → Check β} (first : check.Still)
    (rest : ∀ value, (next value).Still) : (check >>= next).Still := by
  intro before
  rw [Check.run_bind_of_same next (first before)]
  cases (check.run before).1 with
  | ok value => exact rest value before
  | error fault => rfl

/-- A lookup leaves everything as it is. -/
theorem still_lookup (find : Environment Unit Unit → Except ScopeFault α) :
    (Check.lookup find).Still := by
  intro before
  have state : (get : Check Checker).run before = (.ok before, before) := rfl
  rw [Check.lookup, Check.run_bind, state]
  simp only
  cases find before.environment with
  | ok value => rfl
  | error fault => rfl

/-- A choice leaves everything as it is when both of its sides do. -/
theorem still_ite {condition : Prop} [Decidable condition] {first second : Check α}
    (one : first.Still) (other : second.Still) : (if condition then first else second).Still := by
  split
  · exact one
  · exact other

mutual

/-- Checking an expression leaves everything as it is. -/
theorem checkExpr_still : ∀ source : Expr .bare, (checkExpr source).Still
  | .literal _ value => by
    rw [checkExpr]
    exact (still_rule _).bind fun _ => still_pure _
  | .group _ inner => by
    rw [checkExpr]
    exact still_ite ((checkExpr_still inner).bind fun _ => still_pure _) (still_throw _)
  | .binary _ operator left right => by
    rw [checkExpr]
    exact (checkExpr_still left).bind fun _ => (checkExpr_still right).bind fun _ =>
      (still_rule _).bind fun _ => still_pure _
  | .access _ _ name => by
    rw [checkExpr]
    exact (still_lookup _).bind fun _ => still_pure _
  | .element _ _ name offset => by
    rw [checkExpr]
    refine (still_lookup _).bind fun found => (checkExpr_still offset).bind fun checked => ?_
    have listed : (match found.2.type.element? with
        | some element => pure (.element element found.2 name checked)
        | none => throw (TypeFault.notList name) : Check (Expr .checked)).Still := by
      cases found.2.type.element? with
      | some element => exact still_pure _
      | none => exact still_throw _
    exact still_ite ((still_throw _).bind fun _ => listed) listed
  | .call _ _ name arguments => by
    rw [checkExpr]
    refine (still_lookup _).bind fun routine =>
      (checkArguments_still routine.parameters arguments).bind fun _ => ?_
    cases routine.result with
    | some result => exact still_pure _
    | none => exact still_throw _
  | .list _ [] => by
    rw [checkExpr]
    exact still_throw _
  | .list _ (first :: rest) => by
    rw [checkExpr]
    exact (checkExpr_still first).bind fun checked =>
      (checkElements_still checked.type rest).bind fun _ => still_pure _

/-- Checking arguments leaves everything as it is. -/
theorem checkArguments_still : ∀ (parameters : List Ty) (sources : List (Expr .bare)),
    (checkArguments parameters sources).Still
  | parameter :: parameters, argument :: arguments => by
    rw [checkArguments]
    exact (checkExpr_still argument).bind fun _ => (still_rule _).bind fun _ =>
      (checkArguments_still parameters arguments).bind fun _ => still_pure _
  | [], _ => by
    rw [checkArguments]
    · exact still_pure _
    · simp
  | _ :: _, [] => by
    rw [checkArguments]
    · exact still_pure _
    · simp

/-- Checking elements leaves everything as it is. -/
theorem checkElements_still (element : Ty) : ∀ sources : List (Expr .bare),
    (checkElements element sources).Still
  | [] => by
    rw [checkElements]
    exact still_pure _
  | first :: rest => by
    rw [checkElements]
    exact (checkExpr_still first).bind fun _ => (still_rule _).bind fun _ =>
      (checkElements_still element rest).bind fun _ => still_pure _

end

/-- Checking a value leaves everything as it is. -/
theorem checkValue_still (target : Ty) (source : Expr .bare) :
    (checkValue target source).Still := by
  unfold checkValue
  split
  · split
    · exact (checkElements_still _ _).bind fun _ => still_pure _
    · exact checkExpr_still _
  · exact checkExpr_still _

/-- Checking what a definition binds leaves everything as it is. -/
theorem checkBinding_still (name : String) (typeName : Option String)
    (value : Option (Expr .bare)) : (checkBinding name typeName value).Still := by
  unfold checkBinding
  split
  · exact still_throw _
  · exact (checkExpr_still _).bind fun _ => still_pure _
  · exact (still_rule _).bind fun _ => still_pure _
  · exact (still_rule _).bind fun type => (checkValue_still type _).bind fun _ =>
      (still_rule _).bind fun _ => still_pure _

/-- Checking a condition leaves everything as it is. -/
theorem checkCondition_still (keyword : String) (condition : Expr .bare) :
    (checkCondition keyword condition).Still :=
  (checkExpr_still condition).bind fun _ => still_ite (still_pure _) (still_throw _)

/-- Checking the label of a case leaves everything as it is. -/
theorem checkLabel_still (subject : Ty) (last : Bool) (label : Option (Expr .bare)) :
    (checkLabel subject last label).Still := by
  unfold checkLabel
  split
  · exact still_throw _
  · exact still_throw _
  · exact still_pure _
  · exact (checkExpr_still _).bind fun _ => still_ite (still_pure _) (still_throw _)

/-- Resolving the types of parameters leaves everything as it is. -/
theorem parameterTypes_still : ∀ names : List (Option String), (parameterTypes names).Still
  | [] => still_pure _
  | none :: rest => (parameterTypes_still rest).bind fun _ => still_pure _
  | some _ :: rest => (still_rule _).bind fun _ =>
    (parameterTypes_still rest).bind fun _ => still_pure _

/-- Resolving the type of a result leaves everything as it is. -/
theorem resultType?_still : ∀ name : Option String, (resultType? name).Still
  | none => still_pure _
  | some _ => (still_rule _).bind fun _ => still_pure _

/-! ## What statements leave -/

/-- Nothing is declared about the returns on the way, and what was inferred remains. -/
structure ReturnContext.Persists (earlier later : ReturnContext) : Prop where
  declared : later.declared = earlier.declared
  inferred : ∀ type, earlier.inferred = some type → later.inferred = some type

/-- From the one state to the other the current scope gains variables of the given names, as
declarations define them. The scopes are the same otherwise, and the returns persist. -/
structure Framed (names : List String) (before after : Checker) : Prop where
  scopes : ∃ entries : List (Variable Unit), entries.map Variable.name = names ∧
    (∀ entry ∈ entries, entry.mutable = true) ∧
    after.environment = before.environment.gain entries []
  returns : before.returns.Persists after.returns

/-- Where nothing happens, nothing is gained. -/
theorem Framed.refl (checker : Checker) : Framed [] checker checker where
  scopes := ⟨[], rfl, by simp, by simp⟩
  returns := ⟨rfl, fun _ inferred => inferred⟩

/-- What is gained twice in order is gained together. -/
theorem Framed.trans (first : Framed names before middle) (second : Framed more middle after) :
    Framed (names ++ more) before after where
  scopes := by
    obtain ⟨entries, rfl, declared, gained⟩ := first.scopes
    obtain ⟨others, rfl, declaredToo, gainedToo⟩ := second.scopes
    refine ⟨entries ++ others, List.map_append, ?_, ?_⟩
    · intro entry member
      exact (List.mem_append.mp member).elim (declared entry) (declaredToo entry)
    · rw [gainedToo, gained, Environment.gain_gain, List.append_nil]
  returns := ⟨second.returns.declared.trans first.returns.declared,
    fun type inferred => second.returns.inferred type (first.returns.inferred type inferred)⟩

/-- No scope is opened or closed on the whole. -/
theorem Framed.size (framed : Framed names before after) :
    after.environment.scopes.size = before.environment.scopes.size := by
  obtain ⟨entries, -, -, gained⟩ := framed.scopes
  rw [gained, Environment.size_gain]

/-- From the state on the check gains the names that its outcome says. -/
def Check.Frames (check : Check α) (before : Checker) (names : Except TypeFault α → List String) :
    Prop :=
  Framed (names (check.run before).1) before (check.run before).2

/-- The names, if a check passes. -/
def ifPassed (names : List String) : Except TypeFault α → List String
  | .ok _ => names
  | .error _ => []

/-- No names are none, passed or not. -/
theorem ifPassed_nil : (ifPassed [] : Except TypeFault α → List String) = fun _ => [] := by
  funext outcome
  cases outcome with
  | ok value => rfl
  | error fault => rfl

/-- A check that leaves everything as it is gains nothing. -/
theorem Check.Still.frames {check : Check α} (still : check.Still) (before : Checker) :
    check.Frames before (ifPassed []) := by
  rw [ifPassed_nil, Check.Frames, still before]
  exact .refl before

/-- Of two checks the first one gains nothing, and the second one what the whole does. -/
theorem Check.Frames.bind {check : Check α} {next : α → Check β}
    (first : check.Frames before (ifPassed []))
    (rest : ∀ value middle, middle.environment.scopes.size = before.environment.scopes.size →
      (next value).Frames middle (ifPassed names)) :
    (check >>= next).Frames before (ifPassed names) := by
  rw [Check.Frames] at first ⊢
  rw [Check.run_bind]
  cases ending : check.run before with
  | mk outcome middle =>
    rw [ending] at first
    cases outcome with
    | ok value => exact first.trans (rest value middle first.size)
    | error fault => exact first

/-- A check leaves the same whatever is made of its value. -/
theorem Check.run_map (check : Check α) (form : α → β) (before : Checker) :
    ((check >>= fun value => pure (form value)).run before).2 = (check.run before).2 := by
  rw [Check.run_bind]
  cases check.run before with
  | mk outcome middle =>
    cases outcome with
    | ok value => rfl
    | error fault => rfl

/-- The form of its value does not matter to what a check gains. -/
theorem Check.Frames.map {check : Check α} (frames : check.Frames before (ifPassed names))
    (form : α → β) : (check >>= fun value => pure (form value)).Frames before (ifPassed names) := by
  rw [Check.Frames] at frames ⊢
  rw [Check.run_bind]
  cases ending : check.run before with
  | mk outcome middle =>
    rw [ending] at frames
    cases outcome with
    | ok value => exact frames
    | error fault => exact frames

/-- A check gains the same when its value is not needed. -/
theorem frames_discard {check : Check α} (frames : check.Frames before (ifPassed names)) :
    (discard check).Frames before (ifPassed names) := by
  have dropped : discard check = check >>= fun _ => pure ⟨⟩ := by
    rw [discard, map_const, Function.comp_apply, map_eq_pure_bind]
  rw [dropped]
  exact frames.map _

/-- What comes behind a refusal is not checked. -/
theorem frames_refused {fault : TypeFault} {next : α → Check β} :
    ((throw fault : Check α) >>= next).Frames before (ifPassed names) :=
  .refl before

/-- A change of the scopes is made, or it fails and leaves them. -/
theorem Check.run_change
    (step : Environment Unit Unit → Except ScopeFault (Environment Unit Unit)) (before : Checker) :
    (Check.change step).run before =
      match step before.environment with
      | .ok environment => (.ok (), { before with environment := environment })
      | .error fault => (.error (.scope fault), before) := by
  rw [Check.change, Check.run_bind]
  change (match step before.environment with
    | .ok environment => (set { before with environment := environment } : Check Unit)
    | .error fault => throw (TypeFault.scope fault)).run before = _
  cases step before.environment with
  | ok environment => rfl
  | error fault => rfl

/-- A variable is defined, or the definition fails and leaves the scopes. -/
theorem Check.run_define (name : String) (type : Ty) (mutable : Bool) (before : Checker) :
    (Check.define name type mutable).run before =
      match before.environment.defineVariable ⟨name, type, mutable, ()⟩ with
      | .ok environment =>
        (.ok ⟨name, type, mutable, ()⟩, { before with environment := environment })
      | .error fault => (.error (.scope fault), before) := by
  rw [Check.define, Check.run_bind, Check.run_change]
  cases before.environment.defineVariable ⟨name, type, mutable, ()⟩ with
  | ok environment => rfl
  | error fault => rfl

/-- A definition gains its name, if it passes. -/
theorem frames_define (name : String) (type : Ty) :
    (Check.define name type true).Frames before (ifPassed [name]) := by
  rw [Check.Frames, Check.run_define]
  cases defined : before.environment.defineVariable ⟨name, type, true, ()⟩ with
  | ok environment =>
    refine ⟨⟨[⟨name, type, true, ()⟩], rfl, by simp, ?_⟩, ⟨rfl, fun _ inferred => inferred⟩⟩
    exact Environment.defineVariable_gain defined
  | error fault => exact .refl before

/-- A returned type is noted when no type is settled yet. -/
theorem run_checkReturned (type : Ty) (before : Checker) :
    (checkReturned type).run before =
      match before.returns.declared, before.returns.inferred with
      | some settled, _ | none, some settled =>
        (Check.rule (requireAssignable settled type)).run before
      | none, none =>
        (.ok (), { before with returns := { before.returns with inferred := some type } }) := by
  rw [checkReturned, Check.run_bind]
  change (match before.returns.declared, before.returns.inferred with
    | some declared, _ => Check.rule (requireAssignable declared type)
    | none, some inferred => Check.rule (requireAssignable inferred type)
    | none, none => set { before with returns := { before.returns with inferred := some type } }
      : Check Unit).run before = _
  cases before.returns.declared with
  | some declared => rfl
  | none =>
    cases before.returns.inferred with
    | some inferred => rfl
    | none => rfl

/-- A return gains nothing. -/
theorem frames_returned (type : Ty) : (checkReturned type).Frames before (ifPassed []) := by
  have settled (settled : Ty) : (Check.rule (requireAssignable settled type)).Frames before
      (ifPassed []) :=
    (still_rule _).frames before
  rw [Check.Frames, run_checkReturned]
  split
  · exact settled _
  · exact settled _
  · next unknown =>
    exact ⟨⟨[], rfl, by simp, by simp⟩, rfl, fun type inferred => by simp [unknown] at inferred⟩

/-- Whatever a check gains in a scope of its own goes with that scope. -/
theorem frames_inScope {body : Check α} (occupied : 0 < before.environment.scopes.size)
    (framed : Framed names { before with environment := before.environment.openScope none }
      (body.run { before with environment := before.environment.openScope none }).2) :
    (Check.inScope body).Frames before (ifPassed []) := by
  obtain ⟨⟨entries, -, -, gained⟩, returns⟩ := framed
  have closed := @Environment.closeScope_gain _ _ _ entries [] none occupied
  rw [← gained] at closed
  have restored : Framed [] before
      { (body.run { before with environment := before.environment.openScope none }).2 with
        environment := before.environment } :=
    ⟨⟨[], rfl, by simp, by simp⟩, returns⟩
  rw [ifPassed_nil, Check.Frames]
  cases ending : body.run { before with environment := before.environment.openScope none } with
  | mk outcome inside =>
    rw [ending] at closed restored
    cases outcome with
    | ok value =>
      have passes := inScope_passes.mpr ⟨inside, before.environment, ending, closed, rfl⟩
      rw [passes]
      exact restored
    | error fault =>
      have fails := inScope_fails ending closed
      rw [fails]
      exact restored

/-! ## Statements and blocks -/

/-- The statements of a block that pass when it is checked in a state. -/
def passing : List (Stmt .bare) → Checker → List (Stmt .bare)
  | first :: rest, before =>
    match (checkStmt first).run before with
    | (.ok _, after) => first :: passing rest after
    | _ => []
  | [], _ => []

/-- A block that is framed wherever it stands, in a scope of its own. -/
theorem frames_block {source : List (Stmt .bare)} (occupied : 0 < before.environment.scopes.size)
    (framed : ∀ {inside : Checker}, 0 < inside.environment.scopes.size →
      Framed ((passing source inside).flatMap Stmt.declared) inside
        ((checkBlock source).run inside).2) :
    (Check.inScope (checkBlock source)).Frames before (ifPassed []) :=
  frames_inScope occupied (framed (by simp [Environment.openScope]))

mutual

/-- A statement that passes gains what it declares, and any other gains nothing. -/
theorem checkStmt_frames : ∀ (source : Stmt .bare) {before : Checker},
    0 < before.environment.scopes.size →
      (checkStmt source).Frames before (ifPassed source.declared)
  | .expression inner, before, _ => by
    rw [checkStmt]
    split
    · exact ((checkExpr_still inner).frames before).map _
    · exact (still_throw _).frames before
  | .declaration _ name typeName value, before, _ => by
    rw [checkStmt]
    refine ((checkBinding_still name typeName value).frames before).bind fun binding middle _ => ?_
    exact (frames_define name binding.1).map _
  | .assignment receiver value, before, _ => by
    rw [checkStmt]
    refine still_ite ?_ (still_throw _) |>.frames before
    exact (checkExpr_still receiver).bind fun place => (checkValue_still place.type value).bind
      fun _ => (still_rule _).bind fun _ => still_pure _
  | .conditional condition thenBlock elseBlock, before, occupied => by
    rw [checkStmt]
    refine ((checkCondition_still _ condition).frames before).bind fun checked middle size => ?_
    have blocks : (do
        let thenTree ← Check.inScope (checkBlock thenBlock)
        let elseTree ← Check.inScope (checkBlock elseBlock)
        return .conditional checked thenTree elseTree : Check (Stmt .checked)).Frames middle
        (ifPassed []) :=
      (frames_block (by omega) (checkBlock_frames thenBlock)).bind fun _ _ sizeToo =>
        (frames_block (by omega) (checkBlock_frames elseBlock)).map _
    split
    · exact frames_refused
    · exact blocks
  | .switch subject cases, before, occupied => by
    rw [checkStmt]
    refine ((checkExpr_still subject).frames before).bind fun checked middle size => ?_
    split
    · exact frames_refused
    · exact (checkCases_frames checked.type cases (by omega)).map _
  | .loop condition body, before, occupied => by
    rw [checkStmt]
    refine ((checkCondition_still _ condition).frames before).bind fun checked middle size => ?_
    exact (frames_block (by omega) (checkBlock_frames body)).map _
  | .returning value, before, _ => by
    rw [checkStmt]
    refine ((checkExpr_still value).frames before).bind fun checked middle _ => ?_
    exact (frames_returned _).map _
  | .stray label body, before, occupied => by
    rw [checkStmt]
    exact (frames_block occupied (checkBlock_frames body)).map _

/-- A block gains what the statements declare that pass. -/
theorem checkBlock_frames : ∀ (sources : List (Stmt .bare)) {before : Checker},
    0 < before.environment.scopes.size →
      Framed ((passing sources before).flatMap Stmt.declared) before
        ((checkBlock sources).run before).2
  | [], before, _ => by
    rw [checkBlock]
    exact .refl before
  | first :: rest, before, occupied => by
    have framed := checkStmt_frames first occupied
    rw [Check.Frames] at framed
    rw [checkBlock, Check.run_bind, passing]
    cases ending : (checkStmt first).run before with
    | mk outcome middle =>
      rw [ending] at framed
      cases outcome with
      | error fault => exact framed
      | ok tree =>
        have still : 0 < middle.environment.scopes.size := framed.size ▸ occupied
        have further := checkBlock_frames rest still
        rw [List.flatMap_cons]
        refine framed.trans ?_
        change Framed _ middle
          ((checkBlock rest >>= fun trees => pure (tree :: trees)).run middle).2
        rw [Check.run_map]
        exact further

/-- Cases gain nothing, for each of their blocks has a scope of its own. -/
theorem checkCases_frames : ∀ (subject : Ty) (sources : List (Case .bare)) {before : Checker},
    0 < before.environment.scopes.size → (checkCases subject sources).Frames before (ifPassed [])
  | subject, [], before, _ => by
    rw [checkCases]
    exact (still_pure _).frames before
  | subject, .mk label body :: rest, before, occupied => by
    rw [checkCases]
    have labelled := (checkLabel_still subject rest.isEmpty label).frames before
    refine labelled.bind fun _ middle size => ?_
    refine (frames_block (by omega) (checkBlock_frames body)).bind fun _ last sizeToo => ?_
    exact (checkCases_frames subject rest (by omega)).map _

end

/-! ## Globals and functions -/

/-- A global that passes is gained, and any other leaves the state. -/
theorem checkGlobal_leaves (definition : GlobalDef .bare) (before : Checker) :
    match (checkGlobal definition).run before with
    | (.ok checked, after) =>
      checked.entry.name = definition.name ∧ checked.entry.mutable = definition.mutable ∧
        after = { before with environment := before.environment.gain [checked.entry] [] }
    | (.error _, after) => after = before := by
  dsimp only [checkGlobal]
  by_cases refused : (!definition.mutable && definition.value.isNone) = true
  · rw [if_pos refused]
    rfl
  · rw [if_neg refused, Check.run_bind_of_same _ (checkBinding_still _ _ _ before)]
    cases ((checkBinding definition.name definition.typeName definition.value).run before).1 with
    | error fault => rfl
    | ok binding =>
      dsimp only
      rw [Check.run_bind, Check.run_define]
      cases defined : before.environment.defineVariable
          ⟨definition.name, binding.1, definition.mutable, ()⟩ with
      | error fault => rfl
      | ok environment =>
        obtain rfl := Environment.defineVariable_gain defined
        exact ⟨rfl, rfl, rfl⟩

/-- What a check leaves is framed by some names. -/
def Check.Gaining (check : Check α) (before : Checker) : Prop :=
  ∃ names, Framed names before (check.run before).2

/-- Two checks in order gain when each of them does. -/
theorem Check.Gaining.bind {check : Check α} {next : α → Check β} (first : check.Gaining before)
    (rest : ∀ value middle, middle.environment.scopes.size = before.environment.scopes.size →
      (next value).Gaining middle) :
    (check >>= next).Gaining before := by
  obtain ⟨names, framed⟩ := first
  rw [Check.Gaining, Check.run_bind]
  cases ending : check.run before with
  | mk outcome middle =>
    rw [ending] at framed
    cases outcome with
    | ok value =>
      obtain ⟨more, further⟩ := rest value middle framed.size
      exact ⟨names ++ more, framed.trans further⟩
    | error fault => exact ⟨names, framed⟩

/-- A check that gains known names gains some. -/
theorem Check.Frames.gaining {check : Check α} (frames : check.Frames before (ifPassed names)) :
    check.Gaining before :=
  ⟨_, frames⟩

/-- The parameters are gained, as far as they pass. -/
theorem defineParameters_gaining : ∀ (names : List String) (types : List Ty) (before : Checker),
    (defineParameters names types).Gaining before
  | name :: names, type :: types, before => by
    rw [defineParameters]
    refine .bind (frames_discard (frames_define name type)).gaining fun _ middle _ => ?_
    exact defineParameters_gaining names types middle
  | [], _, before => by
    rw [defineParameters]
    · exact ((still_pure _).frames before).gaining
    · simp
  | _ :: _, [], before => by
    rw [defineParameters]
    · exact ((still_pure _).frames before).gaining
    · simp

/-- The body of a function leaves the state as it is. -/
theorem checkBody_still {declared : Option Ty} {parameters : List String} {types : List Ty}
    {body : List (Stmt .bare)} (occupied : 0 < before.environment.scopes.size) :
    ((Check.inFunction declared <| Check.inScope do
      defineParameters parameters types
      checkBlock body).run before).2 = before := by
  have gaining : (do
      defineParameters parameters types
      checkBlock body : Check (List (Stmt .checked))).Gaining
        ⟨before.environment.openScope none, ⟨declared, none⟩⟩ :=
    (defineParameters_gaining parameters types _).bind fun _ middle size =>
      ⟨_, checkBlock_frames body (by simp [size, Environment.openScope])⟩
  obtain ⟨names, framed⟩ := gaining
  have frames := @frames_inScope _ ⟨before.environment, ⟨declared, none⟩⟩ _ _ occupied framed
  rw [ifPassed_nil] at frames
  obtain ⟨entries, none, -, same⟩ := frames.scopes
  rw [List.map_eq_nil_iff.mp none, Environment.gain_nil] at same
  change Checker.mk _ before.returns = before
  rw [Checker.mk.injEq]
  exact ⟨same, rfl⟩

/-- What is behind a check of a function: the function is not defined, because a type does
not exist or the name is taken; or it is defined, with the result that is declared, or with
some result once its body has passed. -/
inductive FunctionLeft (definition : FunctionDef .bare) (before : Checker) :
    Except TypeFault (FunctionDef .checked) → Environment Unit Unit → Prop where
  | undefined {fault : TypeFault} : FunctionLeft definition before (.error fault) before.environment
  | failed {fault : TypeFault} {parameters : List Ty} {declared : Option Ty} :
      (parameterTypes definition.parameterTypes).Passes before parameters before →
      (resultType? definition.returnType).Passes before declared before →
      before.environment.currentScope.findFunction definition.name parameters.length = none →
      FunctionLeft definition before (.error fault)
        (before.environment.gain [] [⟨definition.name, parameters, declared, none⟩])
  | passed {checked : FunctionDef .checked} {declared : Option Ty} :
      (parameterTypes definition.parameterTypes).Passes before checked.routine.parameters before →
      (resultType? definition.returnType).Passes before declared before →
      before.environment.currentScope.findFunction definition.name
        checked.routine.parameters.length = none →
      (∀ type, declared = some type → checked.routine.result = type) →
      FunctionLeft definition before (.ok checked) (before.environment.gain []
        [⟨definition.name, checked.routine.parameters, some checked.routine.result, none⟩])

/-- Checking a function leaves the scopes with it or without it, as it fails or passes, and
restores the returns. -/
theorem checkFunction_leaves (definition : FunctionDef .bare)
    (occupied : 0 < before.environment.scopes.size) :
    FunctionLeft definition before ((checkFunction definition).run before).1
        ((checkFunction definition).run before).2.environment ∧
      ((checkFunction definition).run before).2.returns = before.returns := by
  dsimp only [checkFunction]
  rw [Check.run_bind_of_same _ (parameterTypes_still _ before)]
  cases typed : ((parameterTypes definition.parameterTypes).run before).1 with
  | error fault => exact ⟨.undefined, rfl⟩
  | ok parameters =>
    dsimp only
    rw [Check.run_bind_of_same _ (resultType?_still _ before)]
    cases resolved : ((resultType? definition.returnType).run before).1 with
    | error fault => exact ⟨.undefined, rfl⟩
    | ok declared =>
      have typedPasses := (parameterTypes_still _).passes typed
      have resolvedPasses := (resultType?_still _).passes resolved
      dsimp only
      rw [Check.run_bind, Check.run_change]
      cases defined : before.environment.defineFunction
          ⟨definition.name, parameters, declared, none⟩ with
      | error fault => exact ⟨.undefined, rfl⟩
      | ok environment =>
        obtain ⟨fresh, rfl⟩ := Environment.defineFunction_gain defined
        dsimp only
        rw [Check.run_bind_of_same _ (checkBody_still (by simpa using occupied))]
        split
        · next result _ =>
          cases declared with
          | none =>
            rw [if_pos Option.isNone_none, Check.run_bind, Check.run_change]
            dsimp only
            rw [Environment.setResult_gain fresh]
            exact ⟨.passed typedPasses resolvedPasses fresh (by simp), rfl⟩
          | some type => exact ⟨.passed typedPasses resolvedPasses fresh (by simp), rfl⟩
        · exact ⟨.failed typedPasses resolvedPasses fresh, rfl⟩

/-- Whether a check passes or fails, every scope is there that was there before, and only
the current one may have gained something. Expressions gain nothing. A statement gains the
variable that it declares, if it passes; a block gains those of its statements that pass; a
global gains its variable, and a function that is checked gains itself. What was inferred of
the returns remains. -/
theorem checker_scopes_disciplined (occupied : 0 < before.environment.scopes.size) :
    (∀ source : Expr .bare, ((checkExpr source).run before).2 = before) ∧
    (∀ source : Stmt .bare,
      Framed (ifPassed source.declared ((checkStmt source).run before).1) before
        ((checkStmt source).run before).2) ∧
    (∀ sources : List (Stmt .bare),
      Framed ((passing sources before).flatMap Stmt.declared) before
        ((checkBlock sources).run before).2) ∧
    (∀ definition : GlobalDef .bare,
      match (checkGlobal definition).run before with
      | (.ok checked, after) =>
        checked.entry.name = definition.name ∧ checked.entry.mutable = definition.mutable ∧
          after = { before with environment := before.environment.gain [checked.entry] [] }
      | (.error _, after) => after = before) ∧
    ∀ definition : FunctionDef .bare,
      FunctionLeft definition before ((checkFunction definition).run before).1
        ((checkFunction definition).run before).2.environment ∧
      ((checkFunction definition).run before).2.returns = before.returns :=
  ⟨fun source => checkExpr_still source before, fun source => checkStmt_frames source occupied,
    fun sources => checkBlock_frames sources occupied,
    fun definition => checkGlobal_leaves definition before,
    fun definition => checkFunction_leaves definition occupied⟩

/-- A declaration that passes, and behind it a condition whose block declares something and
then fails. -/
def leavingEarly : List (Stmt .bare) :=
  [.declaration () "kept" none (some (.literal () (.integer 1))),
    .conditional (.literal () (.boolean true))
      [.declaration () "lost" none (some (.literal () (.integer 2))),
        .expression (.literal () .nil)] []]

/-- Checking it leaves the variable of the first declaration, and nothing of the block. -/
theorem leavingEarly_disciplined :
    0 < Checker.initial.environment.scopes.size ∧
      (checkBlock leavingEarly).Fails Checker.initial .notCall
        ⟨Checker.initial.environment.gain [⟨"kept", .integer, true, ()⟩] [], ⟨none, none⟩⟩ ∧
      Framed ["kept"] Checker.initial ((checkBlock leavingEarly).run Checker.initial).2 := by
  have occupied : 0 < Checker.initial.environment.scopes.size := by decide
  have names : (passing leavingEarly Checker.initial).flatMap Stmt.declared = ["kept"] := by rfl
  refine ⟨occupied, by rfl, ?_⟩
  rw [← names]
  exact (checker_scopes_disciplined occupied).2.2.1 leavingEarly

end Typing

end Blockscript
