import Blockscript.Environment

/-!
# What the operations on environments do

Each operation is taken apart once: what stands in the environment behind it when it
succeeds, and when it is refused and for what. What is shown of environments elsewhere
starts from here.
-/

namespace Blockscript.Environment

variable {ν ι β : Type} {environment after : Environment ν ι} {fault : ScopeFault}

/-! ## Looking names up -/

/-- A search that succeeds has found something in the scope at the place that it tells. -/
theorem search_found {found : Scope ν ι → Option β} {start place : Nat} {result : β}
    (search : environment.search found start = some (place, result)) :
    ∃ scope, environment.scopes[place]? = some scope ∧ found scope = some result := by
  induction start using Nat.strongRecOn with
  | ind start inductionHypothesis =>
    rw [Environment.search] at search
    cases there : environment.scopes[start]? with
    | none => simp [there] at search
    | some scope =>
      simp only [there] at search
      cases here : found scope with
      | some other =>
        simp only [here, Option.some.injEq, Prod.mk.injEq] at search
        obtain ⟨rfl, rfl⟩ := search
        exact ⟨scope, there, here⟩
      | none =>
        cases continued : scope.parent with
        | none => simp [here, continued] at search
        | some parent =>
          simp only [here, continued] at search
          split at search
          · next lower => exact inductionHypothesis parent lower search
          · cases search

/-- A variable is looked up when the search from the current scope finds it. -/
theorem lookupVariable_ok_iff {name : String} {found : Nat × Variable ν} :
    environment.lookupVariable name = .ok found ↔
      environment.search (·.findVariable name) environment.current = some found := by
  unfold lookupVariable
  cases environment.search (·.findVariable name) environment.current with
  | none => simp
  | some other => simp

/-- A variable is undefined when the search finds none. -/
theorem lookupVariable_error_iff {name : String} :
    environment.lookupVariable name = .error fault ↔
      environment.search (·.findVariable name) environment.current = none ∧
        fault = .undefinedVariable name := by
  unfold lookupVariable
  cases environment.search (·.findVariable name) environment.current with
  | none => simp [eq_comm]
  | some other => simp

/-- A function is looked up when the search from the current scope finds it. -/
theorem lookupFunction_ok_iff {name : String} {arity : Nat} {routine : Routine ι} :
    environment.lookupFunction name arity = .ok routine ↔
      ∃ place, environment.search (·.findFunction name arity) environment.current =
        some (place, routine) := by
  unfold lookupFunction
  cases environment.search (·.findFunction name arity) environment.current with
  | none => simp
  | some found => simp [Prod.ext_iff]

/-- A function is undefined when the search finds none. -/
theorem lookupFunction_error_iff {name : String} {arity : Nat} :
    environment.lookupFunction name arity = .error fault ↔
      environment.search (·.findFunction name arity) environment.current = none ∧
        fault = .undefinedFunction name arity := by
  unfold lookupFunction
  cases environment.search (·.findFunction name arity) environment.current with
  | none => simp [eq_comm]
  | some found => simp

/-! ## Defining and assigning -/

/-- A variable is defined behind the others of the current scope, if its name is free there. -/
theorem defineVariable_ok_iff {entry : Variable ν} :
    environment.defineVariable entry = .ok after ↔
      environment.currentScope.findVariable entry.name = none ∧
        after = environment.modifyCurrent fun scope =>
          { scope with entries := scope.entries ++ [entry] } := by
  unfold defineVariable
  cases environment.currentScope.findVariable entry.name with
  | none => simp [eq_comm]
  | some other => simp

/-- A definition is refused when the current scope has a variable of the name. -/
theorem defineVariable_error_iff {entry : Variable ν} :
    environment.defineVariable entry = .error fault ↔
      (environment.currentScope.findVariable entry.name).isSome ∧
        fault = .variableDefined entry.name := by
  unfold defineVariable
  cases environment.currentScope.findVariable entry.name with
  | none => simp
  | some other => simp [eq_comm]

/-- A function is defined behind the others of the current scope, if none of them has its
name and arity. -/
theorem defineFunction_ok_iff {routine : Routine ι} :
    environment.defineFunction routine = .ok after ↔
      environment.currentScope.findFunction routine.name routine.arity = none ∧
        after = environment.modifyCurrent fun scope =>
          { scope with functions := scope.functions ++ [routine] } := by
  unfold defineFunction
  cases environment.currentScope.findFunction routine.name routine.arity with
  | none => simp [eq_comm]
  | some other => simp

/-- A definition is refused when the current scope has a function of the name and arity. -/
theorem defineFunction_error_iff {routine : Routine ι} :
    environment.defineFunction routine = .error fault ↔
      (environment.currentScope.findFunction routine.name routine.arity).isSome ∧
        fault = .functionDefined routine.name routine.arity := by
  unfold defineFunction
  cases environment.currentScope.findFunction routine.name routine.arity with
  | none => simp
  | some other => simp [eq_comm]

/-- A value is put behind the variable that the name means. -/
theorem setVariable_ok_iff {name : String} {value : ν} :
    environment.setVariable name value = .ok after ↔
      ∃ place entry, environment.lookupVariable name = .ok (place, entry) ∧
        after = ⟨environment.scopes.modify place (·.setVariable name value)⟩ := by
  unfold setVariable
  cases environment.lookupVariable name with
  | error fault => simp
  | ok found => simp [Prod.ext_iff, eq_comm]

/-- An assignment is refused as the lookup of its variable is. -/
theorem setVariable_error_iff {name : String} {value : ν} :
    environment.setVariable name value = .error fault ↔
      environment.lookupVariable name = .error fault := by
  unfold setVariable
  cases environment.lookupVariable name with
  | error other => simp
  | ok found => simp

/-! ## Opening and closing -/

/-- Only the innermost scope can be closed, unless it is the root. -/
theorem closeScope_eq (environment : Environment ν ι) (index : Nat) :
    environment.closeScope index =
      if index + 1 = environment.scopes.size ∧ index ≠ 0 then .ok ⟨environment.scopes.pop⟩
      else .error (.closedOutOfOrder index) := by
  have swapped : (index ≠ environment.current || index = 0) = true ↔
      ¬(index + 1 = environment.scopes.size ∧ index ≠ 0) := by
    rw [Bool.or_eq_true, decide_eq_true_eq, decide_eq_true_eq, current]
    omega
  unfold closeScope
  simp only [swapped, ite_not]

/-- A scope is closed when it is the last one and not the root. -/
theorem closeScope_ok_iff {index : Nat} :
    environment.closeScope index = .ok after ↔
      (index + 1 = environment.scopes.size ∧ index ≠ 0) ∧ after = ⟨environment.scopes.pop⟩ := by
  rw [closeScope_eq]
  split
  · next inside =>
    exact ⟨fun given => ⟨inside, (Except.ok.inj given).symm⟩, fun both => both.2 ▸ rfl⟩
  · next outside => exact ⟨nofun, fun both => absurd both.1 outside⟩

/-- A scope that is not the last one, or is the root, is not closed. -/
theorem closeScope_error_iff {index : Nat} :
    environment.closeScope index = .error fault ↔
      ¬(index + 1 = environment.scopes.size ∧ index ≠ 0) ∧ fault = .closedOutOfOrder index := by
  rw [closeScope_eq]
  split
  · next inside => exact ⟨nofun, fun both => absurd inside both.1⟩
  · next outside =>
    exact ⟨fun given => ⟨outside, (Except.error.inj given).symm⟩, fun both => both.2 ▸ rfl⟩

/-- Any scope but the root can be closed once it is the innermost one. -/
theorem closeScope_current (inner : 0 < environment.current) :
    environment.closeScope environment.current = .ok ⟨environment.scopes.pop⟩ := by
  refine closeScope_ok_iff.mpr ⟨⟨?_, Nat.ne_of_gt inner⟩, rfl⟩
  rw [current] at inner ⊢
  omega

/-- The scope that is opened is the current one. -/
theorem current_openScope (environment : Environment ν ι) (parent : Option Nat) :
    (environment.openScope parent).current = environment.scopes.size := by
  simp [openScope, current]

/-! ## What stands where behind an operation -/

/-- Where a scope is open behind an opening, it was open before or is the new one. -/
theorem openScope_stands {parent : Option Nat} {place : Nat} {scope : Scope ν ι}
    (there : (environment.openScope parent).scopes[place]? = some scope) :
    environment.scopes[place]? = some scope ∨
      place = environment.scopes.size ∧
        scope = { parent := some (parent.getD environment.current) } := by
  rw [openScope, Array.getElem?_push] at there
  split at there
  · next top =>
    cases there
    exact .inr ⟨top, rfl⟩
  · exact .inl there

/-- A scope that is open behind a closing was open before. -/
theorem pop_stands {place : Nat} {scope : Scope ν ι}
    (there : environment.scopes.pop[place]? = some scope) :
    environment.scopes[place]? = some scope := by
  rw [Array.getElem?_pop] at there
  split at there
  · exact there
  · cases there

/-- A scope that is open behind a change was open before, or is the one that is changed. -/
theorem modify_stands {place other : Nat} {scope : Scope ν ι} {change : Scope ν ι → Scope ν ι}
    (there : (environment.scopes.modify place change)[other]? = some scope) :
    (∃ earlier, place = other ∧ environment.scopes[place]? = some earlier ∧
      scope = change earlier) ∨ environment.scopes[other]? = some scope := by
  rw [Array.getElem?_modify] at there
  split at there
  · next same =>
    subst same
    obtain ⟨earlier, standing, rfl⟩ := Option.map_eq_some_iff.mp there
    exact .inl ⟨earlier, rfl, standing, rfl⟩
  · exact .inr there

end Blockscript.Environment
