import Blockscript.Proofs.Running.Insulation
import Blockscript.Proofs.Scopes.Sound

/-!
# Constants

The immutable variables of a scope are its constants. Defining another variable leaves them
alone, and so does changing the value of a mutable one: names are distinct within a scope,
so the change of one variable is the change of no other. Closing a scope removes its
constants with it and leaves those of the other scopes as they are.

A part of a run only changes values behind the test that the variable is mutable, and it
only defines mutable variables. So whatever is evaluated, called or executed leaves the
constants of all open scopes as they were, however it ends.
-/

namespace Blockscript

variable {ν ι : Type}

/-! ## Constants of scopes -/

/-- The immutable variables of a scope, with their values. -/
def Scope.constants (scope : Scope ν ι) : List (Variable ν) :=
  scope.entries.filter fun entry => !entry.mutable

/-- To change the value of a mutable variable changes no constant. -/
theorem Scope.constants_setVariable {scope : Scope ν ι} {name : String} {value : ν}
    {entry : Variable ν} (distinct : scope.Distinct)
    (found : scope.findVariable name = some entry) (allowed : entry.mutable = true) :
    (scope.setVariable name value).constants = scope.constants := by
  have member : entry ∈ scope.entries := List.mem_of_find?_eq_some found
  have named : entry.name = name := by
    simpa using List.find?_some found
  unfold constants setVariable
  rw [List.filter_map]
  have mutability : ((fun entry : Variable ν => !entry.mutable) ∘ fun entry : Variable ν =>
      if entry.name = name then { entry with value := value } else entry) =
        fun entry => !entry.mutable := by
    funext other
    simp only [Function.comp_apply]
    split
    · rfl
    · rfl
  rw [mutability]
  -- A constant of that name would be the mutable variable itself.
  refine (List.map_congr_left fun constant inside => ?_).trans (List.map_id _)
  obtain ⟨there, fixed⟩ := List.mem_filter.mp inside
  rw [if_neg]
  · rfl
  · intro same
    obtain rfl := List.inj_on_of_nodup_map distinct.entries there member (same.trans named.symm)
    simp [allowed] at fixed

namespace Environment

variable {environment after : Environment ν ι}

/-- The constants of the open scopes, those of the root first. -/
def constants (environment : Environment ν ι) : List (List (Variable ν)) :=
  environment.scopes.toList.map Scope.constants

/-- There are constants of every open scope. -/
theorem length_constants : environment.constants.length = environment.scopes.size := by
  simp [constants]

/-- The constants at a place are those of the scope there. -/
theorem getElem?_constants (place : Nat) :
    environment.constants[place]? = environment.scopes[place]?.map Scope.constants := by
  simp [constants]

/-- A new scope has no constants. -/
theorem constants_openScope (parent : Option Nat) :
    (environment.openScope parent).constants = environment.constants ++ [[]] := by
  simp [constants, openScope, Scope.constants]

/-- Without the current scope, its constants are gone and no others. -/
theorem constants_pop :
    (⟨environment.scopes.pop⟩ : Environment ν ι).constants = environment.constants.dropLast := by
  simp [constants, List.map_dropLast]

/-- To add nothing to one of several lists changes none of them. -/
theorem modify_append_nil {α : Type} (lists : List (List α)) (place : Nat) :
    lists.modify place (· ++ []) = lists := by
  refine List.ext_getElem? fun other => ?_
  simp [List.getElem?_modify]

/-- A change of one scope that adds constants behind those that it has. -/
theorem constants_modify {place : Nat} {change : Scope ν ι → Scope ν ι}
    {more : List (Variable ν)}
    (gained : ∀ scope, environment.scopes[place]? = some scope →
      (change scope).constants = scope.constants ++ more) :
    (⟨environment.scopes.modify place change⟩ : Environment ν ι).constants =
      environment.constants.modify place (· ++ more) := by
  refine List.ext_getElem? fun other => ?_
  rw [List.getElem?_modify, getElem?_constants, getElem?_constants, Array.getElem?_modify]
  by_cases same : place = other
  · subst same
    cases there : environment.scopes[place]? with
    | none => simp
    | some scope => simp [gained scope there]
  · simp [same]

/-- A change of one scope that keeps its constants keeps all of them. -/
theorem constants_modify_still {place : Nat} {change : Scope ν ι → Scope ν ι}
    (kept : ∀ scope, environment.scopes[place]? = some scope →
      (change scope).constants = scope.constants) :
    (⟨environment.scopes.modify place change⟩ : Environment ν ι).constants =
      environment.constants := by
  rw [@constants_modify _ _ _ _ _ [] fun scope there => by rw [kept scope there, List.append_nil],
    modify_append_nil]

/-- To define a variable adds it to the constants of the current scope if it is immutable. -/
theorem constants_defineVariable {entry : Variable ν}
    (defined : environment.defineVariable entry = .ok after) :
    after.constants =
      environment.constants.modify environment.current
        (· ++ if entry.mutable then [] else [entry]) := by
  obtain ⟨-, rfl⟩ := defineVariable_ok_iff.mp defined
  refine constants_modify fun scope _ => ?_
  rw [Scope.constants, Scope.constants, List.filter_append]
  cases allowed : entry.mutable with
  | true => simp [allowed]
  | false => simp [allowed]

/-- A value is put behind the variable that is found, which is mutable. -/
theorem constants_setVariable {name : String} {value : ν} {place : Nat} {entry : Variable ν}
    (distinct : environment.Distinct)
    (found : environment.lookupVariable name = .ok (place, entry))
    (allowed : entry.mutable = true)
    (assigned : environment.setVariable name value = .ok after) :
    after.constants = environment.constants := by
  obtain ⟨_, _, again, rfl⟩ := setVariable_ok_iff.mp assigned
  cases found.symm.trans again
  refine constants_modify_still fun scope there => ?_
  obtain ⟨_, thereToo, here⟩ := search_found (lookupVariable_ok_iff.mp found)
  cases there.symm.trans thereToo
  exact Scope.constants_setVariable (distinct place scope there) here allowed

/-- A constant that a name means stands in the constants of the scope that it is found in. -/
theorem mem_constants {name : String} {place : Nat} {entry : Variable ν}
    (found : environment.lookupVariable name = .ok (place, entry))
    (fixed : entry.mutable = false) :
    ∃ scope, environment.scopes[place]? = some scope ∧ scope.findVariable name = some entry ∧
      entry ∈ scope.constants := by
  obtain ⟨scope, there, here⟩ := search_found (lookupVariable_ok_iff.mp found)
  refine ⟨scope, there, here, List.mem_filter.mpr ⟨List.mem_of_find?_eq_some here, ?_⟩⟩
  simp [fixed]

/-- To define a function keeps all constants. -/
theorem constants_defineFunction {routine : Routine ι}
    (defined : environment.defineFunction routine = .ok after) :
    after.constants = environment.constants := by
  obtain ⟨-, rfl⟩ := defineFunction_ok_iff.mp defined
  exact constants_modify_still fun scope _ => rfl

end Environment

namespace Running

variable {ν : Notes} {α β : Type} {budget : Nat}
  {seen : List (List (Variable Value)) → List (List (Variable Value))}

/-! ## Parts of runs -/

/-- The names of each scope are distinct, as many scopes are open as before, and what is
seen of their constants is the same as before. -/
structure Lasts (seen : List (List (Variable Value)) → List (List (Variable Value)))
    (before after : Environment Value (Body ν)) : Prop where
  distinct : after.Distinct
  size : after.scopes.size = before.scopes.size
  constants : seen after.constants = seen before.constants

/-- What has lasted twice in order has lasted. -/
theorem Lasts.trans {before middle after : Environment Value (Body ν)}
    (first : Lasts seen before middle) (second : Lasts seen middle after) :
    Lasts seen before after :=
  ⟨second.distinct, second.size.trans first.size, second.constants.trans first.constants⟩

/-- However the action ends, what is seen of the constants has lasted. -/
def Lasting (seen : List (List (Variable Value)) → List (List (Variable Value)))
    (action : Run ν β) : Prop :=
  ∀ machine : Machine ν, 0 < machine.environment.scopes.size → machine.environment.Distinct →
    Meets action machine
      (fun _ after => Lasts seen machine.environment after.environment)
      (fun _ after => Lasts seen machine.environment after.environment)

/-- Two actions in order last when each of them does. -/
theorem Lasting.bind {action : Run ν α} {next : α → Run ν β} (first : Lasting seen action)
    (rest : ∀ value, Lasting seen (next value)) : Lasting seen (action >>= next) := by
  intro machine occupied distinct
  rw [meets_bind]
  refine (first machine occupied distinct).imp ?_ fun _ _ stopped => stopped
  intro value middle lasts
  refine (rest value middle (lasts.size ▸ occupied) lasts.distinct).imp ?_ ?_
  · exact fun _ _ further => lasts.trans further
  · exact fun _ _ further => lasts.trans further

/-- What leaves all constants as they are leaves those that are seen. -/
theorem Lasting.mono {action : Run ν β} (lasting : Lasting id action) : Lasting seen action := by
  intro machine occupied distinct
  refine (lasting machine occupied distinct).imp ?_ ?_
  · exact fun _ _ lasts => ⟨lasts.distinct, lasts.size, congrArg seen lasts.constants⟩
  · exact fun _ _ lasts => ⟨lasts.distinct, lasts.size, congrArg seen lasts.constants⟩

/-- An action that leaves the scopes alone leaves their constants. -/
theorem lasting_still {action : Run ν β}
    (still : ∀ machine : Machine ν, Meets action machine
      (fun _ after => after.environment = machine.environment)
      (fun _ after => after.environment = machine.environment)) :
    Lasting seen action := by
  intro machine _ distinct
  have stays (after : Machine ν) (same : after.environment = machine.environment) :
      Lasts seen machine.environment after.environment :=
    ⟨same ▸ distinct, by rw [same], by rw [same]⟩
  exact (still machine).imp (fun _ => stays) fun _ => stays

/-- A change of the scopes lasts when its result does. -/
theorem lasting_change
    {step : Environment Value (Body ν) → Except ScopeFault (Environment Value (Body ν))}
    (lasts : ∀ before after, 0 < before.scopes.size → before.Distinct →
      step before = .ok after → Lasts seen before after) :
    Lasting seen (Run.change step) := by
  intro machine occupied distinct
  rw [meets_change]
  exact ⟨fun environment changed => lasts _ _ occupied distinct changed,
    fun _ _ => ⟨distinct, rfl, rfl⟩⟩

/-- To look a variable up leaves the constants. -/
theorem lasting_variableOf (name : String) :
    Lasting seen (variableOf name : Run ν (Variable Value)) := by
  refine lasting_still fun machine => ?_
  simp only [variableOf, meets_bind, meets_lookup, meets_pure, implies_true, and_self]

/-- A value is only changed behind the test that the variable is mutable. -/
theorem lasting_assignVariable (name : String) (value : Value) :
    Lasting id (assignVariable name value : Run ν Unit) := by
  intro machine _ distinct
  have stays : Lasts id machine.environment machine.environment := ⟨distinct, rfl, rfl⟩
  simp only [assignVariable, mutableOf, variableOf, meets_bind, meets_discard, meets_lookup,
    meets_pure, Prod.forall]
  refine ⟨fun place entry found => ?_, fun _ _ => stays⟩
  split
  · next allowed =>
    rw [meets_pure, meets_change]
    refine ⟨fun environment assigned => ?_, fun _ _ => stays⟩
    exact ⟨distinct.setVariable assigned, (Environment.gains_setVariable assigned).size,
      Environment.constants_setVariable distinct found allowed assigned⟩
  · exact stays

/-- A definition changes the constants of the current scope and no others. -/
theorem lasting_define (entry : Variable Value) :
    Lasting List.dropLast (Run.change (·.defineVariable entry) : Run ν Unit) := by
  refine lasting_change fun before after occupied distinct defined => ?_
  refine ⟨distinct.defineVariable defined, (Environment.gains_defineVariable defined).size, ?_⟩
  rw [Environment.constants_defineVariable defined, Environment.current,
    ← Environment.length_constants]
  refine List.ext_getElem? fun place => ?_
  simp only [List.dropLast_eq_take, List.length_modify, List.getElem?_take]
  split
  · next lower => simp [Nat.ne_of_gt lower]
  · rfl

/-- To define a mutable variable leaves all constants as they are. -/
theorem lasting_define_mutable (entry : Variable Value) (allowed : entry.mutable = true) :
    Lasting id (Run.change (·.defineVariable entry) : Run ν Unit) := by
  refine lasting_change fun before after occupied distinct defined => ?_
  refine ⟨distinct.defineVariable defined, (Environment.gains_defineVariable defined).size, ?_⟩
  rw [Environment.constants_defineVariable defined, if_pos allowed, Environment.modify_append_nil]

/-- A scope takes its constants with it when it is closed. -/
theorem Lasting.inScope {body : Run ν β} (parent : Option Nat)
    (lasting : Lasting List.dropLast body) : Lasting id (Run.inScope parent body) := by
  intro machine occupied distinct
  have opened : (machine.environment.openScope parent).scopes.size =
      machine.environment.scopes.size + 1 := by
    simp [Environment.openScope]
  have leaves (after : Machine ν)
      (lasts : Lasts List.dropLast (machine.environment.openScope parent) after.environment) :
      ∃ environment, after.environment.closeScope
          (machine.environment.openScope parent).current = .ok environment ∧
        Lasts id machine.environment environment := by
    have innermost : (machine.environment.openScope parent).current =
        after.environment.current := by
      rw [Environment.current, Environment.current, lasts.size]
    have inner : 0 < after.environment.current := by
      rw [← innermost, Environment.current, opened]
      exact occupied
    have kept := lasts.constants
    rw [Environment.constants_openScope, List.dropLast_concat] at kept
    refine ⟨_, innermost ▸ Environment.closeScope_current inner, lasts.distinct.pop, ?_, ?_⟩
    · rw [Array.size_pop, lasts.size, opened, Nat.add_sub_cancel]
    · rw [Environment.constants_pop]
      exact kept
  have inside := lasting { machine with environment := machine.environment.openScope parent }
    (by rw [opened]; exact Nat.succ_pos _) (distinct.openScope parent)
  refine meets_inScope (inside.imp ?_ ?_)
  · exact fun _ => leaves
  · exact fun _ => leaves

/-- What leaves all constants as they are, and what leaves those of all scopes but the
current one. -/
def constancy : Law ν where
  keeps action := Lasting id action
  defines action := Lasting List.dropLast action
  known _ := True
  give _ := lasting_still fun _ => rfl
  halt _ _ := lasting_still fun _ => rfl
  andThen first rest := .bind first rest
  read := lasting_variableOf
  assign := lasting_assignVariable
  call rest := by
    refine .bind (lasting_still fun machine => ?_) fun routine => rest routine trivial
    simp only [meets_lookup, implies_true, and_self]
  store := lasting_still fun _ => rfl
  allocate _ := lasting_still fun _ => rfl
  replace _ _ _ := lasting_still fun _ => rfl
  print _ := lasting_still fun _ => rfl
  trace _ _ _ _ := lasting_still fun _ => meets_trace (fun _ same _ => same) rfl
  block lasting := Lasting.inScope none lasting
  body _ _ lasting := Lasting.inScope _ lasting
  allow := Lasting.mono
  further first rest := .bind first rest
  define := lasting_define

/-- The law of constancy holds of every part of a run. -/
theorem constancy_holds (budget : Nat) : (constancy : Law ν).Holds budget :=
  constancy.holds budget

/-! What a law says of blocks allows for any definition in the current scope. Declarations and
parameters only define mutable variables, so blocks add no constant there either. -/

/-- Parameters are no constants. -/
theorem lasting_defineParameters (names : List String) (values : List Value) :
    Lasting id (defineParameters names values : Run ν Unit) := by
  induction names generalizing values with
  | nil => exact constancy.give ()
  | cons name names inductionHypothesis =>
    cases values with
    | nil => exact constancy.give ()
    | cons value values =>
      exact .bind (lasting_define_mutable _ rfl) fun _ => inductionHypothesis values

/-- A statement leaves all constants, those of the current scope as well. -/
theorem lasting_execute (statement : Stmt ν) : Lasting id (execute budget statement) := by
  cases statement with
  | declaration entry name typeName value =>
    cases budget with
    | zero => exact constancy.exhausted
    | succ budget =>
      refine .bind ((constancy_holds budget).evaluateOptional value) fun value => ?_
      refine .bind (lasting_define_mutable _ rfl) fun _ => ?_
      exact constancy.andThen (constancy.told (by decide) fun _ => rfl) fun _ => constancy.give _
  | _ => exact (constancy_holds budget).statement _ rfl

/-- Statements leave all constants, those of the current scope as well. -/
theorem lasting_executeBlock (statements : List (Stmt ν)) :
    Lasting id (executeBlock budget statements) := by
  induction budget generalizing statements with
  | zero => exact constancy.exhausted
  | succ budget inductionHypothesis =>
    cases statements with
    | nil => exact constancy.give _
    | cons first rest =>
      refine .bind (lasting_execute first) fun outcome => ?_
      cases outcome with
      | completed => exact inductionHypothesis rest
      | returning value => exact constancy.give _

/-- Cases leave all constants, those of the current scope as well. -/
theorem lasting_executeCases (subject : Value) (cases : List (Case ν)) :
    Lasting id (executeCases budget subject cases) := by
  induction budget generalizing cases with
  | zero => exact constancy.exhausted
  | succ budget inductionHypothesis =>
    have chosen (isDefault : Bool) (body : List (Stmt ν)) : Lasting id (do
        Run.trace 3 fun store => (subject.text? store).map (.choice · isDefault)
        executeBlock budget body) := by
      exact .bind (constancy.told (by decide) fun _ => rfl) fun _ => lasting_executeBlock body
    rcases cases with _ | ⟨⟨_ | label, body⟩, rest⟩
    · exact constancy.give _
    · exact chosen true body
    · refine .bind ((constancy_holds budget).evaluate label) fun label => ?_
      refine .bind constancy.store fun store => ?_
      split
      · exact chosen false body
      · exact inductionHypothesis rest

end Running

end Blockscript
