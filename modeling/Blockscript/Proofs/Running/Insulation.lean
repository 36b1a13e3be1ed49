import Blockscript.Proofs.Running.Discipline
import Blockscript.Proofs.Scopes.Lifting

/-!
# Insulation from surroundings

The body of a function continues in the scope where the function was defined, and so does
every function that is found from there. So whatever stands above that scope when the
function is called, the call runs as if it were not there, and leaves it as it is.

A state is taken apart into what can be seen and the surroundings that cannot. To run
something in surroundings is to run it without them and to put them in afterwards.
-/

namespace Blockscript.Running

open Environment (Gains)

variable {ν : Notes} {α β : Type} {floor : Nat}

/-- What a call does not see: scopes above a floor, and what was printed and traced before. -/
structure Surroundings (ν : Notes) where
  between : List (Scope Value (Body ν))
  output : String
  trace : Array Message

/-- The state in surroundings that stand at a floor. -/
def Machine.within (floor : Nat) (surroundings : Surroundings ν) (machine : Machine ν) :
    Machine ν where
  environment := machine.environment.putIn floor surroundings.between
  store := machine.store
  output := surroundings.output ++ machine.output
  detail := machine.detail
  trace := surroundings.trace ++ machine.trace

/-- Every parent stands below, and the scope that a function continues in is as allowed for
the scope that holds it. -/
structure Linked (allowed : Nat → Nat → Prop) (environment : Environment Value (Body ν)) :
    Prop where
  ordered : environment.Ordered
  holders : ∀ (place : Nat) (scope : Scope Value (Body ν)) (routine : Routine (Body ν))
    (definition : FunctionDef ν) (holder : Nat), environment.scopes[place]? = some scope →
      routine ∈ scope.functions → routine.implementation = some (.script definition holder) →
      allowed place holder

/-- Gaining variables does not change how scopes are linked. -/
theorem Linked.gains {allowed : Nat → Nat → Prop} {before after : Environment Value (Body ν)}
    {gained : List (Variable Unit)} (linked : Linked allowed before)
    (gains : Gains gained before after) : Linked allowed after := by
  have earlier (place : Nat) (next : Scope Value (Body ν))
      (there : after.scopes[place]? = some next) :
      ∃ scope, before.scopes[place]? = some scope ∧ next.parent = scope.parent ∧
        next.functions = scope.functions := by
    have inside : place < before.scopes.size := by
      rw [← gains.size]
      exact (Array.getElem?_eq_some_iff.mp there).1
    obtain ⟨other, otherThere, parent, functions, _⟩ :=
      gains.scope place before.scopes[place] (Array.getElem?_eq_getElem inside)
    obtain rfl := Option.some.inj (there.symm.trans otherThere)
    exact ⟨_, Array.getElem?_eq_getElem inside, parent, functions⟩
  constructor
  · intro place next parent there continued
    obtain ⟨scope, scopeThere, same, _⟩ := earlier place next there
    exact linked.ordered place scope parent scopeThere (same ▸ continued)
  · intro place next routine definition holder there member implemented
    obtain ⟨scope, scopeThere, _, same⟩ := earlier place next there
    exact linked.holders place scope routine definition holder scopeThere (same ▸ member)
      implemented

/-- A scope that is opened on top continues in one of the others. -/
theorem Linked.opened {allowed : Nat → Nat → Prop} {environment : Environment Value (Body ν)}
    (linked : Linked allowed environment) (occupied : 0 < environment.scopes.size)
    (parent : Option Nat) (inside : ∀ place ∈ parent, place < environment.scopes.size) :
    Linked allowed (environment.openScope parent) := by
  have earlier (place : Nat) (scope : Scope Value (Body ν))
      (there : (environment.openScope parent).scopes[place]? = some scope) :
      environment.scopes[place]? = some scope ∨ place = environment.scopes.size ∧
        scope = { parent := some (parent.getD environment.current) } := by
    rw [Environment.openScope, Array.getElem?_push] at there
    split at there
    · next last => exact .inr ⟨last, (Option.some.inj there).symm⟩
    · exact .inl there
  constructor
  · intro place scope other there continued
    rcases earlier place scope there with below | ⟨rfl, rfl⟩
    · exact linked.ordered place scope other below continued
    · obtain rfl := Option.some.inj continued
      cases parent with
      | none =>
        simp only [Option.getD_none, Environment.current]
        omega
      | some parent => exact inside parent rfl
  · intro place scope routine definition holder there member implemented
    rcases earlier place scope there with below | ⟨rfl, rfl⟩
    · exact linked.holders place scope routine definition holder below member implemented
    · cases member

/-- A function that is found is found in a scope that is allowed to hold it. -/
theorem Linked.search {allowed : Nat → Nat → Prop} {environment : Environment Value (Body ν)}
    (linked : Linked allowed environment) {name : String} {arity start place : Nat}
    {routine : Routine (Body ν)}
    (found : environment.search (·.findFunction name arity) start = some (place, routine))
    (definition : FunctionDef ν) (holder : Nat)
    (implemented : routine.implementation = some (.script definition holder)) :
    allowed place holder := by
  obtain ⟨scope, there, here⟩ := Environment.search_found found
  exact linked.holders place scope routine definition holder there
    (List.mem_of_find?_eq_some here) implemented

/-- The scopes reach up to the floor at least, and every function continues in a scope
below the floor. -/
structure Stands (floor : Nat) (environment : Environment Value (Body ν)) : Prop where
  occupied : floor ≤ environment.scopes.size
  linked : Linked (fun _ holder => holder < floor) environment

/-- The floor stands when variables are gained. -/
theorem Stands.gains {before after : Environment Value (Body ν)}
    {gained : List (Variable Unit)} (stands : Stands floor before)
    (gains : Gains gained before after) : Stands floor after :=
  ⟨gains.size ▸ stands.occupied, stands.linked.gains gains⟩

/-- The floor stands when a scope is opened that continues in an open one. -/
theorem Stands.opened {environment : Environment Value (Body ν)} (stands : Stands floor environment)
    (occupied : 0 < environment.scopes.size) (parent : Option Nat)
    (inside : ∀ place ∈ parent, place < environment.scopes.size) :
    Stands floor (environment.openScope parent) := by
  refine ⟨?_, stands.linked.opened occupied parent inside⟩
  have reached := stands.occupied
  simp only [Environment.openScope, Array.size_push]
  omega

/-- A function that a name means continues below the floor. -/
theorem Stands.continues {environment : Environment Value (Body ν)}
    (stands : Stands floor environment) {name : String} {arity : Nat}
    {routine : Routine (Body ν)} (found : environment.lookupFunction name arity = .ok routine)
    {definition : FunctionDef ν} {holder : Nat}
    (implemented : routine.implementation = some (.script definition holder)) :
    holder < floor := by
  obtain ⟨place, searched⟩ := Environment.lookupFunction_ok_iff.mp found
  exact stands.linked.search searched definition holder implemented

/-- From a state on the action runs in surroundings as without them. -/
def Alike (floor : Nat) (surroundings : Surroundings ν) (action : Run ν β)
    (machine : Machine ν) : Prop :=
  action.run (machine.within floor surroundings) =
    ((action.run machine).1, (action.run machine).2.within floor surroundings)

/-- From a state on the action changes the scopes by variables that the current one gains. -/
def Stays (action : Run ν β) (machine : Machine ν) : Prop :=
  ∃ gained, Gains gained machine.environment (action.run machine).2.environment

/-- An action that does not see surroundings, in any state that reaches above the floor. -/
def Unseen (floor : Nat) (surroundings : Surroundings ν) (action : Run ν β) : Prop :=
  ∀ machine : Machine ν, Stands floor machine.environment →
    floor < machine.environment.scopes.size →
    Alike floor surroundings action machine ∧ Stays action machine

variable {surroundings : Surroundings ν} {machine : Machine ν}

/-- Two actions in order run in surroundings as without them when each of them does. -/
theorem Alike.bind {action : Run ν α} {next : α → Run ν β}
    (first : Alike floor surroundings action machine)
    (rest : ∀ value middle, action.run machine = (.ok value, middle) →
      Alike floor surroundings (next value) middle) :
    Alike floor surroundings (action >>= next) machine := by
  unfold Alike at first ⊢
  rw [run_bind, run_bind, first]
  cases ending : action.run machine with
  | mk result middle =>
    cases result with
    | ok value => exact rest value middle ending
    | error stop => rfl

/-- Two actions in order change scopes by variables when each of them does. -/
theorem Stays.bind {action : Run ν α} {next : α → Run ν β} (first : Stays action machine)
    (rest : ∀ value middle, action.run machine = (.ok value, middle) →
      Stays (next value) middle) :
    Stays (action >>= next) machine := by
  obtain ⟨gained, gains⟩ := first
  unfold Stays
  rw [run_bind]
  cases ending : action.run machine with
  | mk result middle =>
    rw [ending] at gains
    cases result with
    | ok value =>
      obtain ⟨more, further⟩ := rest value middle ending
      exact ⟨gained ++ more, gains.trans further⟩
    | error stop => exact ⟨gained, gains⟩

/-- Two actions in order do not see surroundings when neither of them does. -/
theorem Unseen.bind {action : Run ν α} {next : α → Run ν β}
    (first : Unseen floor surroundings action)
    (rest : ∀ value, Unseen floor surroundings (next value)) :
    Unseen floor surroundings (action >>= next) := by
  intro machine stands above
  obtain ⟨alike, gained, gains⟩ := first machine stands above
  have further (value : α) (middle : Machine ν)
      (ending : action.run machine = (.ok value, middle)) :
      Alike floor surroundings (next value) middle ∧ Stays (next value) middle := by
    rw [ending] at gains
    exact rest value middle (stands.gains gains) (gains.size ▸ above)
  exact ⟨alike.bind fun value middle ending => (further value middle ending).1,
    Stays.bind ⟨gained, gains⟩ fun value middle ending => (further value middle ending).2⟩

/-- A confined action changes scopes by variables. -/
theorem Confined.stays {allowed : List (Variable Unit) → Prop} {action : Run ν β}
    (confined : Confined allowed action) (occupied : 0 < machine.environment.scopes.size) :
    Stays action machine := by
  have meets := confined machine occupied
  unfold Meets at meets
  unfold Stays
  cases ending : action.run machine with
  | mk result after =>
    rw [ending] at meets
    cases result with
    | ok value =>
      obtain ⟨gained, _, gains⟩ := meets
      exact ⟨gained, gains⟩
    | error stop =>
      obtain ⟨_, gained, _, gains⟩ := meets
      exact ⟨gained, gains⟩

/-- A step that is known to be confined has only to run alike. -/
theorem Confined.unseen {allowed : List (Variable Unit) → Prop} {action : Run ν β}
    (confined : Confined allowed action)
    (alike : ∀ machine : Machine ν, Stands floor machine.environment →
      floor < machine.environment.scopes.size → Alike floor surroundings action machine) :
    Unseen floor surroundings action :=
  fun machine stands above => ⟨alike machine stands above, confined.stays (by omega)⟩

/-- Names mean the same variables. -/
theorem lookupVariable_putIn {environment : Environment Value (Body ν)}
    {between : List (Scope Value (Body ν))} (stands : Stands floor environment)
    (above : floor < environment.scopes.size) (name : String) :
    (environment.putIn floor between).lookupVariable name =
      (environment.lookupVariable name).map
        fun found => (lifted floor between.length found.1, found.2) := by
  unfold Environment.lookupVariable
  rw [Environment.current_putIn above,
    Environment.search_putIn stands.linked.ordered stands.occupied _ fun _ => rfl]
  cases environment.search (·.findVariable name) environment.current with
  | none => rfl
  | some found => rfl

/-- Names mean the same functions. -/
theorem lookupFunction_putIn {environment : Environment Value (Body ν)}
    {between : List (Scope Value (Body ν))} (stands : Stands floor environment)
    (above : floor < environment.scopes.size) (name : String) (arity : Nat) :
    (environment.putIn floor between).lookupFunction name arity =
      environment.lookupFunction name arity := by
  unfold Environment.lookupFunction
  rw [Environment.current_putIn above,
    Environment.search_putIn stands.linked.ordered stands.occupied _ fun _ => rfl]
  cases environment.search (·.findFunction name arity) environment.current with
  | none => rfl
  | some found => rfl

/-- A variable is defined alike, in the scope above the others. -/
theorem defineVariable_putIn {environment : Environment Value (Body ν)}
    {between : List (Scope Value (Body ν))} (stands : Stands floor environment)
    (above : floor < environment.scopes.size) (entry : Variable Value) :
    (environment.putIn floor between).defineVariable entry =
      (environment.defineVariable entry).map (Environment.putIn floor between) := by
  have innermost : (environment.putIn floor between).currentScope.findVariable entry.name =
      environment.currentScope.findVariable entry.name := by
    rw [Environment.currentScope, Environment.currentScope, Environment.current_putIn above,
      Environment.getElem?_lifted stands.linked.ordered stands.occupied]
    cases environment.scopes[environment.current]? with
    | none => rfl
    | some scope => rfl
  unfold Environment.defineVariable
  rw [innermost]
  split
  · rfl
  · rw [Environment.modifyCurrent, Environment.current_putIn above,
      Environment.modify_putIn stands.occupied]
    · rfl
    · exact fun scope => rfl

/-- A variable that is found is assigned to alike. -/
theorem setVariable_putIn {environment : Environment Value (Body ν)}
    {between : List (Scope Value (Body ν))} (stands : Stands floor environment)
    (above : floor < environment.scopes.size) (name : String) (value : Value) :
    (environment.putIn floor between).setVariable name value =
      (environment.setVariable name value).map (Environment.putIn floor between) := by
  unfold Environment.setVariable
  rw [lookupVariable_putIn stands above]
  cases environment.lookupVariable name with
  | error fault => rfl
  | ok found =>
    simp only [Except.map]
    rw [Environment.modify_putIn stands.occupied]
    exact fun scope => rfl

/-- A scope is opened alike, if it continues below the floor or in a scope above. -/
theorem openScope_putIn {environment : Environment Value (Body ν)}
    {between : List (Scope Value (Body ν))} (occupied : floor ≤ environment.scopes.size)
    {parent : Option Nat} (below : ∀ place ∈ parent, place < floor)
    (above : parent = none → floor < environment.scopes.size) :
    (environment.putIn floor between).openScope parent =
      (environment.openScope parent).putIn floor between := by
  unfold Environment.openScope
  rw [← Environment.push_putIn occupied]
  cases parent with
  | none => rw [Environment.current_putIn (above rfl)]; rfl
  | some place =>
    have same : lifted floor between.length place = place := lifted_of_lt (below place rfl)
    simp only [Scope.lifted, Option.getD_some, Option.map_some, same]

/-- The innermost scope is closed alike, if it stands above the floor. -/
theorem closeScope_putIn {environment : Environment Value (Body ν)}
    {between : List (Scope Value (Body ν))} (above : floor < environment.scopes.size)
    (inner : 0 < environment.current) :
    (environment.putIn floor between).closeScope
        (lifted floor between.length environment.current) =
      (environment.closeScope environment.current).map (Environment.putIn floor between) := by
  have moved : 0 < (environment.putIn floor between).current := by
    rw [Environment.current_putIn above]
    unfold lifted
    split
    · exact inner
    · omega
  rw [← Environment.current_putIn above, Environment.closeScope_current moved,
    Environment.closeScope_current inner]
  exact congrArg Except.ok (Environment.pop_putIn above)

/-- To look a variable up does not see surroundings, for the search passes below the floor. -/
theorem unseen_variableOf (name : String) :
    Unseen floor surroundings (variableOf name : Run ν (Variable Value)) := by
  refine (discipline.read name).unseen fun machine stands above => ?_
  unfold Alike variableOf
  rw [run_bind, run_bind, run_lookup, run_lookup]
  simp only [Machine.within]
  rw [lookupVariable_putIn stands above]
  cases machine.environment.lookupVariable name with
  | ok found => rfl
  | error fault => rfl

/-- A change of the scopes runs in surroundings as without them when it can be made there. -/
theorem alike_change {machine : Machine ν}
    {step : Environment Value (Body ν) → Except ScopeFault (Environment Value (Body ν))}
    (alike : step (machine.environment.putIn floor surroundings.between) =
      (step machine.environment).map (Environment.putIn floor surroundings.between)) :
    Alike floor surroundings (Run.change step) machine := by
  unfold Alike
  rw [run_change, run_change]
  simp only [Machine.within]
  rw [alike]
  cases step machine.environment with
  | ok environment => rfl
  | error fault => rfl

/-- An assignment does not see surroundings. -/
theorem unseen_assignVariable (name : String) (value : Value) :
    Unseen floor surroundings (assignVariable name value : Run ν Unit) := by
  have chosen : Unseen floor surroundings (mutableOf name : Run ν (Variable Value)) := by
    refine .bind (unseen_variableOf name) fun entry => ?_
    split
    · exact (discipline.give entry).unseen fun _ _ _ => rfl
    · exact (discipline.halt (.fault (.immutable name)) trivial).unseen fun _ _ _ => rfl
  unfold assignVariable
  rw [discard_eq]
  refine .bind (.bind chosen fun _ => (discipline.give _).unseen fun _ _ _ => rfl) fun _ => ?_
  exact (confined_setVariable name value).unseen fun machine stands above =>
    alike_change (setVariable_putIn stands above name value)

/-- What is printed follows what was printed before. -/
theorem alike_print (text : String) (machine : Machine ν) :
    Alike floor surroundings (Run.print text) machine := by
  have printed (machine : Machine ν) : (Run.print text).run machine =
      (.ok (), { machine with output := machine.output ++ text ++ "\n" }) := rfl
  unfold Alike
  rw [printed, printed]
  simp only [Machine.within, String.append_assoc]

/-- What is traced follows what was traced before. -/
theorem alike_trace (detail : Nat) (message : Store → Option Message) (machine : Machine ν) :
    Alike floor surroundings (Run.trace detail message) machine := by
  unfold Alike
  rw [run_trace, run_trace]
  by_cases told : detail ≤ machine.detail
  · rw [if_pos told, if_pos (show detail ≤ (machine.within floor surroundings).detail from told)]
    simp only [Machine.within]
    cases message machine.store with
    | none => rfl
    | some message => simp only [Array.push_append]
  · rw [if_neg told, if_neg (show ¬detail ≤ (machine.within floor surroundings).detail from told)]

/-- Whatever is done with a function that continues below the floor is done with the
function that a name means. -/
theorem Unseen.call {name : String} {arity : Nat} {next : Routine (Body ν) → Run ν β}
    (rest : ∀ routine : Routine (Body ν), (∀ definition holder,
      routine.implementation = some (.script definition holder) → holder < floor) →
        Unseen floor surroundings (next routine)) :
    Unseen floor surroundings (Run.lookup (·.lookupFunction name arity) >>= next) := by
  intro machine stands above
  unfold Alike Stays
  rw [run_bind, run_bind, run_lookup, run_lookup]
  simp only [Machine.within]
  rw [lookupFunction_putIn stands above]
  cases found : machine.environment.lookupFunction name arity with
  | ok routine =>
    exact rest routine (fun definition holder => stands.continues found) machine stands above
  | error fault => exact ⟨rfl, [], .refl _⟩

/-- A scope of its own is closed on top of the scopes that were there before. -/
theorem Stays.inScope {body : Run ν β} {parent : Option Nat}
    (occupied : 0 < machine.environment.scopes.size)
    (stays : Stays body
      { machine with environment := machine.environment.openScope parent }) :
    Stays (Run.inScope parent body) machine := by
  obtain ⟨gained, gains⟩ := stays
  obtain ⟨environment, closed, kept⟩ := gains.close occupied
  refine ⟨[], ?_⟩
  simp only [Run.inScope, ExceptT.run_mk]
  simp only [ExceptT.run] at closed
  cases ending : body { machine with environment := machine.environment.openScope parent } with
  | mk result after =>
    rw [ending] at closed
    simp only [closed]
    exact kept

/-- A scope of its own is opened and closed alike, and what is done in it is done alike. -/
theorem Unseen.inScope {body : Run ν β} (unseen : Unseen floor surroundings body)
    {parent : Option Nat} (stands : Stands floor machine.environment)
    (occupied : 0 < machine.environment.scopes.size) (below : ∀ place ∈ parent, place < floor)
    (above : parent = none → floor < machine.environment.scopes.size) :
    Alike floor surroundings (Run.inScope parent body) machine ∧
      Stays (Run.inScope parent body) machine := by
  have reached := stands.occupied
  have inside : Stands floor (machine.environment.openScope parent) := by
    refine stands.opened occupied parent fun place member => ?_
    have lower := below place member
    omega
  have larger : floor < (machine.environment.openScope parent).scopes.size := by
    simp only [Environment.openScope, Array.size_push]
    omega
  have opened : ({ machine.within floor surroundings with
      environment := (machine.within floor surroundings).environment.openScope parent } :
      Machine ν) = ({ machine with environment := machine.environment.openScope parent } :
        Machine ν).within floor surroundings := by
    simp only [Machine.within, openScope_putIn reached below above]
  obtain ⟨alike, stays⟩ := unseen
    { machine with environment := machine.environment.openScope parent } inside larger
  refine ⟨?_, stays.inScope occupied⟩
  obtain ⟨gained, gains⟩ := stays
  unfold Alike at alike ⊢
  simp only [Run.inScope, ExceptT.run_mk]
  rw [opened]
  simp only [ExceptT.run] at alike gains
  rw [alike]
  cases ending : body { machine with environment := machine.environment.openScope parent } with
  | mk result after =>
    rw [ending] at gains
    simp only at gains ⊢
    have higher : floor < after.environment.scopes.size := gains.size ▸ larger
    have inner : 0 < after.environment.current := by
      rw [gains.current]
      simpa [Environment.openScope, Environment.current] using occupied
    have innermost : ((machine.within floor surroundings).environment.openScope parent).current =
        lifted floor surroundings.between.length after.environment.current := by
      rw [gains.current, ← Environment.current_putIn larger]
      exact congrArg Environment.current (openScope_putIn reached below above)
    have closed : (after.within floor surroundings).environment.closeScope
        ((machine.within floor surroundings).environment.openScope parent).current =
          (after.environment.closeScope after.environment.current).map
            (Environment.putIn floor surroundings.between) :=
      innermost ▸ closeScope_putIn higher inner
    rw [closed, ← gains.current, Environment.closeScope_current inner]
    rfl

/-- What runs in surroundings as without them: everything that a run does, as long as it
stays above the floor and calls functions that continue below it. -/
def insulation (floor : Nat) (surroundings : Surroundings ν) : Law ν where
  keeps action := Unseen floor surroundings action
  defines action := Unseen floor surroundings action
  known routine := ∀ definition holder,
    routine.implementation = some (.script definition holder) → holder < floor
  give value := (discipline.give value).unseen fun _ _ _ => rfl
  halt stop orderly := (discipline.halt stop orderly).unseen fun _ _ _ => rfl
  andThen first rest := .bind first rest
  read name := unseen_variableOf name
  assign name value := unseen_assignVariable name value
  call rest := .call rest
  store := discipline.store.unseen fun _ _ _ => rfl
  allocate elements := (discipline.allocate elements).unseen fun _ _ _ => rfl
  replace handle index value := (discipline.replace handle index value).unseen fun _ _ _ => rfl
  print text := (discipline.print text).unseen fun machine _ _ => alike_print text machine
  trace detail message _ _ :=
    (confined_trace detail message).unseen fun machine _ _ => alike_trace detail message machine
  block body _ stands above := body.inScope stands (by omega) (by simp) fun _ => above
  body known implemented body _ stands above :=
    body.inScope stands (by omega) (by simpa using known _ _ implemented) (by simp)
  allow action := action
  further first rest := .bind first rest
  define entry := (discipline.define entry).unseen fun _ stands above =>
    alike_change (defineVariable_putIn stands above entry)

end Blockscript.Running
