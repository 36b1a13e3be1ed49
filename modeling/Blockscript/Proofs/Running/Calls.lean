import Blockscript.Proofs.Running.Insulation

/-!
# Calls and their callers

A call does not see its caller. Two states that agree on the scopes up to the one where a
function was defined, on the lists and on the detail of the trace are the same state in
different surroundings. So a call of the function ends alike in both, prints and traces the
same, and changes what they agree on in the same way; what they do not agree on it leaves
alone.

States are reached by opening scopes that continue in open ones, closing the innermost one,
defining and assigning. Every run stays among them. In each of them a function that is
found continues in the very scope that holds it.
-/

namespace Blockscript.Running

open Environment (Gains)

variable {ν : Notes} {β : Type} {floor place budget : Nat} {machine after first second : Machine ν}

/-! ## Reachable states -/

/-- The states that are reached from the start, step by step. Lists, output and trace do
not matter to what scopes are reached. -/
inductive Machine.Reachable : Machine ν → Prop where
  | initial (detail : Nat) : Reachable (Machine.initial detail)
  | openScope {machine : Machine ν} (reachable : Reachable machine) (parent : Nat)
      (inside : parent < machine.environment.scopes.size) :
      Reachable { machine with environment := machine.environment.openScope (some parent) }
  | closeScope {machine : Machine ν} (reachable : Reachable machine) (index : Nat)
      (environment : Environment Value (Body ν))
      (closed : machine.environment.closeScope index = .ok environment) :
      Reachable { machine with environment := environment }
  | defineVariable {machine : Machine ν} (reachable : Reachable machine)
      (entry : Variable Value) (environment : Environment Value (Body ν))
      (defined : machine.environment.defineVariable entry = .ok environment) :
      Reachable { machine with environment := environment }
  | setVariable {machine : Machine ν} (reachable : Reachable machine) (name : String)
      (value : Value) (environment : Environment Value (Body ν))
      (assigned : machine.environment.setVariable name value = .ok environment) :
      Reachable { machine with environment := environment }
  | defineFunction {machine after : Machine ν} (reachable : Reachable machine)
      (definition : FunctionDef ν)
      (defined : (Running.defineFunction definition).run machine = (.ok (), after)) :
      Reachable after
  | elsewhere {machine after : Machine ν} (reachable : Reachable machine)
      (same : after.environment = machine.environment) : Reachable after

/-- A scope is open, and every function continues in the scope that holds it. -/
structure Anchored (environment : Environment Value (Body ν)) : Prop where
  occupied : 0 < environment.scopes.size
  linked : Linked (fun place holder => holder = place) environment

/-- Functions continue where they did when variables are gained. -/
theorem Anchored.gains {before after : Environment Value (Body ν)}
    {gained : List (Variable Unit)} (anchored : Anchored before)
    (gains : Gains gained before after) : Anchored after :=
  ⟨gains.size ▸ anchored.occupied, anchored.linked.gains gains⟩

/-- Functions continue where they did when a scope is closed. -/
theorem Anchored.closed {environment after : Environment Value (Body ν)} {index : Nat}
    (anchored : Anchored environment) (closed : environment.closeScope index = .ok after) :
    Anchored after := by
  obtain ⟨⟨last, inner⟩, rfl⟩ := Environment.closeScope_ok_iff.mp closed
  have above : 0 < environment.scopes.size - 1 := by
    omega
  refine ⟨by simpa using above, fun place scope parent there => ?_,
    fun place scope routine definition holder there => ?_⟩
  · exact anchored.linked.ordered place scope parent (Environment.pop_stands there)
  · exact anchored.linked.holders place scope routine definition holder
      (Environment.pop_stands there)

/-- A function is defined in the current scope, and continues there. -/
theorem Anchored.defineFunction {environment after : Environment Value (Body ν)}
    {routine : Routine (Body ν)} (anchored : Anchored environment)
    (continues : ∀ definition holder,
      routine.implementation = some (.script definition holder) → holder = environment.current)
    (defined : environment.defineFunction routine = .ok after) : Anchored after := by
  obtain ⟨-, rfl⟩ := Environment.defineFunction_ok_iff.mp defined
  have earlier (place : Nat) (scope : Scope Value (Body ν))
      (there : (environment.modifyCurrent fun scope =>
        { scope with functions := scope.functions ++ [routine] }).scopes[place]? =
          some scope) :
      ∃ former, environment.scopes[place]? = some former ∧ scope.parent = former.parent ∧
        ∀ other ∈ scope.functions, other ∈ former.functions ∨
          other = routine ∧ place = environment.current := by
    rcases Environment.modify_stands there with ⟨former, here, formerThere, rfl⟩ | same
    · refine ⟨former, here ▸ formerThere, rfl, fun other member => ?_⟩
      rcases List.mem_append.mp member with old | new
      · exact .inl old
      · exact .inr ⟨List.mem_singleton.mp new, here.symm⟩
    · exact ⟨scope, same, rfl, fun other member => .inl member⟩
  refine ⟨by simpa [Environment.modifyCurrent] using anchored.occupied, ?_, ?_⟩
  · intro place scope parent there continued
    obtain ⟨former, formerThere, same, _⟩ := earlier place scope there
    exact anchored.linked.ordered place former parent formerThere (same ▸ continued)
  · intro place scope other definition holder there member implemented
    obtain ⟨former, formerThere, _, members⟩ := earlier place scope there
    rcases members other member with old | ⟨rfl, rfl⟩
    · exact anchored.linked.holders place former other definition holder formerThere old
        implemented
    · exact continues definition holder implemented

/-- At the start the functions continue in the root. -/
theorem initial_anchored (detail : Nat) :
    Anchored (Machine.initial detail : Machine ν).environment := by
  have only (place : Nat) (scope : Scope Value (Body ν))
      (there : (Machine.initial detail : Machine ν).environment.scopes[place]? = some scope) :
      scope = { parent := none, functions := [⟨"print", [.any], some .nil, some .print⟩] } := by
    cases place with
    | zero => exact (Option.some.inj there).symm
    | succ place => cases there
  refine ⟨Nat.one_pos, ?_, ?_⟩
  · rintro place scope parent there continued
    cases only place scope there
    cases continued
  · rintro place scope routine definition holder there member implemented
    cases only place scope there
    cases List.mem_singleton.mp member
    cases implemented

/-- The scopes of every state that is reached are anchored. -/
theorem Machine.Reachable.anchored (reachable : machine.Reachable) :
    Anchored machine.environment := by
  induction reachable with
  | initial detail => exact initial_anchored detail
  | openScope _ parent inside anchored =>
    refine ⟨by simp [Environment.openScope], anchored.linked.opened anchored.occupied _ ?_⟩
    rintro place ⟨⟩
    exact inside
  | closeScope _ index environment closed anchored => exact anchored.closed closed
  | defineVariable _ entry environment defined anchored =>
    exact anchored.gains (Environment.gains_defineVariable defined)
  | setVariable _ name value environment assigned anchored =>
    exact anchored.gains (Environment.gains_setVariable assigned)
  | @defineFunction machine after _ definition defined anchored =>
    have meets : Meets (Running.defineFunction definition) machine
        (fun _ after => Anchored after.environment) fun _ _ => True := by
      simp only [Running.defineFunction, meets_bind, meets_get, meets_change, implies_true,
        and_true]
      intro environment added
      refine meets_trace_told fun traced same _ => same ▸ anchored.defineFunction ?_ added
      rintro _ _ ⟨⟩
      rfl
    unfold Meets at meets
    rw [defined] at meets
    exact meets
  | elsewhere _ same anchored => exact same ▸ anchored

/-! ## Runs stay among the reachable states -/

/-- The state is reached, and scopes have changed by variables that the current one gains. -/
def Follows (machine after : Machine ν) : Prop :=
  after.Reachable ∧ ∃ gained, Gains gained machine.environment after.environment

/-- The action leads from reachable states to reachable states, if every function continues
below the floor. -/
def Stepwise (floor : Nat) (action : Run ν β) : Prop :=
  ∀ machine : Machine ν, Stands floor machine.environment → machine.Reachable →
    Meets action machine (fun _ after => Follows machine after)
      (fun _ after => Follows machine after)

/-- Two actions in order go stepwise when each of them does. -/
theorem Stepwise.bind {α : Type} {action : Run ν α} {next : α → Run ν β}
    (first : Stepwise floor action) (rest : ∀ value, Stepwise floor (next value)) :
    Stepwise floor (action >>= next) := by
  intro machine stands reachable
  rw [meets_bind]
  refine (first machine stands reachable).imp ?_ fun _ _ stopped => stopped
  rintro value middle ⟨reached, gained, gains⟩
  have onwards (after : Machine ν) (follows : Follows middle after) : Follows machine after :=
    ⟨follows.1, follows.2.elim fun more further => ⟨gained ++ more, gains.trans further⟩⟩
  exact (rest value middle (stands.gains gains) reached).imp (fun _ => onwards)
    fun _ => onwards

/-- An action that leaves the scopes alone takes no step. -/
theorem stepwise_still {action : Run ν β}
    (still : ∀ machine : Machine ν, Meets action machine
      (fun _ after => after.environment = machine.environment)
      (fun _ after => after.environment = machine.environment)) :
    Stepwise floor action := by
  intro machine _ reachable
  have stays (after : Machine ν) (same : after.environment = machine.environment) :
      Follows machine after :=
    ⟨reachable.elsewhere same, [], same ▸ .refl _⟩
  exact (still machine).imp (fun _ => stays) fun _ => stays

/-- A change of the scopes is a step when it follows from the state before it. -/
theorem stepwise_change
    {step : Environment Value (Body ν) → Except ScopeFault (Environment Value (Body ν))}
    (follows : ∀ (machine : Machine ν) environment, machine.Reachable →
      step machine.environment = .ok environment →
        Follows machine { machine with environment := environment }) :
    Stepwise floor (Run.change step) := by
  intro machine _ reachable
  rw [meets_change]
  exact ⟨fun environment changed => follows machine environment reachable changed,
    fun _ _ => ⟨reachable, [], .refl _⟩⟩

/-- To look a variable up takes no step. -/
theorem stepwise_variableOf (name : String) :
    Stepwise floor (variableOf name : Run ν (Variable Value)) := by
  refine stepwise_still fun machine => ?_
  simp only [variableOf, meets_bind, meets_lookup, meets_pure, implies_true, and_self]

/-- An assignment to a variable is a step. -/
theorem stepwise_assignVariable (name : String) (value : Value) :
    Stepwise floor (assignVariable name value : Run ν Unit) := by
  have chosen : Stepwise floor (discard (mutableOf name) : Run ν PUnit) := by
    refine stepwise_still fun machine => ?_
    simp only [meets_discard, mutableOf, variableOf, meets_bind, meets_lookup, meets_pure]
    refine ⟨fun found _ => ?_, fun _ _ => trivial⟩
    split
    · rfl
    · rfl
  refine .bind chosen fun _ => stepwise_change fun machine environment reachable assigned => ?_
  exact ⟨reachable.setVariable name value environment assigned, [],
    Environment.gains_setVariable assigned⟩

/-- A function that is found continues in a scope that holds it, and so below the floor. -/
theorem Stepwise.call {name : String} {arity : Nat} {next : Routine (Body ν) → Run ν β}
    (rest : ∀ routine : Routine (Body ν), (∀ definition holder,
      routine.implementation = some (.script definition holder) → holder < floor) →
        Stepwise floor (next routine)) :
    Stepwise floor (Run.lookup (·.lookupFunction name arity) >>= next) := by
  intro machine stands reachable
  rw [meets_bind, meets_lookup]
  refine ⟨fun routine found => rest routine ?_ machine stands reachable,
    fun _ _ => ⟨reachable, [], .refl _⟩⟩
  exact fun definition holder => stands.continues found

/-- A scope is reached by opening it, and left by closing it. -/
theorem Stepwise.inScope {body : Run ν β} (stepwise : Stepwise floor body)
    {parent : Option Nat} (stands : Stands floor machine.environment)
    (reachable : machine.Reachable)
    (inside : ∀ place ∈ parent, place < machine.environment.scopes.size) :
    Meets (Run.inScope parent body) machine (fun _ after => Follows machine after)
      (fun _ after => Follows machine after) := by
  have occupied := reachable.anchored.occupied
  have opened : ({ machine with environment := machine.environment.openScope parent } :
      Machine ν).Reachable := by
    cases parent with
    | none =>
      refine reachable.openScope machine.environment.current ?_
      rw [Environment.current]
      omega
    | some place => exact reachable.openScope place (inside place rfl)
  have leaves (after : Machine ν)
      (follows : Follows { machine with environment := machine.environment.openScope parent }
        after) :
      ∃ environment, after.environment.closeScope
          (machine.environment.openScope parent).current = .ok environment ∧
        Follows machine { after with environment := environment } := by
    obtain ⟨reached, gained, gains⟩ := follows
    obtain ⟨environment, closed, kept⟩ := gains.close occupied
    exact ⟨environment, closed, reached.closeScope _ environment closed, [], kept⟩
  refine meets_inScope ((stepwise _ (stands.opened occupied parent inside) opened).imp ?_ ?_)
  · exact fun _ => leaves
  · exact fun _ => leaves

/-- Every step of a run leads on among the reachable states. -/
def stepping (floor : Nat) : Law ν where
  keeps action := Stepwise floor action
  defines action := Stepwise floor action
  known routine := ∀ definition holder,
    routine.implementation = some (.script definition holder) → holder < floor
  give value := stepwise_still fun _ => rfl
  halt stop orderly := stepwise_still fun _ => rfl
  andThen first rest := .bind first rest
  read name := stepwise_variableOf name
  assign name value := stepwise_assignVariable name value
  call rest := .call rest
  store := stepwise_still fun _ => rfl
  allocate elements := stepwise_still fun _ => rfl
  replace handle index value := stepwise_still fun _ => rfl
  print text := stepwise_still fun _ => rfl
  trace detail message _ _ := stepwise_still fun _ => meets_trace (fun _ same _ => same) rfl
  block body machine stands reachable := body.inScope stands reachable (by simp)
  body known implemented body machine stands reachable := by
    refine body.inScope stands reachable ?_
    rintro place ⟨⟩
    have lower := known _ _ implemented
    have reached := stands.occupied
    omega
  allow action := action
  further first rest := .bind first rest
  define entry := stepwise_change fun machine environment reachable defined =>
    ⟨reachable.defineVariable entry environment defined, _,
      Environment.gains_defineVariable defined⟩

/-- No function of a reachable state continues above the scopes that are open. -/
theorem Machine.Reachable.stands (reachable : machine.Reachable) :
    Stands machine.environment.scopes.size machine.environment where
  occupied := Nat.le_refl _
  linked := {
    ordered := reachable.anchored.linked.ordered
    holders := by
      intro place scope routine definition holder there member implemented
      rw [reachable.anchored.linked.holders place scope routine definition holder there member
        implemented]
      exact (Array.getElem?_eq_some_iff.mp there).1 }

/-- However it ends, what leads from reachable states to reachable states ends in one. -/
theorem Stepwise.reached {action : Run ν β}
    (stepwise : Stepwise machine.environment.scopes.size action) (reachable : machine.Reachable) :
    Meets action machine (fun _ after => after.Reachable) (fun _ after => after.Reachable) :=
  (stepwise machine reachable.stands reachable).imp (fun _ _ follows => follows.1)
    fun _ _ follows => follows.1

/-- The globals of a program go stepwise. -/
theorem executeGlobals_stepwise (definitions : List (GlobalDef ν)) :
    Stepwise floor (executeGlobals budget definitions) := by
  induction definitions with
  | nil => exact (stepping floor).give ()
  | cons first rest inductionHypothesis =>
    refine .bind ?_ fun _ => inductionHypothesis
    refine .bind (((stepping floor).holds budget).evaluateOptional first.value) fun value => ?_
    refine .bind ((stepping floor).define _) fun _ => ?_
    exact (stepping floor).told (by decide) fun _ => rfl

/-- The definitions of functions lead from reachable states to reachable ones. -/
theorem defineFunctions_reached (definitions : List (FunctionDef ν))
    (reachable : machine.Reachable) :
    Meets (defineFunctions definitions) machine (fun _ after => after.Reachable)
      (fun _ after => after.Reachable) := by
  induction definitions generalizing machine with
  | nil => exact reachable
  | cons first rest inductionHypothesis =>
    rw [defineFunctions, meets_bind]
    have meets : Meets (defineFunction first) machine (fun _ _ => True)
        fun _ after => after.environment = machine.environment := by
      simp only [defineFunction, meets_bind, meets_get, meets_change, implies_true, and_true]
      exact fun environment added => meets_trace_told fun _ _ _ => trivial
    unfold Meets at meets ⊢
    cases ending : (defineFunction first).run machine with
    | mk result after =>
      rw [ending] at meets
      cases result with
      | ok done => exact inductionHypothesis (reachable.defineFunction first ending)
      | error stop => exact reachable.elsewhere meets

/-- Whatever is evaluated, called or executed in a reachable state ends in one, and so does
a whole run. -/
theorem Machine.Reachable.run (reachable : machine.Reachable) :
    (∀ expression, ((evaluate budget expression).run machine).2.Reachable) ∧
    (∀ statement, ((execute budget statement).run machine).2.Reachable) ∧
    ∀ detail program, (Running.run budget detail program : _ × Machine ν).2.Reachable := by
  have holds (floor : Nat) : (stepping floor : Law ν).Holds budget := (stepping floor).holds budget
  refine ⟨fun expression => ?_, fun statement => ?_, fun detail program => ?_⟩
  · exact Meets.state _ (Stepwise.reached ((holds _).evaluate expression) reachable)
  · exact Meets.state _ (Stepwise.reached ((holds _).execute statement) reachable)
  · have whole : Running.run budget detail program =
        (runProgram budget program).run (Machine.initial detail) := rfl
    rw [whole]
    refine Meets.state _ ?_
    rw [runProgram, meets_bind]
    refine ((executeGlobals_stepwise program.globals).reached (.initial detail)).imp ?_
      fun _ _ reached => reached
    intro _ middle reached
    rw [meets_bind]
    refine (defineFunctions_reached program.functions reached).imp ?_ fun _ _ reached => reached
    intro _ defined reached
    exact Stepwise.reached ((stepping _).call fun routine known =>
      (holds _).invoke routine [] known) reached

/-! ## Calls -/

/-- The part of a state below a floor, before anything is printed or traced. -/
def Machine.below (floor : Nat) (machine : Machine ν) : Machine ν where
  environment := ⟨(machine.environment.scopes.toList.take floor).toArray⟩
  store := machine.store
  detail := machine.detail

/-- What surrounds the part of a state below a floor. -/
def Machine.surroundings (floor : Nat) (machine : Machine ν) : Surroundings ν where
  between := machine.environment.scopes.toList.drop floor
  output := machine.output
  trace := machine.trace

/-- A state is its part below a floor, in its surroundings. -/
theorem below_within (machine : Machine ν) :
    (machine.below floor).within floor (machine.surroundings floor) = machine := by
  obtain ⟨⟨scopes⟩, store, output, detail, trace⟩ := machine
  simp [Machine.within, Machine.below, Machine.surroundings, Environment.putIn, List.take_take]

/-- The states agree on the scopes up to a place, on the lists and on the detail of the
trace. -/
structure Agree (place : Nat) (first second : Machine ν) : Prop where
  scopes : ∀ index ≤ place,
    first.environment.scopes[index]? = second.environment.scopes[index]?
  store : first.store = second.store
  detail : first.detail = second.detail

/-- States that agree are the same below. -/
theorem Agree.below (agree : Agree place first second) :
    first.below (place + 1) = second.below (place + 1) := by
  have scopes : first.environment.scopes.toList.take (place + 1) =
      second.environment.scopes.toList.take (place + 1) := by
    refine List.ext_getElem? fun index => ?_
    simp only [List.getElem?_take]
    split
    · next lower =>
      simp only [Array.getElem?_toList]
      exact agree.scopes index (by omega)
    · rfl
  simp only [Machine.below, scopes, agree.store, agree.detail]

/-- A function that continues right below the floor does not see what surrounds the part of
a state below it. -/
theorem alike_invoke {routine : Routine (Body ν)} {definition : FunctionDef ν}
    {surroundings : Surroundings ν} (arguments : List Value)
    (implemented : routine.implementation = some (.script definition place))
    (stands : Stands (place + 1) machine.environment) :
    Alike (place + 1) surroundings (invoke budget routine arguments) machine := by
  cases budget with
  | zero => rfl
  | succ budget =>
    have body : Unseen (place + 1) surroundings (do
        defineParameters definition.parameters arguments
        executeBlock budget definition.body : Run ν Outcome) := by
      exact (insulation (place + 1) surroundings).further
        ((insulation (place + 1) surroundings).defineParameters definition.parameters arguments)
        fun _ => ((insulation (place + 1) surroundings).holds budget).executeBlock definition.body
    unfold invoke Routine.required
    rw [implemented]
    refine (alike_trace _ _ machine).bind fun _ middle traced => ?_
    have same : middle.environment = machine.environment := by
      have meets : Meets (Run.trace 3 fun store =>
          (arguments.mapM (Value.text? store)).map (.call definition.name) : Run ν Unit) machine
            (fun _ after => after.environment = machine.environment) fun _ _ => True :=
        meets_trace (fun _ kept _ => kept) trivial
      exact meets.ok traced
    have occupied := stands.occupied
    refine (body.inScope (same ▸ stands) (by rw [same]; omega) ?_ (by simp)).1.bind
      fun _ _ _ => rfl
    rintro _ ⟨⟩
    exact Nat.lt_succ_self place

/-- In the part of a reachable state below a floor every function continues below it. -/
theorem Machine.Reachable.stands_below (reachable : machine.Reachable)
    (reached : floor ≤ machine.environment.scopes.size) :
    Stands floor (machine.below floor).environment := by
  have earlier (place : Nat) (scope : Scope Value (Body ν))
      (there : (machine.below floor).environment.scopes[place]? = some scope) :
      place < floor ∧ machine.environment.scopes[place]? = some scope := by
    simp only [Machine.below, List.getElem?_toArray, List.getElem?_take] at there
    split at there
    · next lower => exact ⟨lower, by simpa using there⟩
    · cases there
  have linked := reachable.anchored.linked
  have occupied : floor ≤ (machine.below floor).environment.scopes.size := by
    simp only [Machine.below, List.size_toArray, List.length_take, Array.length_toList]
    omega
  refine ⟨occupied, ?_, ?_⟩
  · intro place scope parent there
    exact linked.ordered place scope parent (earlier place scope there).2
  · intro place scope routine definition holder there member implemented
    obtain ⟨lower, whole⟩ := earlier place scope there
    rw [linked.holders place scope routine definition holder whole member implemented]
    exact lower

/-- How a run goes on from a state of which nothing above a place is seen: as it would go
without what surrounds the part below, which stays as it is. -/
structure Split (place : Nat) (machine after core : Machine ν) : Prop where
  scopes : ∀ index ≤ place, after.environment.scopes[index]? = core.environment.scopes[index]?
  above : ∀ index, place < index →
    after.environment.scopes[index]? = machine.environment.scopes[index]?
  store : after.store = core.store
  detail : after.detail = core.detail
  output : after.output = machine.output ++ core.output
  trace : after.trace = machine.trace ++ core.trace

/-- A state in the surroundings of another one, when no scope is left open above the floor. -/
theorem split_within {core : Machine ν} (size : core.environment.scopes.size = place + 1)
    (reached : place < machine.environment.scopes.size) :
    Split place machine (core.within (place + 1) (machine.surroundings (place + 1))) core where
  scopes index lower := by
    simp only [Machine.within]
    rw [Environment.getElem?_putIn (Nat.le_of_eq size.symm), if_pos (by omega)]
  above index higher := by
    have length : (machine.surroundings (place + 1)).between.length =
        machine.environment.scopes.size - (place + 1) := by
      simp [Machine.surroundings]
    simp only [Machine.within]
    rw [Environment.getElem?_putIn (Nat.le_of_eq size.symm), if_neg (by omega), length]
    by_cases inside : index < machine.environment.scopes.size
    · rw [if_pos (by omega)]
      simp only [Machine.surroundings, List.getElem?_drop, Array.getElem?_toList]
      congr 1
      omega
    · rw [if_neg (by omega), Array.getElem?_eq_none (by omega), Array.getElem?_eq_none (by omega)]
      rfl
  store := rfl
  detail := rfl
  output := rfl
  trace := rfl

/-- A call of a function that continues at a place, in a reachable state. -/
theorem invoke_split {routine : Routine (Body ν)} {definition : FunctionDef ν}
    (reachable : machine.Reachable) (reached : place < machine.environment.scopes.size)
    (implemented : routine.implementation = some (.script definition place))
    (arguments : List Value) :
    ((invoke budget routine arguments).run machine).1 =
        ((invoke budget routine arguments).run (machine.below (place + 1))).1 ∧
      Split place machine ((invoke budget routine arguments).run machine).2
        ((invoke budget routine arguments).run (machine.below (place + 1))).2 := by
  have stands : Stands (place + 1) (machine.below (place + 1)).environment :=
    reachable.stands_below reached
  have whole : (machine.below (place + 1)).environment.scopes.size = place + 1 := by
    simp only [Machine.below, List.size_toArray, List.length_take, Array.length_toList]
    omega
  have alike : Alike (place + 1) (machine.surroundings (place + 1))
      (invoke budget routine arguments) (machine.below (place + 1)) :=
    alike_invoke arguments implemented stands
  have confined : Confined (· = []) (invoke budget routine arguments : Run ν Value) :=
    (discipline.holds budget).invoke routine arguments trivial
  obtain ⟨gained, gains⟩ := confined.stays (by omega : 0 <
    (machine.below (place + 1)).environment.scopes.size)
  unfold Alike at alike
  rw [below_within] at alike
  rw [alike]
  exact ⟨rfl, split_within (gains.size.trans whole) reached⟩

/-- The action ends alike in both states, prints and traces the same, and leaves them in
agreement up to the place. Every scope above it is left as it is. -/
structure EndsAlike (place : Nat) (action : Run ν β) (first second : Machine ν) : Prop where
  ending : (action.run first).1 = (action.run second).1
  agree : Agree place (action.run first).2 (action.run second).2
  printed : ∃ text, (action.run first).2.output = first.output ++ text ∧
    (action.run second).2.output = second.output ++ text
  traced : ∃ messages, (action.run first).2.trace = first.trace ++ messages ∧
    (action.run second).2.trace = second.trace ++ messages
  first_above : ∀ index, place < index →
    (action.run first).2.environment.scopes[index]? = first.environment.scopes[index]?
  second_above : ∀ index, place < index →
    (action.run second).2.environment.scopes[index]? = second.environment.scopes[index]?

/-- A function that is defined in a scope runs alike wherever it is called from, as long as
the scopes up to that one, the lists and the detail of the trace are the same: it ends
alike, prints and traces the same, changes what it sees alike, and leaves alone what it
does not see. In each state that is reached, a function that is found is held by the scope
that it continues in, which is open. -/
theorem calls_do_not_see_callers (reachable : first.Reachable) :
    (∀ (second : Machine ν) (place : Nat) (routine : Routine (Body ν))
      (definition : FunctionDef ν) (arguments : List Value) (budget : Nat), second.Reachable →
      routine.implementation = some (.script definition place) →
      place < first.environment.scopes.size → place < second.environment.scopes.size →
      Agree place first second →
        EndsAlike place (invoke budget routine arguments) first second) ∧
    ∀ (name : String) (arity : Nat) (routine : Routine (Body ν)) (definition : FunctionDef ν)
      (holder : Nat), first.environment.lookupFunction name arity = .ok routine →
      routine.implementation = some (.script definition holder) →
        first.environment.search (·.findFunction name arity) first.environment.current =
            some (holder, routine) ∧
          holder < first.environment.scopes.size := by
  constructor
  · intro second place routine definition arguments budget other implemented reached
      otherReached agree
    obtain ⟨ending, split⟩ :=
      @invoke_split _ _ budget _ _ _ reachable reached implemented arguments
    obtain ⟨otherEnding, otherSplit⟩ :=
      @invoke_split _ _ budget _ _ _ other otherReached implemented arguments
    rw [← agree.below] at otherEnding otherSplit
    exact {
      ending := ending.trans otherEnding.symm
      agree := {
        scopes := fun index lower =>
          (split.scopes index lower).trans (otherSplit.scopes index lower).symm
        store := split.store.trans otherSplit.store.symm
        detail := split.detail.trans otherSplit.detail.symm }
      printed := ⟨_, split.output, otherSplit.output⟩
      traced := ⟨_, split.trace, otherSplit.trace⟩
      first_above := split.above
      second_above := otherSplit.above }
  · intro name arity routine definition holder found implemented
    have linked := reachable.anchored.linked
    unfold Environment.lookupFunction at found
    split at found
    · next place other searched =>
      cases found
      obtain rfl : holder = place := linked.search searched definition holder implemented
      obtain ⟨scope, there, _⟩ := Environment.search_found searched
      exact ⟨searched, (Array.getElem?_eq_some_iff.mp there).1⟩
    · cases found

/-- A function that gives the value of a global. -/
def giving : Routine (Body .bare) :=
  ⟨"f", [], none,
    some (.script ⟨"f", [], [], none, [.returning (.access () () "x")], ()⟩ 0)⟩

/-- The function is defined behind the global that it gives. -/
def defining : Machine .bare :=
  { (Machine.initial 0 : Machine .bare) with
    environment := ⟨#[{
      parent := none
      entries := [⟨"x", .integer, false, .integer 1⟩]
      functions := [⟨"print", [.any], some .nil, some .print⟩, giving] }]⟩ }

/-- A caller that has a variable of the same name. -/
def shadowing : Machine .bare :=
  { defining with
    environment := ⟨defining.environment.scopes.push
      { parent := some 0, entries := [⟨"x", .integer, true, .integer 2⟩] }⟩ }

/-- The function gives the value of the global to a caller that has shadowed it. -/
theorem shadowing_unseen :
    defining.Reachable ∧ shadowing.Reachable ∧
      EndsAlike 0 (invoke 5 giving []) defining shadowing ∧
      ((invoke 5 giving []).run shadowing).1 = .ok (.integer 1) := by
  have defined : defining.Reachable :=
    .defineFunction (.defineVariable (.initial 0) ⟨"x", .integer, false, .integer 1⟩ _ rfl)
      ⟨"f", [], [], none, [.returning (.access () () "x")], ()⟩ rfl
  have shadowed : shadowing.Reachable :=
    (defined.openScope 0 (by decide)).defineVariable ⟨"x", .integer, true, .integer 2⟩ _ rfl
  have agree : Agree 0 defining shadowing := by
    refine ⟨fun index lower => ?_, rfl, rfl⟩
    obtain rfl := Nat.le_zero.mp lower
    rfl
  exact ⟨defined, shadowed,
    (calls_do_not_see_callers defined).1 shadowing 0 giving _ [] 5 shadowed rfl (by decide)
      (by decide) agree, by decide +kernel⟩

end Blockscript.Running
