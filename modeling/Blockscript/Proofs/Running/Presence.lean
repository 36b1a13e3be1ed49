import Blockscript.Proofs.Running.Preservation

/-!
# Where an integer is, there is no nil

That a value is of a type leaves open whether it is nil. Here it is followed where nil can
come from when an integer is wanted. A state in which no integer is missing stays so by
every step that puts no nil where an integer belongs, and what such a state gives under an
integer type is an integer.
-/

namespace Blockscript.Chronicle

open Running (Body Machine Run Meets)

/-- The value is not missing, if the type is that of the integers. -/
def Present (type : Ty) (value : Value) : Prop :=
  type = .integer → value ≠ .nil

/-- No integer is missing: not behind a variable, and not in a list. -/
structure Complete (state : State) : Prop where
  scopes : List.Forall₂
    (fun (scope : Scope Value (Body .checked)) (level : Level) =>
      List.Forall₂ (fun (entry : Variable Value) (binding : Binding) =>
        Present binding.entry.type entry.value) scope.entries level.bindings)
    state.machine.environment.scopes.toList state.memory.levels
  lists : ∀ handle element, state.memory.makers[handle]? = some element →
    ∀ inner ∈ state.machine.store.elements handle, Present element inner

variable {world : World} {record : Record} {scopes : Scopes} {state : State} {α β : Type}
  {source target : Ty} {value : Value}

/-- Where a value is assigned, it is missing only if it was. -/
theorem Present.assign (present : Present source value)
    (assignable : target.isAssignable source = true) : Present target value := by
  rintro rfl
  simp only [Ty.isAssignable, Bool.or_eq_true, decide_eq_true_eq, Bool.and_eq_true,
    reduceCtorEq, false_and, or_false] at assignable
  exact present assignable.symm

/-- A value of another type than the integers is not asked for. -/
theorem present_of_ne (other : target ≠ .integer) : Present target value :=
  fun integer => absurd integer other

/-! ## States -/

/-- The value of a variable that is found is there. -/
theorem Complete.found (complete : Complete state) {name : String} {binding : Binding}
    {place : Nat} {entry : Variable Value} (finds : Finds state name binding place entry) :
    Present binding.entry.type entry.value := by
  obtain ⟨scope, level, index, there, inside, levelThere, bound, _⟩ := finds
  rw [← Array.getElem?_toList] at there
  obtain ⟨position, rfl⟩ := List.getElem?_eq_some_iff.mp there
  obtain ⟨levelPosition, rfl⟩ := List.getElem?_eq_some_iff.mp levelThere
  obtain ⟨entryPosition, rfl⟩ := List.getElem?_eq_some_iff.mp inside
  obtain ⟨bindingPosition, rfl⟩ := List.getElem?_eq_some_iff.mp bound
  have both := (List.forall₂_iff_get.mp complete.scopes).2 place position levelPosition
  exact (List.forall₂_iff_get.mp both).2 index entryPosition bindingPosition

/-- A variable is defined with a value that is there. -/
theorem Complete.define {environment : Environment Value (Body .checked)}
    {entry : Variable Value} {binding : Binding} (complete : Complete state)
    (defined : state.machine.environment.defineVariable entry = .ok environment)
    (present : Present binding.entry.type entry.value) :
    Complete ⟨{ state.machine with environment := environment }, state.memory.bind binding⟩ := by
  refine ⟨?_, complete.lists⟩
  obtain ⟨-, rfl⟩ := Environment.defineVariable_ok_iff.mp defined
  rcases List.eq_nil_or_concat' state.memory.levels with none | ⟨front, level, last⟩
  · have closed : state.machine.environment.scopes = #[] := by
      simpa [none] using complete.scopes
    simp [Environment.modifyCurrent, Environment.current, Memory.bind, none, closed]
  · obtain ⟨earlier, scope, shape, rest, there⟩ := forall₂_concat (last ▸ complete.scopes)
    rw [Memory.bind_concat last, modifyCurrent_concat shape]
    exact List.rel_append rest (.cons (List.rel_append there (.cons present .nil)) .nil)

/-- A variable is set to a value that is there. -/
theorem Complete.setVariable {environment : Environment Value (Body .checked)} {name : String}
    {binding : Binding} {place : Nat} {entry : Variable Value} (complete : Complete state)
    (consistent : Consistent state)
    (search : state.machine.environment.lookupVariable name = .ok (place, entry))
    (finds : Finds state name binding place entry)
    (set : state.machine.environment.setVariable name value = .ok environment)
    (present : Present binding.entry.type value) :
    Complete ⟨{ state.machine with environment := environment }, state.memory⟩ := by
  refine ⟨?_, complete.lists⟩
  obtain ⟨_, _, again, rfl⟩ := Environment.setVariable_ok_iff.mp set
  cases search.symm.trans again
  obtain ⟨_, level, _, _, _, levelThere, _, found⟩ := finds
  obtain ⟨scope, there, held⟩ := consistent.scope levelThere
  rw [Array.toList_modify]
  refine forall₂_modify complete.scopes fun other otherLevel inside levelInside all => ?_
  rw [Array.getElem?_toList] at inside
  obtain rfl := Option.some.inj (there.symm.trans inside)
  obtain rfl := Option.some.inj (levelThere.symm.trans levelInside)
  have known : List.Forall₂ (fun (entry : Variable Value) (binding : Binding) =>
      entry.name = binding.entry.name ∧ Present binding.entry.type entry.value)
      scope.entries level.bindings :=
    List.Forall₂.mp (fun _ _ held present => ⟨held.name, present⟩) held.entries all
  refine (forall₂_setVariable known ?_).imp fun _ _ both => both.2
  rintro entry inner member ⟨same, _⟩ named
  obtain rfl := held.named found member (same.symm.trans named)
  exact ⟨same, present⟩

/-- A new scope has no value that is missing. -/
theorem Complete.enter {parent : Option Nat} (complete : Complete state) :
    Complete
      ⟨{ state.machine with environment := state.machine.environment.openScope parent },
        state.memory.enter parent⟩ := by
  refine ⟨?_, complete.lists⟩
  simp only [Environment.openScope, Array.toList_push]
  exact List.rel_append complete.scopes (.cons .nil .nil)

/-- A scope that is left takes its values with it. -/
theorem Complete.leave {environment : Environment Value (Body .checked)} {index : Nat}
    (complete : Complete state)
    (closed : state.machine.environment.closeScope index = .ok environment) :
    Complete ⟨{ state.machine with environment := environment }, state.memory.leave⟩ := by
  refine ⟨?_, complete.lists⟩
  obtain ⟨-, rfl⟩ := Environment.closeScope_ok_iff.mp closed
  rw [Array.toList_pop, List.dropLast_eq_take, Memory.leave, List.dropLast_eq_take,
    complete.scopes.length_eq]
  exact List.forall₂_take _ complete.scopes

/-- A new list is made of values that are there. -/
theorem Complete.allocate {element : Ty} {elements : List Value} (complete : Complete state)
    (consistent : Consistent state) (present : ∀ inner ∈ elements, Present element inner) :
    Complete
      ⟨{ state.machine with store := (state.machine.store.allocate elements).2 },
        state.memory.make element⟩ :=
  ⟨complete.scopes, holds_allocate consistent.lists.made complete.lists present⟩

/-- An element is replaced by a value that is there. -/
theorem Complete.replace {handle index : Nat} {element : Ty} (complete : Complete state)
    (made : state.memory.makers[handle]? = some element) (present : Present element value) :
    Complete
      ⟨{ state.machine with store := state.machine.store.replace handle index value },
        state.memory⟩ :=
  ⟨complete.scopes, holds_replace made complete.lists present⟩

/-- To define a function leaves the variables of the scope alone. -/
theorem Complete.defineFunction {environment : Environment Value (Body .checked)}
    {routine : Routine (Body .checked)} (complete : Complete state)
    (defined : state.machine.environment.defineFunction routine = .ok environment) :
    Complete ⟨{ state.machine with environment := environment }, state.memory⟩ := by
  refine ⟨?_, complete.lists⟩
  obtain ⟨-, rfl⟩ := Environment.defineFunction_ok_iff.mp defined
  rcases List.eq_nil_or_concat' state.memory.levels with none | ⟨front, level, last⟩
  · have closed : state.machine.environment.scopes = #[] := by
      simpa [none] using complete.scopes
    simp [Environment.modifyCurrent, Environment.current, none, closed]
  · obtain ⟨earlier, scope, shape, rest, there⟩ := forall₂_concat (last ▸ complete.scopes)
    rw [last, modifyCurrent_concat shape]
    exact List.rel_append rest (.cons there .nil)

/-- What is printed and traced does not matter to what is there. -/
theorem Complete.quiet {machine : Machine .checked} (complete : Complete state)
    (quiet : Quiet state.machine machine) : Complete ⟨machine, state.memory⟩ := by
  refine ⟨?_, ?_⟩
  · rw [quiet.environment]
    exact complete.scopes
  · rw [quiet.store]
    exact complete.lists

/-- At the start nothing is missing, for there is nothing. -/
theorem complete_initial (detail : Nat) : Complete (Record.initial detail).state :=
  ⟨.cons .nil .nil, by simp [Record.initial]⟩

/-! ## Actions -/

/-- Started where no integer is missing, the action leaves none missing, and what it gives
is as said. -/
def Supplies (action : Recorded β) (record : Record) (given : β → Prop) : Prop :=
  Complete record.state →
    Meets action record (fun value final => Complete final.state ∧ given value) fun _ _ => True

variable {action : Recorded β} {strong given : β → Prop}

/-- What gives more supplies less. -/
theorem Supplies.imp (supplies : Supplies action record strong)
    (weaker : ∀ value, strong value → given value) : Supplies action record given := by
  intro complete
  refine (supplies complete).imp ?_ fun _ _ _ => trivial
  rintro value final ⟨still, holds⟩
  exact ⟨still, weaker value holds⟩

/-- To give a value supplies it. -/
theorem supplies_pure {value : β} (holds : given value) : Supplies (pure value) record given :=
  fun complete => ⟨complete, holds⟩

/-- A stop supplies anything, for it gives nothing. -/
theorem supplies_throw {stop : Stop} : Supplies (throw stop) record given :=
  fun _ => trivial

/-- Behind an action that supplies what it should the next one starts where the first is
known to have led. -/
theorem supplies_then {action : Recorded α} {next : α → Recorded β} {middle : α → Prop}
    {result : β → Prop} {known : α → Record → Prop} {halt : Stop → Record → Prop}
    (meets : Meets action record known halt) (first : Supplies action record middle)
    (rest : ∀ value after, known value after → middle value →
      Supplies (next value) after result) :
    Supplies (action >>= next) record result := by
  intro complete
  rw [Running.meets_bind]
  refine (meets.both (first complete)).imp ?_ fun _ _ _ => trivial
  rintro value after ⟨led, still, holds⟩
  exact rest value after led holds still

/-- The same where it does not matter where the first action has led. -/
theorem Supplies.bind {action : Recorded α} {next : α → Recorded β} {middle : α → Prop}
    {result : β → Prop} (first : Supplies action record middle)
    (rest : ∀ value after, middle value → Supplies (next value) after result) :
    Supplies (action >>= next) record result := by
  intro complete
  rw [Running.meets_bind]
  refine (first complete).imp ?_ fun _ _ _ => trivial
  rintro value after ⟨still, holds⟩
  exact rest value after holds still

/-- An action whose value is not needed supplies nothing, and leaves nothing missing. -/
theorem supplies_discard (supplies : Supplies action record given) :
    Supplies (discard action) record fun _ => True := by
  intro complete
  rw [Running.meets_discard]
  exact (supplies complete).imp (fun _ _ done => ⟨done.1, trivial⟩) fun _ _ _ => trivial

/-- To take an event down leaves nothing missing. -/
theorem supplies_note {event : Event} : Supplies (note scopes event) record fun _ => True :=
  fun complete => ⟨complete, trivial⟩

/-- A step that only looks, or leaves traces. -/
theorem supplies_quiet {action : Run .checked β}
    (meets : Meets action record.state.machine
      (fun value machine => Quiet record.state.machine machine ∧ given value)
      fun _ _ => True) :
    Supplies (perform scopes id action) record given := by
  intro complete
  rw [meets_perform]
  refine meets.imp ?_ fun _ _ _ => trivial
  rintro value machine ⟨quiet, holds⟩
  exact ⟨complete.quiet quiet, holds⟩

/-- To pass an outcome on supplies its value. -/
theorem supplies_outcome {outcome : Except RunFault β} :
    Supplies (perform scopes id (Run.outcome outcome)) record fun value =>
      outcome = .ok value := by
  refine supplies_quiet (Running.meets_outcome.mpr ⟨?_, ?_⟩)
  · exact fun value computed => ⟨.refl _, computed⟩
  · exact fun _ _ => trivial

/-- To look at the lists leaves nothing missing. -/
theorem supplies_store : Supplies (perform scopes id Run.store) record fun _ => True :=
  supplies_quiet ⟨.refl _, trivial⟩

/-- To trace leaves nothing missing. -/
theorem supplies_trace {detail : Nat} {message : Store → Option Running.Message} :
    Supplies (perform scopes id (Run.trace detail message)) record fun _ => True :=
  supplies_quiet (quiet_trace trivial)

/-- To print leaves nothing missing. -/
theorem supplies_print {text : String} :
    Supplies (perform scopes id (Run.print text)) record fun _ => True :=
  supplies_quiet quiet_print

/-- A lookup leaves nothing missing. -/
theorem supplies_lookup {find : Environment Value (Body .checked) → Except ScopeFault β} :
    Supplies (perform scopes id (Run.lookup find)) record fun _ => True := by
  refine supplies_quiet (Running.meets_lookup.mpr ⟨?_, ?_⟩)
  · exact fun _ _ => ⟨.refl _, trivial⟩
  · exact fun _ _ => trivial

/-- A variable that is found has a value that is there. -/
theorem supplies_variableOf {name : String} {binding : Binding}
    (ready : Ready world record scopes) (found : scopes.find? name = some binding) :
    Supplies (perform scopes id (Running.variableOf name)) record fun entry =>
      Present binding.entry.type entry.value := by
  obtain ⟨place, entry, search, finds⟩ := ready.lookupVariable found
  intro complete
  refine supplies_quiet ?_ complete
  simp only [Running.variableOf, Running.meets_bind, Running.meets_lookup, Running.meets_pure,
    search]
  refine ⟨?_, by simp⟩
  rintro _ ⟨⟩
  exact ⟨.refl _, complete.found finds⟩

/-- To look a variable up for assignment leaves nothing missing. -/
theorem supplies_mutableOf {name : String} :
    Supplies (perform scopes id (Running.mutableOf name)) record fun _ => True := by
  refine supplies_quiet ?_
  simp only [Running.mutableOf, Running.variableOf, Running.meets_bind, Running.meets_lookup,
    Running.meets_pure]
  refine ⟨fun found _ => ?_, fun _ _ => trivial⟩
  split
  · exact ⟨.refl _, trivial⟩
  · exact trivial

/-- An element of a list is there. -/
theorem supplies_elementAt {name : String} {element : Ty} {offset : Value}
    (listed : Typed record.makers (.list element) value) :
    Supplies (perform scopes id (Running.elementAt name value offset)) record
      (Present element) := by
  intro complete
  refine supplies_quiet ?_ complete
  simp only [Running.elementAt, Running.meets_bind, Running.meets_outcome, Running.meets_store,
    Running.meets_pure]
  refine ⟨fun handle found => ⟨fun index inside => ⟨.refl _, ?_⟩, fun _ _ => trivial⟩,
    fun _ _ => trivial⟩
  have bound := requireIndex_lt inside
  rw [List.getElem?_eq_getElem bound, Option.getD_some]
  exact complete.lists handle element (requireList_made listed found) _ (List.getElem_mem bound)

/-- To make a list of values that are there leaves nothing missing. -/
theorem supplies_allocate {element : Ty} {elements : List Value} (intact : Intact world record)
    (present : ∀ inner ∈ elements, Present element inner) :
    Supplies (perform scopes (·.make element) (Run.allocate elements)) record fun _ => True := by
  intro complete
  rw [meets_perform, Running.meets_allocate]
  exact ⟨complete.allocate intact.consistent present, trivial⟩

/-- To put a value that is there in the place of an element leaves nothing missing. -/
theorem supplies_replace {handle index : Nat} {element : Ty}
    (made : record.makers[handle]? = some element) (present : Present element value) :
    Supplies (perform scopes id (Run.replace handle index value)) record fun _ => True := by
  intro complete
  rw [meets_perform, Running.meets_replace]
  exact ⟨complete.replace made present, trivial⟩

/-- To define a variable with a value that is there leaves nothing missing. -/
theorem supplies_define {entry : Variable Value} {binding : Binding}
    (present : Present binding.entry.type entry.value) :
    Supplies (perform scopes (·.bind binding) (Run.change (·.defineVariable entry))) record
      fun _ => True := by
  intro complete
  rw [meets_perform, Running.meets_change]
  exact ⟨fun _ defined => ⟨complete.define defined present, trivial⟩, fun _ _ => trivial⟩

/-- To set a variable to a value that is there leaves nothing missing. -/
theorem supplies_setVariable {name : String} {binding : Binding}
    (ready : Ready world record scopes) (found : scopes.find? name = some binding)
    (present : Present binding.entry.type value) :
    Supplies (perform scopes id (Run.change (·.setVariable name value))) record
      fun _ => True := by
  obtain ⟨place, entry, search, finds⟩ := ready.lookupVariable found
  intro complete
  rw [meets_perform, Running.meets_change]
  refine ⟨fun _ set => ⟨?_, trivial⟩, fun _ _ => trivial⟩
  exact complete.setVariable ready.intact.consistent search finds set present

/-- To define a function leaves nothing missing. -/
theorem supplies_defineFunction {definition : FunctionDef .checked} :
    Supplies (perform scopes id (Running.defineFunction definition)) record fun _ => True := by
  intro complete
  rw [meets_perform]
  simp only [Running.defineFunction, Running.meets_bind, Running.meets_get,
    Running.meets_change]
  refine ⟨fun _ defined => ?_, fun _ _ => trivial⟩
  apply Running.meets_trace_told
  intro machine environment store
  exact ⟨(complete.defineFunction defined).quiet ⟨environment, store⟩, trivial⟩

/-- A scope of its own is closed with all that was in it. -/
theorem supplies_inScope {parent : Option Nat} {body : Recorded β}
    (supplies : Supplies body (record.entering scopes parent) given) :
    Supplies (inScope scopes parent body) record given := by
  intro complete
  have meets := supplies complete.enter
  unfold Meets at *
  rw [inScope_run]
  cases ended : body.run (record.entering scopes parent) with
  | mk outcome after =>
    rw [ended] at meets
    cases closed : after.state.machine.environment.closeScope
        (record.state.machine.environment.openScope parent).current with
    | error fault => simp only [closed]
    | ok environment =>
      simp only [closed]
      cases outcome with
      | error stop => trivial
      | ok value => exact ⟨meets.1.leave closed, meets.2⟩

end Blockscript.Chronicle
