import Blockscript.Proofs.Running.Invariant

/-!
# Steps of a recorded run

What each step that is taken down needs and gives. A step that is refused stops with a
fault that may be met, and leaves everything as the step before.
-/

namespace Blockscript.Chronicle

open Running (Body Machine Outcome Run Meets)

variable {world : World} {record : Record} {scopes : Scopes} {α β : Type}

/-- An action that is performed meets what it meets on the machine, with a moment taken down
where it gives a value. -/
theorem meets_perform {remember : Memory → Memory} {action : Run .checked β}
    {post : β → Record → Prop} {halt : Stop → Record → Prop} :
    Meets (perform scopes remember action) record post halt ↔
      Meets action record.state.machine
        (fun value machine => post value
          ((⟨⟨machine, remember record.state.memory⟩, record.moments⟩ : Record).noting scopes
            .performed))
        (fun stop machine => halt stop ⟨⟨machine, record.state.memory⟩, record.moments⟩) := by
  unfold Meets perform
  simp only [ExceptT.run_mk]
  cases action.run record.state.machine with
  | mk outcome machine => cases outcome <;> rfl

/-- Nothing has happened to the scopes and the lists. -/
structure Quiet (before after : Machine .checked) : Prop where
  environment : after.environment = before.environment
  store : after.store = before.store

/-- A state is consistent, whatever has been printed and traced. -/
theorem Consistent.quiet {state : State} {machine : Machine .checked}
    (consistent : Consistent state) (quiet : Quiet state.machine machine) :
    Consistent ⟨machine, state.memory⟩ := by
  constructor
  · rw [quiet.environment]
    exact consistent.scopes
  · rw [quiet.store]
    exact consistent.lists

/-- The root is where it was when its level and all functions are. -/
theorem Rooted.transport {root : List Binding} {functions : List (FunctionDef .checked)}
    {state next : State} (rooted : Rooted root functions state)
    (level : next.memory.levels[0]? = state.memory.levels[0]?)
    (same : functionsOf next.machine.environment = functionsOf state.machine.environment) :
    Rooted root functions next :=
  ⟨level.trans rooted.level, same ▸ rooted.routines⟩

/-- A record is intact, whatever has been printed and traced. -/
theorem Intact.quiet {machine : Machine .checked} (intact : Intact world record)
    (quiet : Quiet record.state.machine machine) :
    Intact world ⟨⟨machine, record.state.memory⟩, record.moments⟩ :=
  intact.move (intact.consistent.quiet quiet)
    (intact.rooted.transport rfl (by rw [quiet.environment])) List.prefix_rfl

/-- A step that only looks, or leaves traces. -/
theorem perform_quiet {action : Run .checked β} {given : β → Prop} (intact : Intact world record)
    (meets : Meets action record.state.machine
      (fun value machine => Quiet record.state.machine machine ∧ given value)
      (fun stop machine => Quiet record.state.machine machine ∧ Excused record.moments stop)) :
    Meets (perform scopes id action) record
      (fun value final => Steady world record final ∧ given value) (Halted world record) := by
  rw [meets_perform]
  refine meets.imp ?_ ?_
  · rintro value machine ⟨quiet, holds⟩
    exact ⟨⟨(intact.quiet quiet).noting trivial, rfl, List.prefix_rfl⟩, holds⟩
  · rintro stop machine ⟨quiet, excused⟩
    exact ⟨intact.quiet quiet, rfl, rfl, excused⟩

/-- Where nothing is printed or traced, nothing else changes. -/
theorem Quiet.refl (machine : Machine .checked) : Quiet machine machine :=
  ⟨rfl, rfl⟩

/-- A step that does not look at the state. -/
theorem perform_outcome {outcome : Except RunFault β} (intact : Intact world record)
    (excused : ∀ fault, outcome = .error fault → Excused record.moments (.fault fault)) :
    Meets (perform scopes id (Run.outcome outcome)) record
      (fun value final => Steady world record final ∧ outcome = .ok value)
      (Halted world record) := by
  apply perform_quiet intact
  rw [Running.meets_outcome]
  exact ⟨fun value given => ⟨.refl _, given⟩,
    fun fault refused => ⟨.refl _, excused fault refused⟩⟩

/-- A trace leaves the scopes and the lists alone, unless it has nothing to tell. -/
theorem quiet_trace {detail : Nat} {message : Store → Option Running.Message}
    {machine : Machine .checked} {halt : Stop → Machine .checked → Prop}
    (stops : halt (.fault .unwritable) machine) :
    Meets (Run.trace detail message) machine (fun _ after => Quiet machine after ∧ True) halt :=
  Running.meets_trace (fun _ environment store => ⟨⟨environment, store⟩, trivial⟩) stops

/-- Printing leaves the scopes and the lists alone. -/
theorem quiet_print {text : String} {machine : Machine .checked}
    {halt : Stop → Machine .checked → Prop} :
    Meets (Run.print text) machine (fun _ after => Quiet machine after ∧ True) halt :=
  Running.meets_print fun _ environment store => ⟨⟨environment, store⟩, trivial⟩

/-- A trace that is taken down changes nothing that the invariant is about. -/
theorem perform_trace {detail : Nat} {message : Store → Option Running.Message}
    (intact : Intact world record) :
    Meets (perform scopes id (Run.trace detail message)) record
      (fun _ final => Steady world record final) (Halted world record) :=
  (perform_quiet intact (quiet_trace ⟨.refl _, .inl trivial⟩)).imp (fun _ _ done => done.1)
    fun _ _ halted => halted

/-- To print is steady. -/
theorem perform_print {text : String} (intact : Intact world record) :
    Meets (perform scopes id (Run.print text)) record
      (fun _ final => Steady world record final) (Halted world record) :=
  (perform_quiet intact quiet_print).imp (fun _ _ done => done.1) fun _ _ halted => halted

/-- To look at the lists is steady, and gives them. -/
theorem perform_store (intact : Intact world record) :
    Meets (perform scopes id Run.store) record
      (fun store final => Steady world record final ∧ store = record.state.machine.store)
      (Halted world record) :=
  perform_quiet intact ⟨.refl _, rfl⟩

/-! ## Looking names up -/

/-- A recorded run is in the scopes of the text, as far as expressions need it. -/
structure Ready (world : World) (record : Record) (scopes : Scopes) : Prop where
  intact : Intact world record
  aligned : Aligned record.levels scopes
  knows : Knows world.functions scopes

/-- A run that is ready is so behind a steady part. -/
theorem Ready.after {final : Record} (ready : Ready world record scopes)
    (steady : Steady world record final) : Ready world final scopes :=
  ⟨steady.intact, steady.levels ▸ ready.aligned, ready.knows⟩

/-- A variable that is found holds a value of the type of its binding. -/
theorem Finds.held {state : State} {name : String} {binding : Binding} {place : Nat}
    {entry : Variable Value} (consistent : Consistent state)
    (finds : Finds state name binding place entry) :
    Held state.memory.makers entry binding := by
  obtain ⟨scope, level, index, there, inside, same, bound, _⟩ := finds
  obtain ⟨other, otherThere, held⟩ := consistent.scope same
  obtain rfl := Option.some.inj (there.symm.trans otherThere)
  obtain ⟨position, rfl⟩ := List.getElem?_eq_some_iff.mp inside
  obtain ⟨bindingPosition, rfl⟩ := List.getElem?_eq_some_iff.mp bound
  exact (List.forall₂_iff_get.mp held.entries).2 index position bindingPosition

/-- The binding that a name means in the text is the one whose variable is found. -/
theorem Ready.lookupVariable {name : String} {binding : Binding}
    (ready : Ready world record scopes) (found : scopes.find? name = some binding) :
    ∃ place entry, record.state.machine.environment.lookupVariable name = .ok (place, entry) ∧
      Finds record.state name binding place entry := by
  obtain ⟨chain, sees, same⟩ := ready.aligned
  have meant : chain.findSome? (·.find? (Binding.isNamed name)) = some binding := by
    rcases same with rfl | rfl
    · exact found
    · rw [List.findSome?_cons]
      exact found
  obtain ⟨place, entry, search, finds⟩ := search_variable ready.intact.consistent sees meant
  refine ⟨place, entry, ?_, finds⟩
  rw [Environment.lookupVariable, ready.intact.consistent.current, search]

/-- A name that the text resolves is resolved alike by the run. -/
theorem Ready.resolvesVariable {name : String} {binding : Binding}
    (ready : Ready world record scopes) (found : scopes.find? name = some binding) :
    ResolvesVariable scopes record.state binding.entry name := by
  obtain ⟨place, entry, search, finds⟩ := ready.lookupVariable found
  have located := found
  rw [Scopes.find?, Scopes.locate_binding] at located
  obtain ⟨⟨static, _⟩, there, rfl⟩ := Option.map_eq_some_iff.mp located
  exact ⟨static, _, place, entry, Scopes.lookupVariable_locate.mpr ⟨_, there, rfl⟩, there, rfl,
    search, finds⟩

/-- A variable that the text resolves is found, and holds a value of its type. -/
theorem perform_variableOf {name : String} {binding : Binding}
    (ready : Ready world record scopes) (found : scopes.find? name = some binding) :
    Meets (perform scopes id (Running.variableOf name)) record
      (fun entry final => Steady world record final ∧ Held record.makers entry binding)
      (Halted world record) := by
  obtain ⟨place, entry, search, finds⟩ := ready.lookupVariable found
  apply perform_quiet ready.intact
  simp only [Running.variableOf, Running.meets_bind, Running.meets_lookup, Running.meets_pure,
    search]
  refine ⟨?_, by simp⟩
  rintro _ ⟨⟩
  exact ⟨.refl _, finds.held ready.intact.consistent⟩

/-- The variable that is assigned to. One that is immutable may not be. -/
theorem perform_mutableOf {name : String} {binding : Binding}
    (ready : Ready world record scopes) (found : scopes.find? name = some binding) :
    Meets (perform scopes id (Running.mutableOf name)) record
      (fun entry final => Steady world record final ∧ Held record.makers entry binding)
      (Halted world record) := by
  obtain ⟨place, entry, search, finds⟩ := ready.lookupVariable found
  apply perform_quiet ready.intact
  simp only [Running.mutableOf, Running.variableOf, Running.meets_bind, Running.meets_lookup,
    Running.meets_pure, search]
  refine ⟨?_, by simp⟩
  rintro _ ⟨⟩
  split
  · exact ⟨.refl _, finds.held ready.intact.consistent⟩
  · exact ⟨.refl _, .inl trivial⟩

/-- Functions that mean one another are found at the same position. -/
theorem find_meant {statics : List (Routine Unit)} {taken : List (Body .checked)}
    (meant : List.Forall₂ Meant statics taken) {name : String} {arity : Nat}
    {static : Routine Unit}
    (found : statics.find? (fun routine => routine.name = name && routine.arity = arity) =
      some static) :
    ∃ (position : Nat) (body : Body .checked), statics[position]? = some static ∧
      taken[position]? = some body ∧ Meant static body ∧
      (taken.map routineOf).find? (fun routine => routine.name = name && routine.arity = arity) =
        some (routineOf body) := by
  induction meant with
  | nil => simp at found
  | @cons first body statics taken same _ inductionHypothesis =>
    by_cases here : first.name = name ∧ first.arity = arity
    · have chosen : first = static := by
        simpa [here] using found
      subst chosen
      refine ⟨0, body, rfl, rfl, same, ?_⟩
      simp [← same.name, ← same.arity, here]
    · have later : statics.find? (fun routine => routine.name = name && routine.arity = arity) =
          some static := by
        simpa [here] using found
      obtain ⟨position, other, inStatics, inTaken, means, search⟩ := inductionHypothesis later
      refine ⟨position + 1, other, inStatics, inTaken, means, ?_⟩
      rw [List.map_cons, List.find?_cons_of_neg]
      · exact search
      · simpa [← same.name, ← same.arity] using here

/-- The function that a name means in the text is the one that is found, at the same
position in the order of definition. -/
theorem Ready.lookupFunction {name : String} {arity : Nat} {static : Routine Unit}
    (ready : Ready world record scopes) (found : scopes.routine? name arity = some static) :
    ∃ (position : Nat) (body : Body .checked), scopes.functions[position]? = some static ∧
      (bodies world.functions)[position]? = some body ∧ Meant static body ∧
      record.state.machine.environment.lookupFunction name arity = .ok (routineOf body) := by
  obtain ⟨taken, ⟨rest, split⟩, meant⟩ := ready.knows
  obtain ⟨position, body, inStatics, inTaken, means, search⟩ := find_meant meant found
  obtain ⟨chain, sees, _⟩ := ready.aligned
  refine ⟨position, body, inStatics, ?_, means, ?_⟩
  · rw [← split, List.getElem?_append_left (List.getElem?_eq_some_iff.mp inTaken).1]
    exact inTaken
  · rw [Environment.lookupFunction, ready.intact.consistent.current,
      search_function ready.intact.consistent ready.intact.rooted sees, ← split, List.map_append,
      List.find?_append, search]
    rfl

/-- A function that the text resolves is found, with the body that is meant. -/
theorem perform_lookupFunction {name : String} {arity : Nat} {static : Routine Unit}
    (ready : Ready world record scopes) (found : scopes.routine? name arity = some static) :
    Meets (perform scopes id (Run.lookup (·.lookupFunction name arity))) record
      (fun routine final => Steady world record final ∧
        ∃ body ∈ bodies world.functions, routine = routineOf body ∧ Meant static body)
      (Halted world record) := by
  obtain ⟨position, body, _, inBodies, means, search⟩ := ready.lookupFunction found
  apply perform_quiet ready.intact
  simp only [Running.meets_lookup, search]
  refine ⟨?_, by simp⟩
  rintro _ ⟨⟩
  exact ⟨.refl _, body, List.mem_of_getElem? inBodies, rfl, means⟩

/-- What can be called by now can be called once all functions are defined. -/
theorem bodies_known {functions : List (FunctionDef .checked)} {program : Program .checked}
    (known : functions <+: program.functions) {position : Nat} {body : Body .checked}
    (there : (bodies functions)[position]? = some body) :
    (bodies program.functions)[position]? = some body := by
  obtain ⟨rest, split⟩ := known
  cases position with
  | zero => exact there
  | succ position =>
    simp only [bodies, List.getElem?_cons_succ, List.getElem?_map] at there ⊢
    obtain ⟨definition, inside, rfl⟩ := Option.map_eq_some_iff.mp there
    rw [← split, List.getElem?_append_left (List.getElem?_eq_some_iff.mp inside).1, inside]
    rfl

/-- A call that the text resolves is resolved alike by the run. -/
theorem Ready.resolvesFunction {name : String} {arity : Nat} {static : Routine Unit} {result : Ty}
    (ready : Ready world record scopes) (found : scopes.routine? name arity = some static)
    (settled : static.result = some result) :
    ResolvesFunction world.program scopes record.state ⟨static.parameters, result⟩ name arity := by
  obtain ⟨position, body, inStatics, inBodies, means, search⟩ := ready.lookupFunction found
  refine ⟨position, static, body, Scopes.lookupFunction_environment.mpr found, inStatics, rfl,
    settled, search, bodies_known world.known inBodies, ?_⟩
  rw [means.parameters, means.result result (by simp [settled])]

/-! ## Lists -/

/-- An element that is taken is of the type of the elements. -/
theorem perform_elementAt {name : String} {element : Ty} {value offset : Value}
    (intact : Intact world record) (listed : Typed record.makers (.list element) value)
    (integer : Typed record.makers .integer offset) :
    Meets (perform scopes id (Running.elementAt name value offset)) record
      (fun result final => Steady world record final ∧ Typed record.makers element result)
      (Halted world record) := by
  apply perform_quiet intact
  simp only [Running.elementAt, Running.meets_bind, Running.meets_outcome, Running.meets_store,
    Running.meets_pure]
  refine ⟨?_, fun fault refused => ⟨.refl _, .inl (requireList_pardoned listed refused)⟩⟩
  intro handle found
  refine ⟨?_, fun fault refused => ⟨.refl _, .inl (requireIndex_pardoned integer refused)⟩⟩
  intro index inside
  have made := requireList_made listed found
  have bound := requireIndex_lt inside
  refine ⟨.refl _, intact.consistent.lists.hold handle element made _ ?_⟩
  rw [List.getElem?_eq_getElem bound, Option.getD_some]
  exact List.getElem_mem bound

/-- A new list of values of a type is a list of that type. -/
theorem perform_allocate {element : Ty} {elements : List Value} (intact : Intact world record)
    (typed : ∀ inner ∈ elements, Typed record.makers element inner) :
    Meets (perform scopes (·.make element) (Run.allocate elements)) record
      (fun value final => Steady world record final ∧ Typed final.makers (.list element) value)
      (Halted world record) := by
  rw [meets_perform, Running.meets_allocate]
  obtain ⟨lists, made⟩ := intact.consistent.lists.allocate typed
  have grown : record.makers <+: record.makers ++ [element] := List.prefix_append _ _
  have moved := @Intact.move world record
    ⟨{ record.state.machine with store := (record.state.machine.store.allocate elements).2 },
      record.state.memory.make element⟩
    intact ⟨intact.consistent.scopes.imp fun _ _ held => held.grow grown, lists⟩
    (intact.rooted.transport rfl rfl) grown
  exact ⟨⟨moved.noting trivial, rfl, grown⟩, made⟩

/-- An element is replaced by a value of the type of the elements. -/
theorem perform_replace {handle index : Nat} {element : Ty} {value : Value}
    (intact : Intact world record) (made : record.makers[handle]? = some element)
    (typed : Typed record.makers element value) :
    Meets (perform scopes id (Run.replace handle index value)) record
      (fun _ final => Steady world record final) (Halted world record) := by
  rw [meets_perform, Running.meets_replace]
  have moved := @Intact.move world record
    ⟨{ record.state.machine with store := record.state.machine.store.replace handle index value },
      record.state.memory⟩
    intact ⟨intact.consistent.scopes, intact.consistent.lists.replace made typed⟩
    (intact.rooted.transport rfl rfl) List.prefix_rfl
  exact ⟨moved.noting trivial, rfl, List.prefix_rfl⟩

/-! ## Variables -/

/-- A recorded run is in the scopes of the text, in a block inside of the root. -/
structure Standing (world : World) (record : Record) (scopes : Scopes) : Prop where
  intact : Intact world record
  sees : Sees record.levels (record.levels.length - 1) scopes.levels
  inside : scopes.inner ≠ []
  knows : Knows world.functions scopes

/-- A run that stands where the text does is ready for its expressions. -/
theorem Standing.ready (standing : Standing world record scopes) : Ready world record scopes :=
  ⟨standing.intact, ⟨_, standing.sees, .inl rfl⟩, standing.knows⟩

/-- A run stands where it stood behind a steady part. -/
theorem Standing.after {final : Record} (standing : Standing world record scopes)
    (steady : Steady world record final) : Standing world final scopes :=
  ⟨steady.intact, steady.levels ▸ standing.sees, standing.inside, standing.knows⟩

/-- The innermost level, behind those that a block stands on. -/
theorem Standing.innermost (standing : Standing world record scopes) :
    ∃ front parent,
      record.state.memory.levels = front ++ [⟨some parent, scopes.innermost⟩] ∧
      parent < front.length ∧ Sees front parent scopes.levels.tail := by
  have sees := standing.sees
  obtain ⟨_ | ⟨level, outer⟩, root, functions⟩ := scopes
  · exact absurd rfl standing.inside
  · obtain ⟨second, further, shape⟩ := List.exists_cons_of_ne_nil
      (List.append_ne_nil_of_right_ne_nil outer (List.cons_ne_nil root []))
    simp only [Scopes.levels, List.cons_append, List.tail_cons, shape] at sees ⊢
    exact sees.innermost

/-- A run that stands where the text does, does so behind a declaration. -/
theorem Standing.declare {binding : Binding} {final : Record} {front : List Level} {parent : Nat}
    (standing : Standing world record scopes) (intact : Intact world final)
    (shape : final.levels = front ++ [⟨some parent, scopes.innermost ++ [binding]⟩])
    (lower : parent < front.length) (sees : Sees front parent scopes.levels.tail) :
    Standing world final (scopes.declare binding) := by
  obtain ⟨_ | ⟨level, outer⟩, root, functions⟩ := scopes
  · exact absurd rfl standing.inside
  · refine ⟨intact, ?_, by simp [Scopes.declare, Scopes.extend], standing.knows⟩
    rw [shape, List.length_append, List.length_singleton, Nat.add_sub_cancel]
    refine .block ?_ lower (sees.append _)
    rw [List.getElem?_append_right (Nat.le_refl _), Nat.sub_self]
    rfl

/-- A definition adds its binding to the current scope. -/
theorem perform_define {name : String} {type : Ty} {mutable : Bool} {value : Value}
    {binding : Binding} (standing : Standing world record scopes)
    (fresh : scopes.innermost.find? (Binding.isNamed name) = none)
    (held : Held record.makers ⟨name, type, mutable, value⟩ binding) :
    Meets (perform scopes (·.bind binding)
        (Run.change (·.defineVariable ⟨name, type, mutable, value⟩))) record
      (fun _ final => Kept world record final ∧ Standing world final (scopes.declare binding))
      (Halted world record) := by
  obtain ⟨front, parent, shape, lower, sees⟩ := standing.innermost
  obtain ⟨environment, defined, consistent, remembered, same⟩ :=
    standing.intact.consistent.define shape fresh held
  rw [meets_perform, Running.meets_change]
  refine ⟨?_, by simp [defined]⟩
  intro other otherDefined
  obtain rfl := Except.ok.inj (defined.symm.trans otherDefined)
  have occupied : 0 < front.length := by omega
  have rooted : Rooted world.root world.functions
      ⟨{ record.state.machine with environment := environment },
        record.state.memory.bind binding⟩ := by
    refine standing.intact.rooted.transport ?_ same
    rw [remembered, shape, List.getElem?_append_left occupied, List.getElem?_append_left occupied]
  have moved := standing.intact.move consistent rooted List.prefix_rfl
  have noted := @Intact.noting _ _ scopes .performed moved trivial
  refine ⟨⟨noted, ?_, ?_, List.prefix_rfl⟩, standing.declare noted remembered lower sees⟩
  · simp only [Record.noting, Record.levels, remembered, shape, List.dropLast_concat]
  · simp only [Record.noting, Record.levels, remembered, shape, List.length_append,
      List.length_singleton]

/-- An assignment leaves the scopes as they were, values apart. -/
theorem perform_setVariable {name : String} {binding : Binding} {value : Value}
    (ready : Ready world record scopes) (found : scopes.find? name = some binding)
    (typed : Typed record.makers binding.entry.type value) :
    Meets (perform scopes id (Run.change (·.setVariable name value))) record
      (fun _ final => Steady world record final) (Halted world record) := by
  obtain ⟨place, entry, search, finds⟩ := ready.lookupVariable found
  obtain ⟨environment, set, consistent, same⟩ :=
    ready.intact.consistent.setVariable search finds typed
  rw [meets_perform, Running.meets_change]
  refine ⟨?_, by simp [set]⟩
  intro other otherSet
  obtain rfl := Except.ok.inj (set.symm.trans otherSet)
  have moved := ready.intact.move consistent (ready.intact.rooted.transport rfl same)
    List.prefix_rfl
  exact ⟨moved.noting trivial, rfl, List.prefix_rfl⟩

/-! ## Scopes -/

/-- A record that is intact has a level. -/
theorem Intact.occupied (intact : Intact world record) : 0 < record.levels.length :=
  (List.getElem?_eq_some_iff.mp intact.rooted.level).1

/-- A new level leaves the record intact. -/
theorem Intact.entering {parent : Option Nat} (intact : Intact world record) :
    Intact world (record.entering scopes parent) := by
  obtain ⟨count, shape⟩ := intact.rooted.routines
  have rooted : Rooted world.root world.functions (record.entering scopes parent).state := by
    refine ⟨?_, count + 1, ?_⟩
    · simp only [Record.entering, Record.noting, Memory.enter]
      rw [List.getElem?_append_left intact.occupied]
      exact intact.rooted.level
    · rw [functionsOf] at shape
      simp only [functionsOf, Record.entering, Record.noting, Environment.openScope,
        Array.toList_push, List.map_append, shape, List.replicate_succ', List.cons_append]
      rfl
  exact (intact.move intact.consistent.enter rooted List.prefix_rfl).noting trivial

/-- The block of a new scope stands in what is seen from the parent of the scope. -/
theorem Intact.standing {parent : Option Nat} {outer : Scopes} (intact : Intact world record)
    (lower : parent.getD (record.levels.length - 1) < record.levels.length)
    (sees : Sees record.levels (parent.getD (record.levels.length - 1)) outer.levels)
    (knows : Knows world.functions outer) :
    Standing world (record.entering scopes parent) outer.enter := by
  refine ⟨intact.entering, ?_, by simp [Scopes.enter], knows⟩
  simp only [Record.entering, Record.noting, Memory.enter, Record.levels, List.length_append,
    List.length_singleton, Nat.add_sub_cancel]
  refine .block ?_ lower (sees.append _)
  rw [List.getElem?_append_right (Nat.le_refl _), Nat.sub_self]
  rfl

/-- A run that enters a block stands where the text enters it. -/
theorem Standing.entering (standing : Standing world record scopes) {around : Scopes} :
    Standing world (record.entering around none) scopes.enter := by
  have occupied := standing.intact.occupied
  exact standing.intact.standing (by simp only [Option.getD_none]; omega) standing.sees
    standing.knows

/-- A new level stands behind those of before. -/
theorem entering_levels (record : Record) (scopes : Scopes) (parent : Option Nat) :
    (record.entering scopes parent).levels =
      record.levels ++ [⟨some (parent.getD (record.levels.length - 1)), []⟩] :=
  rfl

/-- A scope that has been opened can be closed again, whatever has happened in it, and
leaves the levels as they were before. -/
theorem Intact.leaving {parent : Option Nat} {after : Record} (intact : Intact world record)
    (inner : Intact world after)
    (outer : after.levels.dropLast = (record.entering scopes parent).levels.dropLast)
    (depth : after.levels.length = (record.entering scopes parent).levels.length) :
    ∃ environment, after.state.machine.environment.closeScope
        (record.state.machine.environment.openScope parent).current = .ok environment ∧
      Intact world (after.leaving scopes environment) ∧
      (after.leaving scopes environment).levels = record.levels := by
  have occupied := intact.occupied
  rw [entering_levels, List.length_append, List.length_singleton] at depth
  rw [entering_levels, List.dropLast_concat] at outer
  have current : (record.state.machine.environment.openScope parent).current =
      after.state.machine.environment.current := by
    have opened := intact.consistent.scopes.length_eq
    rw [Array.length_toList] at opened
    rw [inner.consistent.current, depth, Nat.add_sub_cancel]
    simpa [Environment.current, Environment.openScope] using opened
  have deep : after.state.machine.environment.scopes.toList.length = record.levels.length + 1 :=
    inner.consistent.scopes.length_eq.trans depth
  obtain ⟨environment, closed, consistent, same⟩ :=
    inner.consistent.leave (by rw [← inner.consistent.scopes.length_eq]; omega)
  obtain ⟨count, shape⟩ := inner.rooted.routines
  have rooted : Rooted world.root world.functions
      ⟨{ after.state.machine with environment := environment }, after.state.memory.leave⟩ := by
    refine ⟨?_, count - 1, ?_⟩
    · change after.levels.dropLast[0]? = _
      rw [outer]
      exact intact.rooted.level
    · have size := congrArg List.length shape
      simp only [functionsOf, List.length_map, List.length_cons, List.length_replicate] at size
      obtain ⟨inside, rfl⟩ : ∃ inside, count = inside + 1 := ⟨count - 1, by omega⟩
      rw [same, shape, List.dropLast_cons_of_ne_nil (by simp), List.dropLast_replicate]
  have moved := inner.move consistent rooted List.prefix_rfl
  rw [current]
  exact ⟨environment, closed, @Intact.noting _ _ scopes .closed moved trivial, outer⟩

/-- An action in a new scope is run in the level that is entered, which is left behind it,
however it ends. -/
theorem inScope_run {parent : Option Nat} {body : Recorded β} :
    (inScope scopes parent body).run record =
      match body.run (record.entering scopes parent) with
      | (result, after) =>
        match after.state.machine.environment.closeScope
            (record.state.machine.environment.openScope parent).current with
        | .ok environment => (result, after.leaving scopes environment)
        | .error fault => (.error (.fault (.scope fault)), after) :=
  rfl

/-- A part of a run in a scope of its own leaves all scopes as they were. -/
theorem meets_inScope {parent : Option Nat} {body : Recorded β} (given : List Ty → β → Prop)
    (intact : Intact world record)
    (meets : Meets body (record.entering scopes parent)
      (fun value final => Kept world (record.entering scopes parent) final ∧
        given final.makers value)
      (Halted world (record.entering scopes parent))) :
    Meets (inScope scopes parent body) record
      (fun value final => Steady world record final ∧ given final.makers value)
      (Halted world record) := by
  unfold Meets at *
  rw [inScope_run]
  cases ended : body.run (record.entering scopes parent) with
  | mk outcome after =>
    rw [ended] at meets
    cases outcome with
    | ok value =>
      obtain ⟨kept, holds⟩ := meets
      obtain ⟨environment, closed, left, restored⟩ :=
        intact.leaving kept.intact kept.outer kept.depth
      simp only [closed]
      exact ⟨⟨left, restored, kept.makers⟩, holds⟩
    | error stop =>
      have halted : Halted world (record.entering scopes parent) stop after := meets
      obtain ⟨environment, closed, left, restored⟩ :=
        intact.leaving halted.intact halted.outer halted.depth
      simp only [closed]
      exact ⟨left, by rw [restored], by rw [restored], halted.excused.append _⟩

end Blockscript.Chronicle
