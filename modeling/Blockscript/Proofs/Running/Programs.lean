import Blockscript.Proofs.Running.Preservation

/-!
# Runs of typed programs

A run starts with one empty scope. The globals are defined there one behind the other,
and then the functions. What is known of the root grows with each, up to what the
functions of the program need when they are called.
-/

namespace Blockscript.Chronicle

open Running (Body Machine Outcome Run Meets)

variable {program : Program .checked} {seen : Scopes → Expr .checked → Prop} {record : Record}
  {scopes : Scopes}

/-- What is promised of a run that stops. -/
structure Stopped (program : Program .checked) (seen : Scopes → Expr .checked → Prop)
    (stop : Stop) (record : Record) : Prop where
  faithful : Faithful program seen record
  excused : Excused record.moments stop

/-- A part that is halted stops the run of its program. -/
theorem Halted.stopped {world : World} {stop : Stop} {final : Record}
    (halted : Halted world record stop final) : Stopped world.program world.seen stop final :=
  ⟨halted.intact.toFaithful, halted.excused⟩

/-- Some globals have been defined. -/
def World.behindGlobals (typed : ProgramTyped seen program) (root : List Binding) : World :=
  ⟨program, seen, typed, root, [], List.nil_prefix, fun none => absurd rfl none⟩

/-- All globals have been defined, and some functions. -/
def World.behindFunctions (typed : ProgramTyped seen program)
    {functions : List (FunctionDef .checked)} (known : functions <+: program.functions) : World :=
  ⟨program, seen, typed, program.bindings, functions, known, fun _ => rfl⟩

/-- Between definitions the root is the only scope. -/
structure Outside (world : World) (record : Record) : Prop extends Intact world record where
  alone : record.levels.length = 1

variable {world : World}

/-- Outside of all functions only the root is open. -/
theorem Outside.levels (outside : Outside world record) :
    record.state.memory.levels = [⟨none, world.root⟩] := by
  obtain ⟨level, shape⟩ := List.length_eq_one_iff.mp outside.alone
  have root := outside.rooted.level
  simp only [Record.levels] at shape
  rw [shape] at root ⊢
  rw [Option.some.inj root]

/-- A steady part leaves the run outside of all functions. -/
theorem Outside.after {final : Record} (outside : Outside world record)
    (steady : Steady world record final) : Outside world final :=
  ⟨steady.intact, steady.levels ▸ outside.alone⟩

/-- In the root the functions that have been defined are known. -/
theorem knows_definedScopes {root : List Binding} {functions : List (FunctionDef .checked)}
    (lengths : ∀ other ∈ functions, other.parameters.length = other.routine.parameters.length) :
    Knows functions (definedScopes root functions) :=
  ⟨bodies functions, List.prefix_rfl, meant_settled lengths⟩

/-- Outside of all functions a run is ready for expressions over the root. -/
theorem Outside.ready (outside : Outside world record) :
    Ready world record (definedScopes world.root world.functions) := by
  have sees : Sees record.levels (record.levels.length - 1) [world.root] := by
    rw [outside.alone]
    exact .root outside.rooted.level
  refine ⟨outside.toIntact, ⟨_, sees, .inl rfl⟩, knows_definedScopes fun other member => ?_⟩
  exact world.typed.lengths other (world.known.subset member)

/-! ## Globals -/

/-- The definition of a global adds its binding to the root. -/
theorem perform_global {typed : ProgramTyped seen program} {root : List Binding} {name : String}
    {mutable : Bool} {value : Value} {binding : Binding} {halt : Stop → Record → Prop}
    (outside : Outside (.behindGlobals typed root) record)
    (fresh : root.find? (Binding.isNamed name) = none)
    (held : Held record.makers ⟨name, value.kind, mutable, value⟩ binding) :
    Meets (perform scopes (·.bind binding) (Running.define name mutable value)) record
      (fun _ final => Outside (.behindGlobals typed (root ++ [binding])) final) halt := by
  have shape : record.state.memory.levels = [] ++ [⟨none, root⟩] := outside.levels
  obtain ⟨environment, defined, consistent, remembered, same⟩ :=
    outside.consistent.define shape fresh held
  rw [meets_perform, Running.define, Running.meets_change]
  refine ⟨?_, by simp [defined]⟩
  intro other otherDefined
  obtain rfl := Except.ok.inj (defined.symm.trans otherDefined)
  have moved := outside.toFaithful.move consistent List.prefix_rfl
  have routines := outside.rooted.routines
  rw [← same] at routines
  refine ⟨⟨@Faithful.noting _ _ _ scopes .performed moved trivial, ?_, routines⟩, ?_⟩
  · exact congrArg (·[0]?) remembered
  · exact congrArg List.length remembered

/-- A global is evaluated outside of all functions, and then is one of the root. -/
theorem executeGlobal_outside {typed : ProgramTyped seen program} {root : List Binding}
    {definition : GlobalDef .checked} (globalTyped : GlobalTyped seen root definition)
    (outside : Outside (.behindGlobals typed root) record) (budget : Nat) :
    Meets (executeGlobal program budget root definition) record
      (fun _ final =>
        Outside (.behindGlobals typed (root ++ [definition.binding root.length])) final)
      (Stopped program seen) := by
  unfold executeGlobal
  rw [Running.meets_bind]
  have evaluated := (specs (.behindGlobals typed root) budget).evaluateOptional globalTyped.value
    outside.ready
  refine evaluated.imp ?_ fun _ _ halted => halted.stopped
  rintro value first ⟨steady, holds⟩
  rw [Running.meets_bind]
  refine (perform_global (outside.after steady) globalTyped.fresh
    ⟨globalTyped.name.symm, globalTyped.mutable.symm, holds⟩).imp ?_ fun _ _ stopped => stopped
  intro _ second defined
  exact (perform_trace defined.toIntact).imp (fun _ _ traced => defined.after traced)
    fun _ _ halted => halted.stopped

/-- Globals are evaluated outside of all functions, one behind another. -/
theorem executeGlobals_outside {typed : ProgramTyped seen program} (budget : Nat) :
    ∀ {root : List Binding} {definitions : List (GlobalDef .checked)} {record : Record},
      GlobalsTyped seen root definitions → Outside (.behindGlobals typed root) record →
      Meets (executeGlobals program budget root definitions) record
        (fun _ final => Outside (.behindGlobals typed (root ++
          definitions.mapIdx fun index definition => definition.binding (root.length + index)))
          final)
        (Stopped program seen)
  | root, [], record, _, outside => by
    unfold executeGlobals
    simpa using outside
  | root, first :: rest, record, .cons firstTyped restTyped, outside => by
    unfold executeGlobals
    rw [Running.meets_bind]
    refine (executeGlobal_outside firstTyped outside budget).imp ?_ fun _ _ stopped => stopped
    intro _ middle grown
    refine (executeGlobals_outside budget restTyped grown).imp ?_ fun _ _ stopped => stopped
    intro _ final done
    simpa [List.mapIdx_cons, Nat.add_assoc, Nat.add_comm 1] using done

/-! ## Functions -/

/-- A function with a new name or arity can be defined in the only scope. -/
theorem Consistent.defineFunction {state : State} {level : Level}
    {routine : Routine (Body .checked)} {known : List (Routine (Body .checked))}
    (consistent : Consistent state) (alone : state.memory.levels = [level])
    (functions : functionsOf state.machine.environment = [known])
    (fresh : known.find? (fun other =>
      other.name = routine.name && other.arity = routine.arity) = none) :
    ∃ environment, state.machine.environment.defineFunction routine = .ok environment ∧
      Consistent ⟨{ state.machine with environment := environment }, state.memory⟩ ∧
      functionsOf environment = [known ++ [routine]] := by
  have held := consistent.scopes
  rw [alone] at held
  generalize shape : state.machine.environment.scopes.toList = opened at held
  cases held with
  | @cons scope _ _ _ here none =>
    cases none
    have scopes : state.machine.environment.scopes = #[scope] := Array.toList_inj.mp shape
    obtain rfl : scope.functions = known := by
      simpa [functionsOf, scopes] using functions
    have current : state.machine.environment.currentScope = scope := by
      simp [Environment.currentScope, Environment.current, scopes]
    have grown : (state.machine.environment.modifyCurrent fun scope =>
        { scope with functions := scope.functions ++ [routine] }).scopes =
        #[{ scope with functions := scope.functions ++ [routine] }] := by
      simp [Environment.modifyCurrent, Environment.current, scopes]
    refine ⟨state.machine.environment.modifyCurrent fun scope =>
      { scope with functions := scope.functions ++ [routine] }, ?_, ⟨?_, consistent.lists⟩, ?_⟩
    · refine Environment.defineFunction_ok_iff.mpr ⟨?_, rfl⟩
      rw [current, Scope.findFunction, fresh]
    · rw [grown, alone]
      exact .cons ⟨here.parent, here.entries, here.distinct⟩ .nil
    · rw [functionsOf, grown]
      rfl

/-- A function that is not known in the text is not known to the run either. -/
theorem find_meant_none {statics : List (Routine Unit)} {taken : List (Body .checked)}
    (meant : List.Forall₂ Meant statics taken) {name : String} {arity : Nat}
    (absent : statics.find? (fun routine => routine.name = name && routine.arity = arity) = none) :
    (taken.map routineOf).find? (fun routine => routine.name = name && routine.arity = arity) =
      none := by
  rw [List.find?_eq_none] at absent ⊢
  intro routine member
  obtain ⟨body, inside, rfl⟩ := List.mem_map.mp member
  obtain ⟨position, bound, rfl⟩ := List.mem_iff_getElem.mp inside
  have lengths := meant.length_eq
  have same : Meant statics[position] taken[position] :=
    (List.forall₂_iff_get.mp meant).2 position (by omega) bound
  have unlike := absent statics[position] (List.getElem_mem _)
  simpa [← same.name, ← same.arity] using unlike

/-- The functions of the only scope are those that have been defined. -/
theorem Outside.functions (outside : Outside world record) :
    functionsOf record.state.machine.environment = [(bodies world.functions).map routineOf] := by
  obtain ⟨count, shape⟩ := outside.rooted.routines
  have opened := outside.consistent.scopes.length_eq.trans outside.alone
  have size := congrArg List.length shape
  simp only [functionsOf, List.length_map, opened, List.length_cons, List.length_replicate] at size
  obtain rfl : count = 0 := by omega
  exact shape

/-- The definition of a function adds it to those of the root. -/
theorem perform_function {typed : ProgramTyped seen program}
    {before rest : List (FunctionDef .checked)} {definition : FunctionDef .checked}
    {known : before <+: program.functions} (more : before ++ [definition] <+: program.functions)
    (split : program.functions = before ++ definition :: rest) {halt : Stop → Record → Prop}
    (outside : Outside (.behindFunctions typed known) record) :
    Meets (perform scopes id (Running.defineFunction definition)) record
      (fun _ final => Outside (.behindFunctions typed more) final) halt := by
  have definitionTyped := typed.functions before definition rest split
  have settled := meant_settled fun other member => typed.lengths other (known.subset member)
  have arity : (routineOf (.script definition 0)).arity = definition.arity := by
    simp [routineOf, Routine.arity, FunctionDef.arity]
  have fresh : ((bodies before).map routineOf).find? (fun other =>
      other.name = (routineOf (.script definition 0)).name &&
        other.arity = (routineOf (.script definition 0)).arity) = none := by
    rw [arity]
    exact find_meant_none settled definitionTyped.fresh
  obtain ⟨environment, defined, consistent, functions⟩ :=
    outside.consistent.defineFunction outside.levels outside.functions fresh
  have current : record.state.machine.environment.current = 0 := by
    rw [outside.consistent.current, outside.levels]
    rfl
  rw [meets_perform]
  simp only [Running.defineFunction, Running.meets_bind, Running.meets_get, Running.meets_change,
    current]
  refine ⟨?_, fun fault refused => by cases defined.symm.trans refused⟩
  intro other otherDefined
  obtain rfl := Except.ok.inj (defined.symm.trans otherDefined)
  apply Running.meets_trace_told
  intro machine changed same
  have now : Consistent ⟨machine, record.state.memory⟩ :=
    ⟨changed ▸ consistent.scopes, same ▸ consistent.lists⟩
  have moved := outside.toFaithful.move now List.prefix_rfl
  refine ⟨⟨@Faithful.noting _ _ _ scopes .performed moved trivial, outside.rooted.level, 0, ?_⟩,
    outside.alone⟩
  have shape : (bodies (before ++ [definition])).map routineOf =
      (bodies before).map routineOf ++ [routineOf (.script definition 0)] := by
    simp [bodies]
  exact (congrArg functionsOf changed).trans (functions.trans (congrArg ([·]) shape.symm))

/-- Functions are defined outside of all functions, one behind another. -/
theorem defineFunctions_outside {typed : ProgramTyped seen program} :
    ∀ {before rest : List (FunctionDef .checked)} {scopes : Scopes} {record : Record}
      (known : before <+: program.functions) (_ : program.functions = before ++ rest),
      Outside (.behindFunctions typed known) record →
      Meets (defineFunctions scopes rest) record
        (fun _ final => Outside (.behindFunctions typed (List.prefix_refl program.functions)) final)
        (Stopped program seen)
  | before, [], scopes, record, known, split, outside => by
    unfold defineFunctions
    rw [List.append_nil] at split
    subst split
    exact outside
  | before, first :: rest, scopes, record, known, split, outside => by
    unfold defineFunctions
    have more : before ++ [first] <+: program.functions := ⟨rest, by simp [split]⟩
    rw [Running.meets_bind]
    refine (perform_function more split outside).imp ?_ fun _ _ stopped => stopped
    intro _ middle defined
    exact defineFunctions_outside more (by simp [split]) defined

/-! ## Programs -/

/-- At the start nothing has been defined. -/
theorem Outside.initial (typed : ProgramTyped seen program) (detail : Nat) :
    Outside (.behindGlobals typed []) (Record.initial detail) := by
  have consistent : Consistent (Record.initial detail).state :=
    ⟨.cons ⟨rfl, .nil, List.nodup_nil⟩ .nil, lists_empty⟩
  refine ⟨⟨⟨consistent, ?_, List.pairwise_singleton _ _⟩, rfl, 0, rfl⟩, rfl⟩
  intro moment member
  cases member

/-- Behind the globals of a program its functions can be defined. -/
theorem Outside.defining {typed : ProgramTyped seen program}
    (outside : Outside (.behindGlobals typed ([] ++ program.globals.mapIdx
      fun index definition => definition.binding (([] : List Binding).length + index))) record) :
    Outside (.behindFunctions typed List.nil_prefix) record := by
  have root : ([] ++ program.globals.mapIdx fun index definition =>
      definition.binding (([] : List Binding).length + index)) = program.bindings := by
    simp [Program.bindings]
  rw [root] at outside
  exact ⟨⟨outside.toFaithful, outside.rooted⟩, outside.alone⟩

/-- The `main` of a typed program is known once all functions are. It has no parameters and
gives an integer. -/
theorem main_known (typed : ProgramTyped seen program) :
    ∃ main, (definedScopes program.bindings program.functions).routine? "main" 0 = some main ∧
      main.parameters = [] ∧ main.result = some .integer := by
  obtain ⟨definition, member, name, parameters, result⟩ := typed.main
  obtain ⟨before, after, split⟩ := List.append_of_mem member
  have here := typed.functions before definition after split
  have none : definition.routine.parameters = [] := by
    rw [← List.length_eq_zero_iff, ← here.lengths, parameters, List.length_nil]
  have arity : definition.arity = 0 := congrArg List.length parameters
  have fresh := here.fresh
  rw [name, arity] at fresh
  refine ⟨definition.settled, ?_, none, congrArg some result⟩
  rw [Scopes.routine?, definedScopes, split, List.map_append, List.map_cons, ← List.cons_append,
    List.find?_append, fresh, Option.none_or]
  exact List.find?_cons_of_pos (by simp [FunctionDef.settled, Routine.arity, name, none])

/-- A run of a typed program is as promised, and what it gives is of the integers. -/
theorem runProgram_faithful (typed : ProgramTyped seen program) (budget detail : Nat) :
    Meets (runProgram program budget) (Record.initial detail)
      (fun value final => Faithful program seen final ∧ Typed final.makers .integer value)
      (Stopped program seen) := by
  unfold runProgram
  rw [Running.meets_bind]
  refine (executeGlobals_outside budget typed.globals (Outside.initial typed detail)).imp ?_
    fun _ _ stopped => stopped
  intro _ first globals
  rw [Running.meets_bind]
  refine (defineFunctions_outside List.nil_prefix rfl globals.defining).imp ?_
    fun _ _ stopped => stopped
  intro _ second defined
  rw [Running.meets_bind]
  obtain ⟨main, found, parameters, result⟩ := main_known typed
  refine (perform_lookupFunction defined.ready found).imp ?_ fun _ _ halted => halted.stopped
  rintro routine third ⟨steady, body, member, rfl, means⟩
  have passed : List.Forall₂ (Typed third.makers) (signature body).parameters [] := by
    rw [← means.parameters, parameters]
    exact .nil
  have integer : Ty.integer = (signature body).result := means.result .integer (by simp [result])
  refine ((specs _ budget).invoke member passed steady.intact).imp ?_
    fun _ _ halted => halted.stopped
  rintro value final ⟨answered, holds⟩
  exact ⟨answered.intact.toFaithful, integer ▸ holds⟩

/-- The chronicle of a run of a typed program is as promised, and so is its end. -/
theorem run_faithful (typed : ProgramTyped seen program) (budget detail : Nat) :
    Faithful program seen (run program budget detail).2 ∧
      ∀ stop, (run program budget detail).1 = .error stop →
        Excused (run program budget detail).2.moments stop := by
  have meets := runProgram_faithful typed budget detail
  unfold Meets at meets
  unfold run
  split at meets
  · next value final outcome =>
    rw [outcome]
    exact ⟨meets.1, by simp⟩
  · next stop final outcome =>
    rw [outcome]
    refine ⟨meets.faithful, ?_⟩
    rintro other ⟨⟩
    exact meets.excused

end Blockscript.Chronicle
