import Blockscript.CommandLine
import Blockscript.Proofs.Grammar.Exactness
import Blockscript.Proofs.Running.Fidelity
import Blockscript.Proofs.Running.Programs
import Mathlib

/-!
# Accepted programs run soundly

What reading and checking a text promise of every run of it. All values are of the
types that the checker gave to what they belong to, as long as they are around; what a
name means does not depend on the run; and few things can go wrong.
-/

namespace Blockscript.Chronicle

open Running (Body)

variable {source : String} {tree : Program .checked}

/-- An accepted text is a program that the checker has typed. -/
theorem checkedProgram_typed (accepted : checkedProgram source = .ok tree) :
    ∃ program, parseProgram source = .ok program ∧
      ProgramTyped (Typing.Checked program) tree := by
  unfold checkedProgram at accepted
  split at accepted
  · cases accepted
  · next program parsed =>
    split at accepted
    · cases accepted
    · next checked checker outcome =>
      obtain rfl := Except.ok.inj accepted
      refine ⟨program, parsed, ?_⟩
      obtain ⟨tokens, phrase⟩ := Grammar.parseProgram_derives parsed
      exact (Typing.check_sound phrase outcome).1

/-! ## Types of values -/

/-- The states at the moments of a record, and the one at its end. -/
def Record.states (record : Record) : List State :=
  record.moments.map Moment.state ++ [record.state]

/-- Every variable has a binding that it comes from, and every list an element type. -/
structure State.Accounted (state : State) : Prop where
  scopes : List.Forall₂ (fun scope level => scope.parent = level.parent ∧
      List.Forall₂ (fun entry binding => entry.name = binding.entry.name) scope.entries
        level.bindings)
    state.machine.environment.scopes.toList state.memory.levels
  lists : state.memory.makers.length = state.machine.store.lists.size

/-- A value that a state holds, and the type under which it is held there: that of the
definition of a variable, or the element type of a list. -/
inductive State.Holds (state : State) : Ty → Value → Prop where
  | variableOf {place index : Nat} {scope : Scope Value (Body .checked)} {level : Level}
      {entry : Variable Value} {binding : Binding} :
      state.machine.environment.scopes[place]? = some scope →
      state.memory.levels[place]? = some level →
      scope.entries[index]? = some entry → level.bindings[index]? = some binding →
      Holds state binding.entry.type entry.value
  | cellOf {handle : Nat} {element : Ty} {value : Value} :
      state.memory.makers[handle]? = some element → value ∈ state.machine.store.elements handle →
      Holds state element value

/-- A value that an event is about, and the type that is given to it in the text. -/
inductive Event.Gives : Event → Ty → Value → Prop where
  | expression {node : Expr .checked} {value : Value} : Gives (.given node value) node.type value
  | argument {body : Body .checked} {arguments : List Value} {index : Nat} {type : Ty}
      {value : Value} :
      (signature body).parameters[index]? = some type → arguments[index]? = some value →
      Gives (.called body arguments) type value
  | result {body : Body .checked} {value : Value} :
      Gives (.answered body value) (signature body).result value

variable {program : Program .checked} {seen : Scopes → Expr .checked → Prop} {record : Record}

/-- In a consistent state everything is accounted for. -/
theorem Consistent.accounted {state : State} (consistent : Consistent state) :
    state.Accounted := by
  refine ⟨consistent.scopes.imp fun scope level held => ?_, consistent.lists.made⟩
  exact ⟨held.parent, held.entries.imp fun _ _ entry => entry.name⟩

/-- In a consistent state every value is of the type under which it is held. -/
theorem Consistent.holds {state : State} {type : Ty} {value : Value}
    (consistent : Consistent state) (holds : state.Holds type value) :
    Typed state.memory.makers type value := by
  cases holds with
  | @variableOf place index scope level entry binding there levelThere inside bound =>
    obtain ⟨other, otherThere, held⟩ := consistent.scope levelThere
    obtain rfl := Option.some.inj (there.symm.trans otherThere)
    obtain ⟨position, rfl⟩ := List.getElem?_eq_some_iff.mp inside
    obtain ⟨bindingPosition, rfl⟩ := List.getElem?_eq_some_iff.mp bound
    exact ((List.forall₂_iff_get.mp held.entries).2 index position bindingPosition).typed
  | cellOf made member => exact consistent.lists.hold _ _ made _ member

/-- A sound event gives a value of the type under which it is given. -/
theorem Event.Sound.gives {event : Event} {scopes : Scopes} {state : State} {type : Ty}
    {value : Value} (sound : event.Sound program seen scopes state)
    (gives : event.Gives type value) : Typed state.memory.makers type value := by
  cases gives with
  | expression => exact sound
  | @argument body arguments index type value parameter argument =>
    obtain ⟨position, rfl⟩ := List.getElem?_eq_some_iff.mp parameter
    obtain ⟨argumentPosition, rfl⟩ := List.getElem?_eq_some_iff.mp argument
    exact (List.forall₂_iff_get.mp sound).2 index position argumentPosition
  | result => exact sound

/-- A faithful record has gone through consistent states. -/
theorem Faithful.states (faithful : Faithful program seen record) :
    ∀ state ∈ record.states, Consistent state := by
  intro state member
  rcases List.mem_append.mp member with earlier | last
  · obtain ⟨moment, inside, rfl⟩ := List.mem_map.mp earlier
    exact (faithful.moments moment inside).consistent
  · rw [List.mem_singleton.mp last]
    exact faithful.consistent

/-- What has been made by a state has been made by every later one. -/
theorem Faithful.makers (faithful : Faithful program seen record) {first second : Nat}
    {earlier later : State} (order : first ≤ second)
    (there : record.states[first]? = some earlier)
    (after : record.states[second]? = some later) :
    earlier.memory.makers <+: later.memory.makers := by
  rcases Nat.eq_or_lt_of_le order with rfl | before
  · rw [Option.some.inj (there.symm.trans after)]
  · have history : (record.states.map (·.memory.makers)).Pairwise (· <+: ·) := by
      simpa [Record.states, Function.comp_def] using faithful.history
    rw [List.pairwise_map] at history
    obtain ⟨position, rfl⟩ := List.getElem?_eq_some_iff.mp there
    obtain ⟨laterPosition, rfl⟩ := List.getElem?_eq_some_iff.mp after
    exact List.pairwise_iff_getElem.mp history first second position laterPosition before

/-- All values of a record are of their types from when they are there on, down to the
elements of lists and as long as those are changed. -/
structure Record.Conforming (record : Record) : Prop where
  accounted : ∀ state ∈ record.states, state.Accounted
  arity : ∀ moment ∈ record.moments, ∀ body arguments, moment.event = .called body arguments →
    arguments.length = (signature body).parameters.length
  held : ∀ (first second : Nat) earlier later type value, first ≤ second →
    record.states[first]? = some earlier → record.states[second]? = some later →
    earlier.Holds type value → value.Conforms later.machine.store type
  given : ∀ (first second : Nat) moment later type value, first ≤ second →
    record.moments[first]? = some moment → record.states[second]? = some later →
    moment.event.Gives type value → value.Conforms later.machine.store type

/-- The values of a faithful record conform to their types from when they are there on. -/
theorem Faithful.conforming (faithful : Faithful program seen record) : record.Conforming where
  accounted state member := (faithful.states state member).accounted
  arity moment member body arguments called := by
    have sound := (faithful.moments moment member).event
    rw [called] at sound
    exact sound.length_eq.symm
  held first second earlier later type value order there after holds := by
    have typed := (faithful.states earlier (List.mem_of_getElem? there)).holds holds
    have lists := (faithful.states later (List.mem_of_getElem? after)).lists
    exact (typed.grow (faithful.makers order there after)).conforms lists
  given first second moment later type value order there after gives := by
    have typed := (faithful.moments moment (List.mem_of_getElem? there)).event.gives gives
    have lists := (faithful.states later (List.mem_of_getElem? after)).lists
    have inside := (List.getElem?_eq_some_iff.mp there).1
    have state : record.states[first]? = some moment.state := by
      rw [Record.states, List.getElem?_append_left (by simpa using inside), List.getElem?_map,
        there]
      rfl
    exact (typed.grow (faithful.makers order state after)).conforms lists

/-- The chronicle of a run of an accepted text is that of the run, and all values in it
are of their types: those of expressions, of arguments and of calls, and those in the
variables of all open scopes and in all lists, at every moment and at all later ones. -/
theorem values_conform (accepted : checkedProgram source = .ok tree) (budget detail : Nat) :
    ((run tree budget detail).1, (run tree budget detail).2.state.machine) =
        Running.run budget detail tree ∧
      (run tree budget detail).2.Conforming := by
  obtain ⟨program, _, typed⟩ := checkedProgram_typed accepted
  exact ⟨run_tells tree budget detail, (run_faithful typed budget detail).1.conforming⟩

/-- A text that replaces an element of a list. -/
def replacing : String :=
  "VAR xs = [1]; FUN main() DO xs[0] = 2; RETURN xs[0]; END"

/-- Its program. -/
def replacingTree : Program .checked :=
  let xs : Variable Unit := ⟨"xs", .list .integer, true, ()⟩
  let first : Expr .checked := .element .integer xs "xs" (.literal .integer (.integer 0))
  { globals := [⟨"xs", none, true,
      some (.list (.list .integer) [.literal .integer (.integer 1)]), xs⟩]
    functions := [⟨"main", [], [], none,
      [.assignment first (.literal .integer (.integer 2)), .returning first], ⟨[], .integer⟩⟩] }

/-- A program that replaces elements of lists leaves a record whose values conform. -/
theorem replacing_conforms :
    checkedProgram replacing = .ok replacingTree ∧
      (run replacingTree 20 0).2.Conforming := by
  have accepted : checkedProgram replacing = .ok replacingTree := by cbv
  exact ⟨accepted, (values_conform accepted 20 0).2⟩

/-! ## Meanings of names -/

/-- Whenever a run of an accepted text is about to look up the name on an expression, the
checker has come to that expression in scopes of the text; the scopes of the run continue
in one another as those do; and the lookup succeeds and finds what the checker has found
for the name, in the scope and at the position there that stand for the same definition. -/
theorem names_resolve_alike (accepted : checkedProgram source = .ok tree) (budget detail : Nat) :
    ((run tree budget detail).1, (run tree budget detail).2.state.machine) =
        Running.run budget detail tree ∧
      ∃ program, parseProgram source = .ok program ∧
        ∀ moment ∈ (run tree budget detail).2.moments, ∀ node, moment.event = .resolving node →
          Typing.Checked program moment.scopes node ∧
          Aligned moment.state.memory.levels moment.scopes ∧
          Resolves tree moment.scopes moment.state node := by
  obtain ⟨program, parsed, typed⟩ := checkedProgram_typed accepted
  refine ⟨run_tells tree budget detail, program, parsed, ?_⟩
  intro moment member node resolving
  have sound := ((run_faithful typed budget detail).1.moments moment member).event
  rw [resolving] at sound
  exact sound

/-- A text in which a declaration hides a global. -/
def shadowing : String :=
  "VAL a = 1; FUN main() DO LET a = 2; RETURN a; END"

/-- Its program. -/
def shadowingTree : Program .checked :=
  let outer : Variable Unit := ⟨"a", .integer, false, ()⟩
  let inner : Variable Unit := ⟨"a", .integer, true, ()⟩
  { globals := [⟨"a", none, false, some (.literal .integer (.integer 1)), outer⟩]
    functions := [⟨"main", [], [], none,
      [.declaration inner "a" none (some (.literal .integer (.integer 2))),
        .returning (.access .integer inner "a")], ⟨[], .integer⟩⟩] }

/-- The binding of the variable that is about to be looked up. -/
def Moment.binding? (moment : Moment) : Option Binding :=
  match moment.event with
  | .resolving (.access _ _ name) | .resolving (.element _ _ name _) => moment.scopes.find? name
  | _ => none

/-- The name that is returned is that of the declaration, in the text and in the run. -/
theorem shadowing_resolves :
    checkedProgram shadowing = .ok shadowingTree ∧
      (run shadowingTree 20 0).2.moments.filterMap Moment.binding? =
        [⟨.declaration [0, 0], ⟨"a", .integer, true, ()⟩⟩] ∧
      ∃ program, parseProgram shadowing = .ok program ∧
        ∀ moment ∈ (run shadowingTree 20 0).2.moments, ∀ node,
          moment.event = .resolving node →
          Typing.Checked program moment.scopes node ∧
          Aligned moment.state.memory.levels moment.scopes ∧
          Resolves shadowingTree moment.scopes moment.state node := by
  have accepted : checkedProgram shadowing = .ok shadowingTree := by cbv
  exact ⟨accepted, by cbv, (names_resolve_alike accepted 20 0).2⟩

/-! ## Failures -/

/-- Whether checking a text rules the fault out: a name that is missing or defined twice, a
scope that is not closed in order, or a part of a program that no run knows. -/
def RuledOut : RunFault → Prop
  | .scope _ | .integerTooLarge _ | .unknownOperator _ | .notPlace | .strayCase => True
  | _ => False

/-- A fault that is excused is none of those that checked programs do not meet. -/
theorem Excused.not_ruledOut {moments : List Moment} {fault : RunFault}
    (excused : Excused moments (.fault fault)) : ¬RuledOut fault := by
  intro ruledOut
  rcases excused with pardoned | ⟨moment, _, explains⟩
  · cases fault <;> first | exact ruledOut | exact pardoned
  · unfold Moment.Explains at explains
    split at explains
    · obtain ⟨_, _, apart | strained⟩ := explains
      · obtain ⟨_, _, _, _, rfl⟩ := apart
        exact ruledOut
      · obtain ⟨_, _, _, _, _, _, rfl⟩ := strained
        exact ruledOut
    · exact explains

/-- A run of an accepted text that fails has met a fault that may be met anywhere, or one
of the operands in its chronicle: an order of two kinds that only share being comparable,
or a decimal that leaves the exponent range. Among the faults that may be met anywhere is that
of an integer with too many digits, which cannot be written. -/
theorem failures_foreseen (accepted : checkedProgram source = .ok tree) {budget detail : Nat}
    {fault : RunFault} (failed : (Running.run budget detail tree).1 = .error (.fault fault)) :
    ((run tree budget detail).1, (run tree budget detail).2.state.machine) =
        Running.run budget detail tree ∧
      ¬RuledOut fault ∧
      (Pardoned fault ∨
        ∃ moment ∈ (run tree budget detail).2.moments, moment.Explains fault) := by
  obtain ⟨program, _, typed⟩ := checkedProgram_typed accepted
  have tells := run_tells tree budget detail
  have stopped : (run tree budget detail).1 = .error (.fault fault) := by
    rw [← failed, ← tells]
  have excused : Excused _ (.fault fault) := (run_faithful typed budget detail).2 _ stopped
  exact ⟨tells, excused.not_ruledOut, excused⟩

/-- A text that orders two values of different kinds. -/
def ordering : String :=
  "VAL a : Comparable = 1; VAL b : Comparable = 'x'; FUN main() DO print(a < b); RETURN 1; END"

/-- Its program. -/
def orderingTree : Program .checked :=
  let a : Variable Unit := ⟨"a", .comparable, false, ()⟩
  let b : Variable Unit := ⟨"b", .comparable, false, ()⟩
  { globals := [⟨"a", some "Comparable", false, some (.literal .integer (.integer 1)), a⟩,
      ⟨"b", some "Comparable", false, some (.literal .character (.character "x")), b⟩]
    functions := [⟨"main", [], [], none,
      [.expression (.call .nil ⟨[.any], .nil⟩ "print"
          [.binary .boolean "<" (.access .comparable a "a") (.access .comparable b "b")]),
        .returning (.literal .integer (.integer 1))], ⟨[], .integer⟩⟩] }

/-- A program that orders an integer and a character stops, and a moment of its record explains
why. -/
theorem ordering_foreseen :
    checkedProgram ordering = .ok orderingTree ∧
      (Running.run 20 0 orderingTree).1 = .error (.fault (.incomparable .integer .character)) ∧
      ∃ moment ∈ (run orderingTree 20 0).2.moments,
        moment.Explains (.incomparable .integer .character) := by
  have accepted : checkedProgram ordering = .ok orderingTree := by cbv
  have failed : (Running.run 20 0 orderingTree).1 =
      .error (.fault (.incomparable .integer .character)) := by
    cbv
  refine ⟨accepted, failed, ?_⟩
  rcases (failures_foreseen accepted failed).2.2 with pardoned | explained
  · simp [Pardoned] at pardoned
  · exact explained

/-- A text that prints an integer of five thousand and one digits. -/
def printing : String :=
  "FUN main(): Integer DO print(10 ^ 5000); RETURN 0; END"

/-- Its program. -/
def printingTree : Program .checked :=
  { globals := []
    functions := [⟨"main", [], [], some "Integer",
      [.expression (.call .nil ⟨[.any], .nil⟩ "print"
          [.binary .integer "^" (.literal .integer (.integer 10))
            (.literal .integer (.integer 5000))]),
        .returning (.literal .integer (.integer 0))], ⟨[], .integer⟩⟩] }

/-- The text is accepted, and its run stops because the integer is too long to be written. -/
theorem printing_unwritable :
    checkedProgram printing = .ok printingTree ∧
      (Running.run 20 0 printingTree).1 = .error (.fault .unwritable) := by
  have accepted : checkedProgram printing = .ok printingTree := by cbv
  exact ⟨accepted, by decide +kernel⟩

end Blockscript.Chronicle
