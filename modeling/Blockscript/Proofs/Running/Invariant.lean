import Blockscript.Proofs.Running.Correspondence
import Blockscript.Proofs.Running.Meeting
import Blockscript.Proofs.Running.Operations

/-!
# What every step of a run keeps

The invariant of a recorded run, and what each step of the machine does to it. The
steps are those that the recorder takes down: those that look, those that make or
change lists, those that define or change variables, and the opening and closing of
scopes. How expressions and statements put them together is left open here.
-/

namespace Blockscript.Chronicle

open Running (Body Machine Outcome Run Meets)

/-! ## Names -/

/-- The scopes of the run are those of the text, or have one more without bindings,
as a switch has while no case is chosen yet. -/
def Aligned (levels : List Level) (scopes : Scopes) : Prop :=
  ∃ chain, Sees levels (levels.length - 1) chain ∧
    (chain = scopes.levels ∨ chain = [] :: scopes.levels)

/-- A function that is known in the text is what the call of it runs. -/
structure Meant (static : Routine Unit) (body : Body .checked) : Prop where
  name : static.name = (routineOf body).name
  arity : static.arity = (routineOf body).arity
  parameters : static.parameters = (signature body).parameters
  result : ∀ result ∈ static.result, result = (signature body).result

/-- The functions that are known in the text are the first of those of the run. -/
def Knows (functions : List (FunctionDef .checked)) (scopes : Scopes) : Prop :=
  ∃ taken, taken <+: bodies functions ∧ List.Forall₂ Meant scopes.functions taken

/-- The binding that the checker finds for a name is the one whose variable the run
finds. -/
def ResolvesVariable (scopes : Scopes) (state : State) (entry : Variable Unit) (name : String) :
    Prop :=
  ∃ (static : Nat) (binding : Binding) (place : Nat) (found : Variable Value),
    scopes.environment.lookupVariable name = .ok (static, entry) ∧
    Scopes.locate name scopes.levels = some (static, binding) ∧ binding.entry = entry ∧
    state.machine.environment.lookupVariable name = .ok (place, found) ∧
    Finds state name binding place found

/-- The function that the checker finds for a name is, at the same position in the order
of definition, the one that the run finds. -/
def ResolvesFunction (program : Program .checked) (scopes : Scopes) (state : State)
    (types : Signature) (name : String) (arity : Nat) : Prop :=
  ∃ (position : Nat) (static : Routine Unit) (body : Body .checked),
    scopes.environment.lookupFunction name arity = .ok static ∧
    scopes.functions[position]? = some static ∧
    static.parameters = types.parameters ∧ static.result = some types.result ∧
    state.machine.environment.lookupFunction name arity = .ok (routineOf body) ∧
    (bodies program.functions)[position]? = some body ∧ signature body = types

/-- The name on an expression means the same in the text and in the run. -/
def Resolves (program : Program .checked) (scopes : Scopes) (state : State) :
    Expr .checked → Prop
  | .access _ entry name => ResolvesVariable scopes state entry name
  | .element _ entry name _ => ResolvesVariable scopes state entry name
  | .call _ types name arguments =>
    ResolvesFunction program scopes state types name arguments.length
  | _ => False

/-! ## Moments -/

variable {program : Program .checked} {seen : Scopes → Expr .checked → Prop}

/-- What is promised of an event, in the scopes and the state that it happens in. -/
def Event.Sound (program : Program .checked) (seen : Scopes → Expr .checked → Prop)
    (scopes : Scopes) (state : State) : Event → Prop
  | .performed | .opened | .closed | .operands _ _ _ => True
  | .resolving node =>
    seen scopes node ∧ Aligned state.memory.levels scopes ∧ Resolves program scopes state node
  | .given node value => Typed state.memory.makers node.type value
  | .called body arguments =>
    List.Forall₂ (Typed state.memory.makers) (signature body).parameters arguments
  | .answered body value => Typed state.memory.makers (signature body).result value

/-- What is promised of a moment. -/
structure Moment.Sound (program : Program .checked) (seen : Scopes → Expr .checked → Prop)
    (moment : Moment) : Prop where
  consistent : Consistent moment.state
  event : moment.event.Sound program seen moment.scopes moment.state

/-- Whether a moment explains a fault: an operator is about to be applied to values that
may meet it. -/
def Moment.Explains (moment : Moment) (fault : RunFault) : Prop :=
  match moment.event with
  | .operands (.binary _ text left right) leftValue rightValue =>
    ∃ operator, Operator.ofText? text = some operator ∧
      Blamed operator left.type right.type leftValue rightValue fault
  | _ => False

/-- Whether a run may stop like this behind the given moments. -/
def Excused (moments : List Moment) : Stop → Prop
  | .exhausted => True
  | .fault fault => Pardoned fault ∨ ∃ moment ∈ moments, moment.Explains fault

/-- A stop that is excused is so when more has been taken down. -/
theorem Excused.append {moments : List Moment} {stop : Stop} (excused : Excused moments stop)
    (later : List Moment) : Excused (moments ++ later) stop := by
  cases stop with
  | exhausted => trivial
  | fault fault =>
    rcases excused with pardoned | ⟨moment, member, explains⟩
    · exact .inl pardoned
    · exact .inr ⟨moment, List.mem_append_left _ member, explains⟩

/-! ## The invariant -/

/-- What stays the same while a part of a program runs: the program, what is known of
it, and what has been defined in the root. -/
structure World where
  program : Program .checked
  seen : Scopes → Expr .checked → Prop
  typed : ProgramTyped seen program
  root : List Binding
  functions : List (FunctionDef .checked)
  known : functions <+: program.functions
  ready : functions ≠ [] → root = program.bindings

/-- The levels of the state that a record has come to. -/
abbrev Record.levels (record : Record) : List Level :=
  record.state.memory.levels

/-- The element types of the lists in the state that a record has come to. -/
abbrev Record.makers (record : Record) : List Ty :=
  record.state.memory.makers

/-- The state is consistent and so was every state taken down, every event is as
promised, and no list has ever been forgotten. -/
structure Faithful (program : Program .checked) (seen : Scopes → Expr .checked → Prop)
    (record : Record) : Prop where
  consistent : Consistent record.state
  moments : ∀ moment ∈ record.moments, moment.Sound program seen
  history : (record.moments.map (·.state.memory.makers) ++ [record.makers]).Pairwise (· <+: ·)

/-- A record that is faithful, in a world with the root that there is. -/
structure Intact (world : World) (record : Record) : Prop
    extends Faithful world.program world.seen record where
  rooted : Rooted world.root world.functions record.state

variable {world : World} {record : Record} {scopes : Scopes}

/-- A record is faithful in a consistent state behind it, with at least as many lists. -/
theorem Faithful.move {state : State} (faithful : Faithful program seen record)
    (consistent : Consistent state) (grown : record.makers <+: state.memory.makers) :
    Faithful program seen ⟨state, record.moments⟩ := by
  refine ⟨consistent, faithful.moments, ?_⟩
  obtain ⟨past, _, recent⟩ := List.pairwise_append.mp faithful.history
  refine List.pairwise_append.mpr ⟨past, List.pairwise_singleton _ _, ?_⟩
  intro earlier member later same
  obtain rfl := List.mem_singleton.mp same
  exact (recent earlier member record.makers (List.mem_singleton_self _)).trans grown

/-- Taking down an event that is as promised. -/
theorem Faithful.noting {event : Event} (faithful : Faithful program seen record)
    (sound : event.Sound program seen scopes record.state) :
    Faithful program seen (record.noting scopes event) := by
  refine ⟨faithful.consistent, ?_, ?_⟩
  · intro moment member
    rcases List.mem_append.mp member with old | new
    · exact faithful.moments moment old
    · obtain rfl := List.mem_singleton.mp new
      exact ⟨faithful.consistent, sound⟩
  · obtain ⟨_, _, recent⟩ := List.pairwise_append.mp faithful.history
    have latest : ∀ earlier ∈ record.moments.map (·.state.memory.makers) ++ [record.makers],
        ∀ later ∈ [record.makers], earlier <+: later := by
      intro earlier member later same
      obtain rfl := List.mem_singleton.mp same
      rcases List.mem_append.mp member with old | new
      · exact recent earlier old _ (List.mem_singleton_self _)
      · rw [List.mem_singleton.mp new]
    have again := List.pairwise_append.mpr
      ⟨faithful.history, List.pairwise_singleton _ record.makers, latest⟩
    simpa [Record.noting] using again

/-- A record is intact in a consistent state behind it, with the same root. -/
theorem Intact.move {state : State} (intact : Intact world record) (consistent : Consistent state)
    (rooted : Rooted world.root world.functions state)
    (grown : record.makers <+: state.memory.makers) : Intact world ⟨state, record.moments⟩ :=
  ⟨intact.toFaithful.move consistent grown, rooted⟩

/-- A record is intact with a sound event taken down. -/
theorem Intact.noting {event : Event} (intact : Intact world record)
    (sound : event.Sound world.program world.seen scopes record.state) :
    Intact world (record.noting scopes event) :=
  ⟨intact.toFaithful.noting sound, intact.rooted⟩

/-- A part of a run that leaves the scopes as they were. -/
structure Steady (world : World) (before after : Record) : Prop where
  intact : Intact world after
  levels : after.levels = before.levels
  makers : before.makers <+: after.makers

/-- A part of a run that changes no scope but the innermost one, which stays where it
is. -/
structure Kept (world : World) (before after : Record) : Prop where
  intact : Intact world after
  outer : after.levels.dropLast = before.levels.dropLast
  depth : after.levels.length = before.levels.length
  makers : before.makers <+: after.makers

/-- A part of a run that stops. -/
structure Halted (world : World) (before : Record) (stop : Stop) (after : Record) : Prop where
  intact : Intact world after
  outer : after.levels.dropLast = before.levels.dropLast
  depth : after.levels.length = before.levels.length
  excused : Excused after.moments stop

variable {first second third : Record} {stop : Stop}

/-- Where nothing happens, everything is as it was. -/
theorem Steady.refl (intact : Intact world record) : Steady world record record :=
  ⟨intact, rfl, List.prefix_rfl⟩

/-- Two steady parts in order are steady. -/
theorem Steady.trans (earlier : Steady world first second) (later : Steady world second third) :
    Steady world first third :=
  ⟨later.intact, later.levels.trans earlier.levels, earlier.makers.trans later.makers⟩

/-- A steady part changes no scope, and so none but the innermost. -/
theorem Steady.kept (steady : Steady world first second) : Kept world first second :=
  ⟨steady.intact, by rw [steady.levels], by rw [steady.levels], steady.makers⟩

/-- Two parts that keep the outer scopes keep them in order. -/
theorem Kept.trans (earlier : Kept world first second) (later : Kept world second third) :
    Kept world first third :=
  ⟨later.intact, later.outer.trans earlier.outer, later.depth.trans earlier.depth,
    earlier.makers.trans later.makers⟩

/-- What stops behind a part of a run stops from where that started. -/
theorem Halted.since (halted : Halted world second stop third) (earlier : Kept world first second) :
    Halted world first stop third :=
  ⟨halted.intact, halted.outer.trans earlier.outer, halted.depth.trans earlier.depth,
    halted.excused⟩

/-- To take a sound event down is steady. -/
theorem Steady.noting {event : Event} (steady : Steady world first second)
    (sound : event.Sound world.program world.seen scopes second.state) :
    Steady world first (second.noting scopes event) :=
  ⟨steady.intact.noting sound, steady.levels, steady.makers⟩

end Blockscript.Chronicle
