import Blockscript.Proofs.Running.Chronicle
import Blockscript.Proofs.Running.Conformance
import Mathlib.Data.List.Forall2
import Mathlib.Data.List.Nodup

/-!
# Scopes of a run and their bindings

How the scopes of a machine and the bindings remembered beside them belong together:
scope by scope and variable by variable. What a machine does to its scopes keeps this,
and what it finds along its parents is what the bindings say along theirs.
-/

namespace Blockscript.Chronicle

open Running (Body Machine Run)

/-- A variable of a run is the one that a binding stands for, and holds a value of its
type. -/
structure Held (makers : List Ty) (entry : Variable Value) (binding : Binding) : Prop where
  name : entry.name = binding.entry.name
  mutable : entry.mutable = binding.entry.mutable
  typed : Typed makers binding.entry.type entry.value

/-- A scope of a run continues where its level does, and its variables are those of
the bindings there, no two of which have the same name. -/
structure ScopeHeld (makers : List Ty) (scope : Scope Value (Body .checked)) (level : Level) :
    Prop where
  parent : scope.parent = level.parent
  entries : List.Forall₂ (Held makers) scope.entries level.bindings
  distinct : (level.bindings.map (·.entry.name)).Nodup

/-- The machine and what is remembered beside it belong together. -/
structure Consistent (state : State) : Prop where
  scopes : List.Forall₂ (ScopeHeld state.memory.makers)
    state.machine.environment.scopes.toList state.memory.levels
  lists : Lists state.memory.makers state.machine.store

variable {makers more : List Ty} {state : State}

/-- A variable holds a value of its type also when there are more lists. -/
theorem Held.grow {entry : Variable Value} {binding : Binding} (held : Held makers entry binding)
    (grown : makers <+: more) : Held more entry binding :=
  ⟨held.name, held.mutable, held.typed.grow grown⟩

/-- A scope corresponds to its level also when there are more lists. -/
theorem ScopeHeld.grow {scope : Scope Value (Body .checked)} {level : Level}
    (held : ScopeHeld makers scope level) (grown : makers <+: more) : ScopeHeld more scope level :=
  ⟨held.parent, held.entries.imp fun _ _ entry => entry.grow grown, held.distinct⟩

/-! ## Looking names up -/

/-- The bindings that are seen from a scope on, level by level along the parents. -/
inductive Sees (levels : List Level) : Nat → List (List Binding) → Prop where
  | root {bindings : List Binding} :
      levels[0]? = some ⟨none, bindings⟩ → Sees levels 0 [bindings]
  | block {index parent : Nat} {bindings : List Binding} {outer : List (List Binding)} :
      levels[index]? = some ⟨some parent, bindings⟩ → parent < index →
      Sees levels parent outer → Sees levels index (bindings :: outer)

/-- Scopes that are added later are not seen from those before. -/
theorem Sees.append {levels : List Level} {index : Nat} {chain : List (List Binding)}
    (sees : Sees levels index chain) (later : List Level) : Sees (levels ++ later) index chain := by
  induction sees with
  | root found =>
    refine .root ?_
    rw [List.getElem?_append_left (List.getElem?_eq_some_iff.mp found).1]
    exact found
  | block found lower _ inductionHypothesis =>
    refine .block ?_ lower inductionHypothesis
    rw [List.getElem?_append_left (List.getElem?_eq_some_iff.mp found).1]
    exact found

/-- From the scopes before, those that are added later are not needed. -/
theorem Sees.of_append {levels later : List Level} {index : Nat} {chain : List (List Binding)}
    (sees : Sees (levels ++ later) index chain) (inside : index < levels.length) :
    Sees levels index chain := by
  induction sees with
  | root found =>
    rw [List.getElem?_append_left inside] at found
    exact .root found
  | block found lower _ inductionHypothesis =>
    rw [List.getElem?_append_left inside] at found
    exact .block found lower (inductionHypothesis (by omega))

/-- The innermost of several levels, behind those that it stands on. -/
theorem Sees.innermost {levels : List Level} {bindings second : List Binding}
    {outer : List (List Binding)}
    (sees : Sees levels (levels.length - 1) (bindings :: second :: outer)) :
    ∃ front parent, levels = front ++ [⟨some parent, bindings⟩] ∧ parent < front.length ∧
      Sees front parent (second :: outer) := by
  generalize position : levels.length - 1 = index at sees
  cases sees with
  | block found lower sees =>
    rcases List.eq_nil_or_concat' levels with rfl | ⟨front, last, rfl⟩
    · simp at found
    · rw [List.length_append, List.length_singleton, Nat.add_sub_cancel] at position
      subst position
      rw [List.getElem?_append_right (Nat.le_refl _), Nat.sub_self] at found
      cases found
      exact ⟨front, _, rfl, lower, sees.of_append lower⟩

/-- Variables that correspond to bindings are found where those are. -/
theorem findVariable_held {scope : Scope Value (Body .checked)} {bindings : List Binding}
    (held : List.Forall₂ (Held makers) scope.entries bindings) {name : String} :
    (∀ binding, bindings.find? (Binding.isNamed name) = some binding →
      ∃ (index : Nat) (entry : Variable Value), scope.findVariable name = some entry ∧
        scope.entries[index]? = some entry ∧ bindings[index]? = some binding) ∧
    (bindings.find? (Binding.isNamed name) = none → scope.findVariable name = none) := by
  unfold Scope.findVariable
  generalize scope.entries = entries at held
  induction held with
  | nil => simp
  | @cons entry binding entries bindings same _ inductionHypothesis =>
    by_cases named : binding.entry.name = name
    · have entryNamed : entry.name = name := same.name.trans named
      constructor
      · intro found shape
        simp only [List.find?_cons, Binding.isNamed, named, decide_true, Option.some.injEq] at shape
        exact ⟨0, entry, by simp [entryNamed], rfl, by simp [shape]⟩
      · simp [Binding.isNamed, named]
    · have entryNamed : entry.name ≠ name := fun other => named (same.name.symm.trans other)
      constructor
      · intro found shape
        simp only [List.find?_cons, Binding.isNamed, named, decide_false] at shape
        obtain ⟨index, inner, search, inside, place⟩ := inductionHypothesis.1 found shape
        exact ⟨index + 1, inner, by simpa [entryNamed] using search, inside, place⟩
      · intro absent
        simp only [List.find?_cons, Binding.isNamed, named, decide_false] at absent
        simpa [entryNamed] using inductionHypothesis.2 absent

/-- The machine finds the variable that stands for a binding. -/
def Finds (state : State) (name : String) (binding : Binding) (place : Nat)
    (entry : Variable Value) : Prop :=
  ∃ (scope : Scope Value (Body .checked)) (level : Level) (index : Nat),
    state.machine.environment.scopes[place]? = some scope ∧
    scope.entries[index]? = some entry ∧ state.memory.levels[place]? = some level ∧
    level.bindings[index]? = some binding ∧
    level.bindings.find? (Binding.isNamed name) = some binding

/-- Where there is a level there is a scope that corresponds to it. -/
theorem Consistent.scope (consistent : Consistent state) {index : Nat} {level : Level}
    (found : state.memory.levels[index]? = some level) :
    ∃ scope, state.machine.environment.scopes[index]? = some scope ∧
      ScopeHeld state.memory.makers scope level := by
  obtain ⟨inside, rfl⟩ := List.getElem?_eq_some_iff.mp found
  have same := consistent.scopes.length_eq
  have held := List.forall₂_iff_get.mp consistent.scopes
  refine ⟨state.machine.environment.scopes.toList[index], ?_, held.2 index (by omega) inside⟩
  rw [← Array.getElem?_toList, List.getElem?_eq_getElem (by omega)]

/-- The binding that is seen from a scope is the one whose variable the machine finds
from there. -/
theorem search_variable (consistent : Consistent state) {index : Nat}
    {chain : List (List Binding)} (sees : Sees state.memory.levels index chain) {name : String}
    {binding : Binding}
    (found : chain.findSome? (·.find? (Binding.isNamed name)) = some binding) :
    ∃ place entry, state.machine.environment.search (·.findVariable name) index =
      some (place, entry) ∧ Finds state name binding place entry := by
  induction sees with
  | @root bindings level =>
    obtain ⟨scope, there, held⟩ := consistent.scope level
    rw [List.findSome?_singleton] at found
    obtain ⟨index, entry, search, inside, place⟩ := (findVariable_held held.entries).1 _ found
    rw [Environment.search, there]
    simp only [search]
    exact ⟨0, entry, rfl, scope, _, index, there, inside, level, place, found⟩
  | @block index parent bindings outer level lower _ inductionHypothesis =>
    obtain ⟨scope, there, held⟩ := consistent.scope level
    rw [Environment.search, there]
    rw [List.findSome?_cons] at found
    cases here : bindings.find? (Binding.isNamed name) with
    | some other =>
      simp only [here, Option.some.injEq] at found
      subst found
      obtain ⟨position, entry, search, inside, place⟩ := (findVariable_held held.entries).1 _ here
      simp only [search]
      exact ⟨index, entry, rfl, scope, _, position, there, inside, level, place, here⟩
    | none =>
      simp only [here] at found
      have absent := (findVariable_held held.entries).2 here
      simp only [absent, held.parent, lower, ↓reduceIte]
      exact inductionHypothesis found

/-! ## Functions -/

/-- The types of what a call runs. -/
def signature : Body .checked → Signature
  | .print => ⟨[.any], .nil⟩
  | .script definition _ => definition.routine

/-- A function as a run knows it. -/
def routineOf : Body .checked → Routine (Body .checked)
  | .print => ⟨"print", [.any], some .nil, some .print⟩
  | .script definition scope =>
    ⟨definition.name, definition.parameters.map fun _ => .any, none,
      some (.script definition scope)⟩

/-- What calls can run when some functions have been defined. -/
def bodies (functions : List (FunctionDef .checked)) : List (Body .checked) :=
  .print :: functions.map fun definition => .script definition 0

/-- The functions of all scopes, the root first. -/
def functionsOf (environment : Environment Value (Body .checked)) :
    List (List (Routine (Body .checked))) :=
  environment.scopes.toList.map Scope.functions

/-- The root of a run: its bindings, and its functions. No other scope has functions. -/
structure Rooted (root : List Binding) (functions : List (FunctionDef .checked))
    (state : State) : Prop where
  level : state.memory.levels[0]? = some ⟨none, root⟩
  routines : ∃ count, functionsOf state.machine.environment =
    (bodies functions).map routineOf :: List.replicate count []

variable {root : List Binding} {functions : List (FunctionDef .checked)}

/-- The functions of the root are those that have been defined. -/
theorem Rooted.root_functions (rooted : Rooted root functions state)
    {scope : Scope Value (Body .checked)}
    (there : state.machine.environment.scopes[0]? = some scope) :
    scope.functions = (bodies functions).map routineOf := by
  obtain ⟨count, shape⟩ := rooted.routines
  have first := congrArg (·[0]?) shape
  simpa [functionsOf, there] using first

/-- No other scope than the root has functions. -/
theorem Rooted.inner_functions (rooted : Rooted root functions state) {index : Nat}
    {scope : Scope Value (Body .checked)} (inner : index ≠ 0)
    (there : state.machine.environment.scopes[index]? = some scope) : scope.functions = [] := by
  obtain ⟨count, shape⟩ := rooted.routines
  obtain ⟨index, rfl⟩ := Nat.exists_eq_succ_of_ne_zero inner
  have other := congrArg (·[index + 1]?) shape
  simp only [functionsOf, List.getElem?_map, Array.getElem?_toList, there, Option.map_some,
    List.getElem?_cons_succ] at other
  exact (List.mem_replicate.mp (List.mem_of_getElem? other.symm)).2

/-- A function is found in the root from everywhere. -/
theorem search_function (consistent : Consistent state) (rooted : Rooted root functions state)
    {index : Nat} {chain : List (List Binding)} (sees : Sees state.memory.levels index chain)
    (name : String) (arity : Nat) :
    state.machine.environment.search (·.findFunction name arity) index =
      (((bodies functions).map routineOf).find? fun routine =>
        routine.name = name && routine.arity = arity).map (0, ·) := by
  induction sees with
  | root level =>
    obtain ⟨scope, there, held⟩ := consistent.scope level
    rw [Environment.search, there]
    simp only [Scope.findFunction, rooted.root_functions there, held.parent]
    cases ((bodies functions).map routineOf).find? fun routine =>
      routine.name = name && routine.arity = arity with
    | none => rfl
    | some routine => rfl
  | block level lower _ inductionHypothesis =>
    obtain ⟨scope, there, held⟩ := consistent.scope level
    have empty := rooted.inner_functions (by omega) there
    rw [Environment.search, there]
    simp only [Scope.findFunction, empty, List.find?_nil, held.parent, lower, ↓reduceIte]
    exact inductionHypothesis

/-! ## Changing scopes -/

/-- What is related to a list with a last item has a last item, too, and the items before are
related. -/
theorem forall₂_concat {α β : Type} {related : α → β → Prop} {last : β} :
    ∀ {front : List β} {others : List α}, List.Forall₂ related others (front ++ [last]) →
      ∃ earlier final, others = earlier ++ [final] ∧ List.Forall₂ related earlier front ∧
        related final last
  | [], _, .cons here .nil => ⟨[], _, rfl, .nil, here⟩
  | _ :: front, _, .cons here later => by
    obtain ⟨earlier, final, rfl, rest, there⟩ := @forall₂_concat α β related last front _ later
    exact ⟨_ :: earlier, final, rfl, .cons here rest, there⟩

/-- A change of one item keeps lists related, if it keeps that item related. -/
theorem forall₂_modify {α β : Type} {related : α → β → Prop} {change : α → α} {left : List α}
    {right : List β} (all : List.Forall₂ related left right) :
    ∀ {index : Nat}, (∀ first second, left[index]? = some first → right[index]? = some second →
      related first second → related (change first) second) →
      List.Forall₂ related (left.modify index change) right := by
  induction all with
  | nil =>
    intro index _
    rw [List.modify_nil]
    exact .nil
  | cons here later inductionHypothesis =>
    intro index changed
    cases index with
    | zero => exact .cons (changed _ _ rfl rfl here) later
    | succ index => exact .cons here (inductionHypothesis changed)

/-- What a change of one item leaves alone is the same of the whole list. -/
theorem map_modify {α β : Type} {read : α → β} {change : α → α}
    (same : ∀ item, read (change item) = read item) (items : List α) :
    ∀ index, (items.modify index change).map read = items.map read := by
  induction items with
  | nil => simp
  | cons first rest inductionHypothesis =>
    intro index
    cases index with
    | zero => simp [same]
    | succ index => simp [inductionHypothesis]

/-- The innermost scope of the machine is that of the levels. -/
theorem Consistent.current {state : State} (consistent : Consistent state) :
    state.machine.environment.current = state.memory.levels.length - 1 := by
  rw [Environment.current, ← consistent.scopes.length_eq, Array.length_toList]

/-- Changing the innermost scope leaves those in front of it. -/
theorem modifyCurrent_concat {environment : Environment Value (Body .checked)}
    {earlier : List (Scope Value (Body .checked))} {scope : Scope Value (Body .checked)}
    (shape : environment.scopes.toList = earlier ++ [scope])
    (change : Scope Value (Body .checked) → Scope Value (Body .checked)) :
    (environment.modifyCurrent change).scopes.toList = earlier ++ [change scope] := by
  have scopes : environment.scopes = (earlier ++ [scope]).toArray := by
    rw [← shape, Array.toArray_toList]
  have current : environment.current = earlier.length := by
    simp [Environment.current, scopes]
  rw [Environment.modifyCurrent, current, scopes, Environment.modify_last]

/-- A binding is remembered in the innermost level. -/
theorem Memory.bind_concat {memory : Memory} {front : List Level} {level : Level}
    (last : memory.levels = front ++ [level]) (binding : Binding) :
    (memory.bind binding).levels =
      front ++ [{ level with bindings := level.bindings ++ [binding] }] := by
  rw [Memory.bind, last, List.length_append, List.length_singleton, Nat.add_sub_cancel,
    modify_concat]

/-- A variable with a new name can be defined, and its binding remembered. -/
theorem Consistent.define {front : List Level} {level : Level} {entry : Variable Value}
    {binding : Binding} (consistent : Consistent state)
    (last : state.memory.levels = front ++ [level])
    (fresh : level.bindings.find? (Binding.isNamed entry.name) = none)
    (held : Held state.memory.makers entry binding) :
    ∃ environment, state.machine.environment.defineVariable entry = .ok environment ∧
      Consistent ⟨{ state.machine with environment := environment }, state.memory.bind binding⟩ ∧
      (state.memory.bind binding).levels =
        front ++ [{ level with bindings := level.bindings ++ [binding] }] ∧
      functionsOf environment = functionsOf state.machine.environment := by
  obtain ⟨earlier, scope, shape, rest, there⟩ := forall₂_concat (last ▸ consistent.scopes)
  have remembered := Memory.bind_concat last binding
  have absent : state.machine.environment.currentScope.findVariable entry.name = none := by
    have found := (findVariable_held there.entries).2 fresh
    have current : state.machine.environment.currentScope = scope := by
      rw [Environment.currentScope, Environment.current, ← Array.getElem?_toList, shape,
        ← Array.length_toList, shape]
      simp
    rw [current, found]
  have grown := modifyCurrent_concat shape fun scope =>
    { scope with entries := scope.entries ++ [entry] }
  refine ⟨state.machine.environment.modifyCurrent fun scope =>
    { scope with entries := scope.entries ++ [entry] }, ?_, ⟨?_, consistent.lists⟩, remembered, ?_⟩
  · exact Environment.defineVariable_ok_iff.mpr ⟨absent, rfl⟩
  · rw [remembered, grown]
    have distinct : ((level.bindings ++ [binding]).map (·.entry.name)).Nodup := by
      rw [List.map_append]
      refine List.nodup_append.mpr ⟨there.distinct, by simp, ?_⟩
      intro name member other otherMember same
      obtain ⟨inner, inside, rfl⟩ := List.mem_map.mp member
      obtain rfl := List.mem_singleton.mp otherMember
      have unnamed := List.find?_eq_none.mp fresh inner inside
      simp [Binding.isNamed, held.name, same] at unnamed
    have entries : List.Forall₂ (Held state.memory.makers) (scope.entries ++ [entry])
        (level.bindings ++ [binding]) :=
      List.rel_append there.entries (.cons held .nil)
    exact List.rel_append rest (.cons ⟨there.parent, entries, distinct⟩ .nil)
  · rw [functionsOf, functionsOf, grown, shape]
    simp

/-- The variables of a scope with a value put behind one name. -/
theorem forall₂_setVariable {related : Variable Value → Binding → Prop}
    {entries : List (Variable Value)} {bindings : List Binding} {name : String} {value : Value}
    (all : List.Forall₂ related entries bindings)
    (set : ∀ entry, ∀ binding ∈ bindings, related entry binding → entry.name = name →
      related { entry with value := value } binding) :
    List.Forall₂ related
      (entries.map fun entry => if entry.name = name then { entry with value := value } else entry)
      bindings := by
  induction all with
  | nil => exact .nil
  | @cons entry binding entries bindings here _ inductionHypothesis =>
    refine .cons ?_ (inductionHypothesis fun entry other member =>
      set entry other (by simp [member]))
    simp only
    split
    · next named => exact set entry binding (by simp) here named
    · exact here

/-- Names are distinct, so a binding that is found is the only one of its name. -/
theorem ScopeHeld.named {scope : Scope Value (Body .checked)} {level : Level} {name : String}
    {binding other : Binding} (held : ScopeHeld makers scope level)
    (found : level.bindings.find? (Binding.isNamed name) = some binding)
    (member : other ∈ level.bindings) (named : other.entry.name = name) : other = binding := by
  refine List.inj_on_of_nodup_map held.distinct member (List.mem_of_find?_eq_some found) ?_
  have chosen := List.find?_some found
  simp only [Binding.isNamed, decide_eq_true_eq] at chosen
  rw [named, chosen]

/-- A value of the right type can be put behind a variable that is found. -/
theorem Consistent.setVariable {name : String} {binding : Binding} {place : Nat}
    {entry : Variable Value} {value : Value} (consistent : Consistent state)
    (search : state.machine.environment.lookupVariable name = .ok (place, entry))
    (finds : Finds state name binding place entry)
    (typed : Typed state.memory.makers binding.entry.type value) :
    ∃ environment, state.machine.environment.setVariable name value = .ok environment ∧
      Consistent ⟨{ state.machine with environment := environment }, state.memory⟩ ∧
      functionsOf environment = functionsOf state.machine.environment := by
  obtain ⟨_, level, _, _, _, levelThere, _, found⟩ := finds
  refine ⟨⟨state.machine.environment.scopes.modify place (·.setVariable name value)⟩, ?_,
    ⟨?_, consistent.lists⟩, ?_⟩
  · exact Environment.setVariable_ok_iff.mpr ⟨place, entry, search, rfl⟩
  · rw [Array.toList_modify]
    refine forall₂_modify consistent.scopes ?_
    intro scope other _ otherThere held
    obtain rfl := Option.some.inj (levelThere.symm.trans otherThere)
    refine ⟨held.parent, forall₂_setVariable held.entries ?_, held.distinct⟩
    intro entry inner member here named
    obtain rfl := held.named found member (here.name.symm.trans named)
    exact ⟨here.name, here.mutable, typed⟩
  · simp only [functionsOf, Array.toList_modify]
    have same : ∀ scope : Scope Value (Body .checked),
        (scope.setVariable name value).functions = scope.functions := fun _ => rfl
    exact map_modify same _ _

/-- Opening a scope. -/
theorem Consistent.enter {parent : Option Nat} (consistent : Consistent state) :
    Consistent
      ⟨{ state.machine with environment := state.machine.environment.openScope parent },
        state.memory.enter parent⟩ := by
  refine ⟨?_, consistent.lists⟩
  simp only [Environment.openScope, Array.toList_push]
  refine List.rel_append consistent.scopes (.cons ⟨?_, .nil, List.nodup_nil⟩ .nil)
  rw [consistent.current]

/-- Closing a scope that is not the root. -/
theorem Consistent.leave (consistent : Consistent state) (inner : 1 < state.memory.levels.length) :
    ∃ environment, state.machine.environment.closeScope state.machine.environment.current =
        .ok environment ∧
      Consistent ⟨{ state.machine with environment := environment }, state.memory.leave⟩ ∧
      functionsOf environment = (functionsOf state.machine.environment).dropLast := by
  have current := consistent.current
  refine ⟨⟨state.machine.environment.scopes.pop⟩, ?_, ⟨?_, consistent.lists⟩, ?_⟩
  · exact Environment.closeScope_current (by omega)
  · rw [Array.toList_pop, List.dropLast_eq_take, consistent.scopes.length_eq]
    rw [Memory.leave, List.dropLast_eq_take]
    exact List.forall₂_take _ consistent.scopes
  · simp [functionsOf, List.map_dropLast]

end Blockscript.Chronicle
