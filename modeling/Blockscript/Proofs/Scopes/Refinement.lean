import Blockscript.Proofs.Scopes.Linked
import Blockscript.Proofs.Scopes.Sound
import Mathlib.Logic.Relation

/-!
# Scopes by place refine scopes by pointer

The environment keeps no cells of closed scopes and names a scope by its place on the stack,
which a later scope may take over. For every sequence of operations it answers as the
reference does. This rests on one correspondence: the scope at a place and the cell at the
address that is open there have the same names, and the parent of the one is where the other
one points to.
-/

namespace Blockscript

variable {ν ι : Type}

/-! ## Sequences of operations -/

namespace Environment

variable {environment after : Environment ν ι} {linked : Linked ν ι}

/-- What an operation answers that may fail, and what it leaves. -/
def attempt (environment : Environment ν ι) :
    Except ScopeFault (Environment ν ι) → Answer ν ι × Environment ν ι
  | .ok after => (.done, after)
  | .error fault => (.refused fault, environment)

/-- The operations of an environment, with their answers. -/
def perform (environment : Environment ν ι) : Operation ν ι → Answer ν ι × Environment ν ι
  | .openScope parent =>
    (.opened (environment.openScope parent).current, environment.openScope parent)
  | .closeScope index => environment.attempt (environment.closeScope index)
  | .defineVariable entry => environment.attempt (environment.defineVariable entry)
  | .defineFunction routine => environment.attempt (environment.defineFunction routine)
  | .lookupVariable name =>
    match environment.lookupVariable name with
    | .ok (_, entry) => (.meansVariable entry, environment)
    | .error fault => (.refused fault, environment)
  | .lookupFunction name arity =>
    match environment.lookupFunction name arity with
    | .ok routine => (.meansFunction routine, environment)
    | .error fault => (.refused fault, environment)
  | .assign name value => environment.attempt (environment.setVariable name value)
  | .update index name value =>
    (.done, ⟨environment.scopes.modify index (·.setVariable name value)⟩)

/-- The answers to a sequence of operations, and what it leaves. -/
def performAll (environment : Environment ν ι) :
    List (Operation ν ι) → List (Answer ν ι) × Environment ν ι
  | [] => ([], environment)
  | operation :: rest =>
    let (answer, next) := environment.perform operation
    let (answers, final) := next.performAll rest
    (answer :: answers, final)

/-- Every parent that a scope is opened with is absent, or the index of a scope that is open
then. -/
def Admits (environment : Environment ν ι) : List (Operation ν ι) → Prop
  | [] => True
  | operation :: rest =>
    (∀ index, operation = .openScope (some index) → index < environment.scopes.size) ∧
      (environment.perform operation).2.Admits rest

end Environment

/-! ## The correspondence -/

/-- The cell says of names what the scope does, and points to where the parent of the scope
is open. -/
structure Depicts (opened : List Nat) (scope : Scope ν ι) (cell : Cell ν ι) : Prop where
  parent : cell.parent = scope.parent.bind (opened[·]?)
  entry : ∀ name, cell.entry name = scope.findVariable name
  routine : ∀ name arity, cell.routine name arity = scope.findFunction name arity

namespace Depicts

variable {opened : List Nat} {scope : Scope ν ι} {cell : Cell ν ι}

/-- The cell depicts its scope with one more variable. -/
theorem withVariable {entry : Variable ν} (depicts : Depicts opened scope cell)
    (fresh : scope.findVariable entry.name = none) :
    Depicts opened { scope with entries := scope.entries ++ [entry] }
      (cell.withVariable entry) where
  parent := depicts.parent
  entry name := by
    have before := depicts.entry name
    rw [Scope.findVariable] at before fresh
    rw [Cell.withVariable, Scope.findVariable, List.find?_append]
    by_cases same : name = entry.name
    · subst same
      simp [fresh]
    · simp [Function.update_of_ne same, before, Ne.symm same]
  routine := depicts.routine

/-- The cell depicts its scope with one more function. -/
theorem withFunction {routine : Routine ι} (depicts : Depicts opened scope cell)
    (fresh : scope.findFunction routine.name routine.arity = none) :
    Depicts opened { scope with functions := scope.functions ++ [routine] }
      (cell.withFunction routine) where
  parent := depicts.parent
  entry := depicts.entry
  routine name arity := by
    have before := depicts.routine name arity
    rw [Scope.findFunction] at before fresh
    rw [Cell.withFunction, Scope.findFunction, List.find?_append]
    by_cases same : routine.name = name ∧ routine.arity = arity
    · obtain ⟨rfl, rfl⟩ := same
      simp [fresh]
    · simp [same, before]

/-- The cell depicts its scope with a new value of a variable. -/
theorem withValue {name : String} {value : ν} (depicts : Depicts opened scope cell) :
    Depicts opened (scope.setVariable name value) (cell.withValue name value) where
  parent := depicts.parent
  entry other := by
    rw [Cell.withValue, Scope.find_setVariable, ← depicts.entry other]
    by_cases same : other = name
    · subst same
      simp
    · simp [same]
  routine := depicts.routine

/-- What is open further up does not matter to a scope. -/
theorem mono {more : List Nat} (depicts : Depicts opened scope cell)
    (same : ∀ parent, scope.parent = some parent → more[parent]? = opened[parent]?) :
    Depicts more scope cell where
  parent := by
    rw [depicts.parent]
    cases continues : scope.parent with
    | none => rfl
    | some parent => exact (same parent continues).symm
  entry := depicts.entry
  routine := depicts.routine

end Depicts

/-- As many scopes are open, at addresses that all differ, and the cell at each address
depicts the scope at the same place. -/
structure Mirrors (environment : Environment ν ι) (linked : Linked ν ι) : Prop where
  size : linked.opened.length = environment.scopes.size
  apart : linked.opened.Nodup
  depicts : ∀ (place : Nat) (scope : Scope ν ι), environment.scopes[place]? = some scope →
    ∃ address cell, linked.opened[place]? = some address ∧ linked.cells[address]? = some cell ∧
      Depicts linked.opened scope cell

namespace Mirrors

open Environment

variable {environment after : Environment ν ι} {linked : Linked ν ι}

/-- The root alone mirrors the root alone. -/
theorem initial : Mirrors (Environment.initial : Environment ν ι) .initial where
  size := rfl
  apart := List.nodup_singleton 0
  depicts place scope there := by
    have inside := (Array.getElem?_eq_some_iff.mp there).1
    simp [Environment.initial] at inside
    subst inside
    cases there
    exact ⟨0, .empty none, rfl, rfl, rfl, fun _ => rfl, fun _ _ => rfl⟩

/-- The search of the environment finds what is found along the pointers, where the scope
that it was found in is open. -/
theorem finds {β : Type} (mirrors : Mirrors environment linked) (sound : environment.Sound)
    {found : Scope ν ι → Option β} {foundCell : Cell ν ι → Option β}
    (same : ∀ scope cell, Depicts linked.opened scope cell → foundCell cell = found scope)
    (place address : Nat) (inside : linked.opened[place]? = some address) :
    linked.Finds foundCell address ((environment.search found place).bind fun hit =>
      (linked.opened[hit.1]?).map fun owner => (owner, hit.2)) := by
  induction place using Nat.strongRecOn generalizing address with
  | ind place inductionHypothesis =>
    have below : place < environment.scopes.size :=
      mirrors.size ▸ (List.getElem?_eq_some_iff.mp inside).1
    obtain ⟨scope, there⟩ : ∃ scope, environment.scopes[place]? = some scope :=
      ⟨_, Array.getElem?_eq_getElem below⟩
    obtain ⟨other, cell, insideToo, standing, depicts⟩ := mirrors.depicts place scope there
    cases inside.symm.trans insideToo
    have tells := same scope cell depicts
    rw [search]
    cases result : found scope with
    | some result =>
      simp only [there, result, Option.bind_some, inside, Option.map_some]
      exact .here standing (tells.trans result)
    | none =>
      cases continues : scope.parent with
      | none =>
        simp only [there, result, continues, Option.bind_none]
        refine .nowhere standing (tells.trans result) ?_
        rw [depicts.parent, continues, Option.bind_none]
      | some parent =>
        -- The parent stands below, so it is open, and the cell points to where it is.
        have lower : parent < place := sound.ordered place scope parent there continues
        have opened : parent < linked.opened.length := by
          rw [mirrors.size]
          omega
        have pointed := List.getElem?_eq_getElem opened
        simp only [there, result, continues, if_pos lower]
        refine .outward standing (tells.trans result) ?_
          (inductionHypothesis parent lower _ pointed)
        rw [depicts.parent, continues, Option.bind_some, pointed]

/-- A change of one scope, of which the cell in its place is changed alike. -/
theorem modify {place address : Nat} {scope : Scope ν ι} {change : Scope ν ι → Scope ν ι}
    {cell : Cell ν ι} (mirrors : Mirrors environment linked)
    (there : environment.scopes[place]? = some scope)
    (inside : linked.opened[place]? = some address)
    (depicts : Depicts linked.opened (change scope) cell) :
    Mirrors ⟨environment.scopes.modify place change⟩ (linked.put address cell) where
  size := by
    rw [Array.size_modify]
    exact mirrors.size
  apart := mirrors.apart
  depicts other changed standing := by
    rw [Array.getElem?_modify] at standing
    split at standing
    · next same =>
      subst same
      rw [there] at standing
      cases standing
      obtain ⟨_, old, insideToo, held, -⟩ := mirrors.depicts place scope there
      cases inside.symm.trans insideToo
      have exists_ := (List.getElem?_eq_some_iff.mp held).1
      exact ⟨address, cell, inside, by simp [Linked.put, exists_], depicts⟩
    · next apart =>
      obtain ⟨second, old, insideToo, held, depictsToo⟩ := mirrors.depicts other changed standing
      have different : address ≠ second := by
        rintro rfl
        have below := (List.getElem?_eq_some_iff.mp inside).1
        exact apart ((List.getElem?_inj below mirrors.apart).mp (inside.trans insideToo.symm))
      exact ⟨second, old, insideToo, by simp [Linked.put, different, held], depictsToo⟩

/-- The innermost scope is depicted by the innermost cell. -/
theorem innermost (mirrors : Mirrors environment linked) (sound : environment.Sound) :
    ∃ address cell, linked.Innermost address cell ∧
      linked.opened[environment.current]? = some address ∧
      environment.scopes[environment.current]? = some environment.currentScope ∧
      Depicts linked.opened environment.currentScope cell := by
  have below : environment.current < environment.scopes.size :=
    Nat.sub_lt sound.occupied Nat.one_pos
  have there := Array.getElem?_eq_getElem below
  obtain ⟨address, cell, inside, held, depicts⟩ := mirrors.depicts _ _ there
  have current : environment.currentScope = environment.scopes[environment.current] := by
    rw [currentScope, there, Option.getD_some]
  refine ⟨address, cell, ⟨?_, held⟩, inside, current ▸ there, current ▸ depicts⟩
  rw [List.getLast?_eq_getElem?, mirrors.size]
  exact inside

/-- Only cells are open. -/
theorem address_lt {address : Nat} (mirrors : Mirrors environment linked)
    (member : address ∈ linked.opened) : address < linked.cells.length := by
  obtain ⟨place, inside⟩ := List.mem_iff_getElem?.mp member
  have below : place < environment.scopes.size :=
    mirrors.size ▸ (List.getElem?_eq_some_iff.mp inside).1
  obtain ⟨other, cell, insideToo, held, -⟩ :=
    mirrors.depicts place _ (Array.getElem?_eq_getElem below)
  cases inside.symm.trans insideToo
  exact (List.getElem?_eq_some_iff.mp held).1

/-- A parent that is given or not is an open scope, which the reference has an address of. -/
theorem continues {parent : Option Nat} (mirrors : Mirrors environment linked)
    (sound : environment.Sound)
    (inside : ∀ index, parent = some index → index < environment.scopes.size) :
    ∃ address, (parent.elim linked.opened.getLast? fun index => linked.opened[index]?) =
        some address ∧
      linked.opened[parent.getD environment.current]? = some address := by
  cases parent with
  | none =>
    obtain ⟨address, _, ⟨last, _⟩, current, -⟩ := mirrors.innermost sound
    exact ⟨address, last, current⟩
  | some index =>
    have below := inside index rfl
    rw [← mirrors.size] at below
    exact ⟨_, List.getElem?_eq_getElem below, List.getElem?_eq_getElem below⟩

/-- A scope that is opened is mirrored by a cell that is entered. -/
theorem openScope {parent : Option Nat} {address : Nat} (mirrors : Mirrors environment linked)
    (sound : environment.Sound)
    (continues : linked.opened[parent.getD environment.current]? = some address) :
    Mirrors (environment.openScope parent) (linked.enter address) where
  size := by simp [Linked.enter, Environment.openScope, mirrors.size]
  apart := by
    exact List.nodup_append_comm.mp (List.nodup_cons.mpr
      ⟨fun member => Nat.lt_irrefl _ (mirrors.address_lt member), mirrors.apart⟩)
  depicts place scope there := by
    have kept (index : Nat) (below : index < environment.scopes.size) :
        (linked.enter address).opened[index]? = linked.opened[index]? :=
      List.getElem?_append_left (mirrors.size ▸ below)
    rw [Environment.openScope, Array.getElem?_push] at there
    split at there
    · next top =>
      subst top
      cases there
      refine ⟨linked.cells.length, .empty (some address), ?_, ?_, ?_, fun _ => rfl, fun _ _ => rfl⟩
      · simp [Linked.enter, ← mirrors.size]
      · simp [Linked.enter]
      · have below := (List.getElem?_eq_some_iff.mp continues).1
        rw [Option.bind_some, kept _ (mirrors.size ▸ below), continues]
        rfl
    · obtain ⟨other, cell, inside, held, depicts⟩ := mirrors.depicts place scope there
      have below := (Array.getElem?_eq_some_iff.mp there).1
      refine ⟨other, cell, (kept place below).trans inside, ?_, depicts.mono fun parent up => ?_⟩
      · rw [Linked.enter, List.getElem?_append_left (List.getElem?_eq_some_iff.mp held).1, held]
      · have lower := sound.ordered place scope parent there up
        exact kept parent (by omega)

/-- A scope that is closed is mirrored by a cell that is left. -/
theorem closeScope (mirrors : Mirrors environment linked) (sound : environment.Sound) :
    Mirrors ⟨environment.scopes.pop⟩ { linked with opened := linked.opened.dropLast } where
  size := by simp [mirrors.size]
  apart := mirrors.apart.sublist (List.dropLast_sublist _)
  depicts place scope there := by
    rw [Array.getElem?_pop] at there
    split at there
    · next below =>
      have kept (index : Nat) (inside : index ≤ place) :
          linked.opened.dropLast[index]? = linked.opened[index]? := by
        rw [List.getElem?_dropLast, if_pos (by rw [mirrors.size]; omega)]
      obtain ⟨other, cell, inside, held, depicts⟩ := mirrors.depicts place scope there
      refine ⟨other, cell, (kept place (Nat.le_refl _)).trans inside, held,
        depicts.mono fun parent up => ?_⟩
      exact kept parent (Nat.le_of_lt (sound.ordered place scope parent there up))
    · cases there

/-! ## Every operation -/

/-- The search for a name finds nothing, or it finds something in an open scope, where the
pointers find it. -/
theorem finds_current {β : Type} (mirrors : Mirrors environment linked) (sound : environment.Sound)
    {found : Scope ν ι → Option β} {foundCell : Cell ν ι → Option β}
    (same : ∀ scope cell, Depicts linked.opened scope cell → foundCell cell = found scope) :
    ∃ address, linked.opened.getLast? = some address ∧
      ((environment.search found environment.current = none ∧
          linked.Finds foundCell address none) ∨
        ∃ place result scope owner cell,
          environment.search found environment.current = some (place, result) ∧
          environment.scopes[place]? = some scope ∧ linked.opened[place]? = some owner ∧
          linked.cells[owner]? = some cell ∧ Depicts linked.opened scope cell ∧
          linked.Finds foundCell address (some (owner, result))) := by
  obtain ⟨address, _, ⟨last, _⟩, current, -⟩ := mirrors.innermost sound
  have finds := mirrors.finds sound same environment.current address current
  refine ⟨address, last, ?_⟩
  cases search : environment.search found environment.current with
  | none =>
    rw [search] at finds
    exact .inl ⟨rfl, finds⟩
  | some hit =>
    obtain ⟨place, result⟩ := hit
    obtain ⟨scope, there, -⟩ := search_found search
    obtain ⟨owner, cell, inside, held, depicts⟩ := mirrors.depicts place scope there
    rw [search, Option.bind_some, inside] at finds
    exact .inr ⟨place, result, scope, owner, cell, rfl, there, inside, held, depicts, finds⟩

/-- The definition of a variable is answered alike. -/
theorem perform_defineVariable (mirrors : Mirrors environment linked) (sound : environment.Sound)
    (entry : Variable ν) :
    ∃ next, linked.Steps (.defineVariable entry)
        (environment.perform (.defineVariable entry)).1 next ∧
      Mirrors (environment.perform (.defineVariable entry)).2 next ∧
      (environment.perform (.defineVariable entry)).2.Sound := by
  obtain ⟨address, cell, innermost, current, there, depicts⟩ := mirrors.innermost sound
  have tells := depicts.entry entry.name
  rw [perform, defineVariable]
  cases known : environment.currentScope.findVariable entry.name with
  | some other =>
    rw [if_pos Option.isSome_some]
    exact ⟨linked, .variableDefined innermost (tells.trans known), mirrors, sound⟩
  | none =>
    rw [if_neg (by simp)]
    refine ⟨_, .defineVariable innermost (tells.trans known),
      mirrors.modify there current (depicts.withVariable known), sound.modify ?_⟩
    intro scope standing
    cases there.symm.trans standing
    exact ⟨rfl, (sound.distinct _ _ there).withVariable known⟩

/-- The definition of a function is answered alike. -/
theorem perform_defineFunction (mirrors : Mirrors environment linked) (sound : environment.Sound)
    (routine : Routine ι) :
    ∃ next, linked.Steps (.defineFunction routine)
        (environment.perform (.defineFunction routine)).1 next ∧
      Mirrors (environment.perform (.defineFunction routine)).2 next ∧
      (environment.perform (.defineFunction routine)).2.Sound := by
  obtain ⟨address, cell, innermost, current, there, depicts⟩ := mirrors.innermost sound
  have tells := depicts.routine routine.name routine.arity
  rw [perform, defineFunction]
  cases known : environment.currentScope.findFunction routine.name routine.arity with
  | some other =>
    rw [if_pos Option.isSome_some]
    exact ⟨linked, .functionDefined innermost (tells.trans known), mirrors, sound⟩
  | none =>
    rw [if_neg (by simp)]
    refine ⟨_, .defineFunction innermost (tells.trans known),
      mirrors.modify there current (depicts.withFunction known), sound.modify ?_⟩
    intro scope standing
    cases there.symm.trans standing
    exact ⟨rfl, (sound.distinct _ _ there).withFunction known⟩

/-- A value that is put behind a variable of an open scope. -/
theorem update {place owner : Nat} {scope : Scope ν ι} {cell : Cell ν ι} {name : String}
    {value : ν} (mirrors : Mirrors environment linked) (sound : environment.Sound)
    (there : environment.scopes[place]? = some scope) (inside : linked.opened[place]? = some owner)
    (depicts : Depicts linked.opened scope cell) :
    Mirrors ⟨environment.scopes.modify place (·.setVariable name value)⟩
        (linked.put owner (cell.withValue name value)) ∧
      Sound ⟨environment.scopes.modify place (·.setVariable name value)⟩ := by
  refine ⟨mirrors.modify there inside depicts.withValue, sound.modify fun scope standing => ?_⟩
  exact ⟨rfl, (sound.distinct _ _ standing).setVariable⟩

/-- The reference takes the same step, with the same answer. -/
theorem perform {operation : Operation ν ι} (mirrors : Mirrors environment linked)
    (sound : environment.Sound)
    (admits : ∀ index, operation = .openScope (some index) → index < environment.scopes.size) :
    ∃ next, linked.Steps operation (environment.perform operation).1 next ∧
      Mirrors (environment.perform operation).2 next ∧
      (environment.perform operation).2.Sound := by
  cases operation with
  | openScope parent =>
    have inside (index : Nat) (given : parent = some index) : index < environment.scopes.size :=
      admits index (given ▸ rfl)
    obtain ⟨address, continues, opened⟩ := mirrors.continues sound inside
    have answer : (environment.openScope parent).current = linked.opened.length := by
      rw [Environment.current_openScope, mirrors.size]
    rw [Environment.perform, answer]
    exact ⟨_, .openScope continues, mirrors.openScope sound opened, sound.openScope inside⟩
  | closeScope index =>
    rw [Environment.perform]
    cases closed : environment.closeScope index with
    | ok after =>
      obtain ⟨⟨last, inner⟩, rfl⟩ := closeScope_ok_iff.mp closed
      rw [← mirrors.size] at last
      exact ⟨_, .closeScope last inner, mirrors.closeScope sound, sound.closeScope closed⟩
    | error fault =>
      obtain ⟨outside, rfl⟩ := closeScope_error_iff.mp closed
      rw [← mirrors.size] at outside
      exact ⟨linked, .closedOutOfOrder outside, mirrors, sound⟩
  | defineVariable entry => exact mirrors.perform_defineVariable sound entry
  | defineFunction routine => exact mirrors.perform_defineFunction sound routine
  | lookupVariable name =>
    obtain ⟨address, last, ⟨search, nothing⟩ |
      ⟨place, entry, scope, owner, cell, search, -, -, -, -, finds⟩⟩ :=
      mirrors.finds_current sound fun scope cell depicts => depicts.entry name
    · rw [Environment.perform, Environment.lookupVariable, search]
      exact ⟨linked, .undefinedVariable last nothing, mirrors, sound⟩
    · rw [Environment.perform, Environment.lookupVariable, search]
      exact ⟨linked, .lookupVariable last finds, mirrors, sound⟩
  | lookupFunction name arity =>
    obtain ⟨address, last, ⟨search, nothing⟩ |
      ⟨place, routine, scope, owner, cell, search, -, -, -, -, finds⟩⟩ :=
      mirrors.finds_current sound fun scope cell depicts => depicts.routine name arity
    · rw [Environment.perform, Environment.lookupFunction, search]
      exact ⟨linked, .undefinedFunction last nothing, mirrors, sound⟩
    · rw [Environment.perform, Environment.lookupFunction, search]
      exact ⟨linked, .lookupFunction last finds, mirrors, sound⟩
  | assign name value =>
    obtain ⟨address, last, ⟨search, nothing⟩ |
      ⟨place, entry, scope, owner, cell, search, there, inside, held, depicts, finds⟩⟩ :=
      mirrors.finds_current sound fun scope cell depicts => depicts.entry name
    · rw [Environment.perform, Environment.setVariable, Environment.lookupVariable, search]
      exact ⟨linked, .assignUndefined last nothing, mirrors, sound⟩
    · rw [Environment.perform, Environment.setVariable, Environment.lookupVariable, search]
      exact ⟨_, .assign last finds held, mirrors.update sound there inside depicts⟩
  | update index name value =>
    rw [Environment.perform]
    cases there : environment.scopes[index]? with
    | some scope =>
      obtain ⟨owner, cell, inside, held, depicts⟩ := mirrors.depicts index scope there
      exact ⟨_, .update inside held, mirrors.update sound there inside depicts⟩
    | none =>
      have outside : linked.opened[index]? = none := by
        rw [List.getElem?_eq_none_iff, mirrors.size]
        exact Array.getElem?_eq_none_iff.mp there
      have same : (⟨environment.scopes.modify index (·.setVariable name value)⟩ :
          Environment ν ι) = environment := by
        refine ext_place fun place => ?_
        rw [Array.getElem?_modify]
        split
        · next same => rw [← same, there, Option.map_none]
        · rfl
      rw [same]
      exact ⟨linked, .updateClosed outside, mirrors, sound⟩

end Mirrors

namespace Environment

variable {environment final : Environment ν ι} {linked : Linked ν ι}

/-- For a sequence of operations the reference takes the same steps, with the same answers. -/
theorem performAll_runs {operations : List (Operation ν ι)} (mirrors : Mirrors environment linked)
    (sound : environment.Sound) (admits : environment.Admits operations) :
    ∃ last, linked.Runs operations (environment.performAll operations).1 last ∧
      Mirrors (environment.performAll operations).2 last ∧
      (environment.performAll operations).2.Sound := by
  induction operations generalizing environment linked with
  | nil => exact ⟨linked, .nil, mirrors, sound⟩
  | cons operation rest inductionHypothesis =>
    obtain ⟨now, later⟩ := admits
    obtain ⟨next, steps, mirrorsNext, soundNext⟩ := mirrors.perform sound now
    obtain ⟨last, runs, mirrorsLast, soundLast⟩ :=
      inductionHypothesis mirrorsNext soundNext later
    exact ⟨last, .cons steps runs, mirrorsLast, soundLast⟩

/-- An operation that is refused leaves the scopes as they are. -/
theorem perform_refused {operation : Operation ν ι} {fault : ScopeFault}
    (refused : (environment.perform operation).1 = .refused fault) :
    (environment.perform operation).2 = environment := by
  have attempted {outcome : Except ScopeFault (Environment ν ι)}
      (refused : (environment.attempt outcome).1 = .refused fault) :
      (environment.attempt outcome).2 = environment := by
    cases outcome with
    | ok after => cases refused
    | error fault => rfl
  cases operation with
  | openScope parent => cases refused
  | closeScope index => exact attempted refused
  | defineVariable entry => exact attempted refused
  | defineFunction routine => exact attempted refused
  | lookupVariable name =>
    rw [perform]
    split
    · rfl
    · rfl
  | lookupFunction name arity =>
    rw [perform]
    split
    · rfl
    · rfl
  | assign name value => exact attempted refused
  | update index name value => cases refused

/-- From the one scope to the other one leads a way along the parents. -/
def Leads (environment : Environment ν ι) : Nat → Nat → Prop :=
  Relation.ReflTransGen fun place parent =>
    ∃ scope, environment.scopes[place]? = some scope ∧ scope.parent = some parent

/-- Along the parents no scope is further up, and every way ends at the root. -/
theorem Sound.leads {start place : Nat} (sound : environment.Sound)
    (inside : start < environment.scopes.size) (leads : environment.Leads start place) :
    place ≤ start ∧ environment.Leads place 0 := by
  have down (place : Nat) (inside : place < environment.scopes.size) :
      environment.Leads place 0 := by
    induction place using Nat.strongRecOn with
    | ind place inductionHypothesis =>
      by_cases root : place = 0
      · subst root
        exact .refl
      · have there := Array.getElem?_eq_getElem inside
        obtain ⟨parent, continues, lower⟩ := sound.parent place _ there root
        exact .head ⟨_, there, continues⟩ (inductionHypothesis parent lower (by omega))
  have below : place ≤ start := by
    induction leads with
    | refl => exact Nat.le_refl _
    | tail _ step inductionHypothesis =>
      obtain ⟨scope, there, continues⟩ := step
      have lower := sound.ordered _ scope _ there continues
      exact Nat.le_trans (Nat.le_of_lt lower) inductionHypothesis
  exact ⟨below, down place (by omega)⟩

/-- Scopes by place answer as scopes that are linked by pointers do, whatever is done with
them and however often a place is taken over by another scope. At all times the root is open,
every other scope continues in one below it, names are distinct in each scope, and the parents
lead from the current scope through open ones to the root. An operation that is refused
changes nothing. -/
theorem environment_refines_linked {operations : List (Operation ν ι)}
    (admits : (initial : Environment ν ι).Admits operations) :
    (∃ last, Linked.initial.Runs operations ((initial : Environment ν ι).performAll operations).1
        last ∧ Mirrors ((initial : Environment ν ι).performAll operations).2 last) ∧
    (∀ answers last, Linked.initial.Runs operations answers last →
      answers = ((initial : Environment ν ι).performAll operations).1) ∧
    ∀ final, ((initial : Environment ν ι).performAll operations).2 = final →
      final.Sound ∧
      (∀ place, final.Leads final.current place →
        place < final.scopes.size ∧ final.Leads place 0) ∧
      ∀ operation fault, (final.perform operation).1 = .refused fault →
        (final.perform operation).2 = final := by
  obtain ⟨last, runs, mirrors, sound⟩ := performAll_runs .initial sound_initial admits
  refine ⟨⟨last, runs, mirrors⟩, fun answers other again => again.unique runs, ?_⟩
  rintro final rfl
  refine ⟨sound, fun place leads => ?_, fun operation fault => perform_refused⟩
  have inside := Nat.sub_lt sound.occupied Nat.one_pos
  obtain ⟨below, down⟩ := sound.leads inside leads
  exact ⟨Nat.lt_of_le_of_lt below inside, down⟩

/-- A scope is opened at the place of one that was closed, and does not have its names. -/
def reopening : List (Operation Nat Unit) :=
  [.defineVariable ⟨"a", .integer, true, 1⟩, .openScope none,
    .defineVariable ⟨"a", .integer, true, 2⟩, .closeScope 1, .closeScope 1,
    .openScope (some 0), .assign "a" 3, .lookupVariable "a"]

/-- A scope that is opened, closed and opened again has the same place, and is refused in
between. -/
theorem reopening_refines :
    (initial : Environment Nat Unit).Admits reopening ∧
      (∃ last, Linked.initial.Runs reopening
        [.done, .opened 1, .done, .done, .refused (.closedOutOfOrder 1), .opened 1, .done,
          .meansVariable ⟨"a", .integer, true, 3⟩] last) := by
  have admits : (initial : Environment Nat Unit).Admits reopening := by
    simp [reopening, Admits, perform, attempt, initial, defineVariable, openScope, closeScope,
      current, currentScope, modifyCurrent, Scope.findVariable]
  have answers : ((initial : Environment Nat Unit).performAll reopening).1 =
      [.done, .opened 1, .done, .done, .refused (.closedOutOfOrder 1), .opened 1, .done,
        .meansVariable ⟨"a", .integer, true, 3⟩] := by
    simp [reopening, performAll, perform, attempt, initial, defineVariable, openScope, closeScope,
      setVariable, lookupVariable, search, current, currentScope, modifyCurrent,
      Scope.findVariable, Scope.setVariable]
  obtain ⟨last, runs, -⟩ := (environment_refines_linked admits).1
  rw [answers] at runs
  exact ⟨admits, last, runs⟩

end Environment

end Blockscript
