import Blockscript.Environment
import Mathlib.Logic.Function.Basic

/-!
# Scopes that are linked by pointers

The reference for the environment. A scope is a cell of its own, which is created once and
never moved: a map of variables, a map of functions, and the address of the cell that names
are looked up in next. A name means what the innermost cell along these pointers says. Which
scopes are open is a list of addresses beside the cells, and closing a scope leaves its cell
behind.

The reference is a relation, so that a look-up along pointers that lead in a circle has no
answer at all. Where there is an answer there is only one.
-/

namespace Blockscript

/-- One scope by itself. -/
structure Cell (ν ι : Type) where
  parent : Option Nat
  entry : String → Option (Variable ν)
  routine : String → Nat → Option (Routine ι)

/-- All scopes that have ever been opened, by address, and those that are open, the root
first. -/
structure Linked (ν ι : Type) where
  cells : List (Cell ν ι)
  opened : List Nat

/-- What can be done with scopes. A variable is updated by its name, as it is meant here, or
right in an open scope that it was found in before. -/
inductive Operation (ν ι : Type) where
  | openScope (parent : Option Nat)
  | closeScope (index : Nat)
  | defineVariable (entry : Variable ν)
  | defineFunction (routine : Routine ι)
  | lookupVariable (name : String)
  | lookupFunction (name : String) (arity : Nat)
  | assign (name : String) (value : ν)
  | update (index : Nat) (name : String) (value : ν)

/-- What an operation answers. -/
inductive Answer (ν ι : Type) where
  | done
  | opened (index : Nat)
  | meansVariable (entry : Variable ν)
  | meansFunction (routine : Routine ι)
  | refused (fault : ScopeFault)

variable {ν ι : Type}

namespace Cell

/-- A scope without names. -/
def empty (parent : Option Nat) : Cell ν ι :=
  ⟨parent, fun _ => none, fun _ _ => none⟩

/-- The cell with one more variable. -/
def withVariable (cell : Cell ν ι) (entry : Variable ν) : Cell ν ι :=
  { cell with entry := Function.update cell.entry entry.name (some entry) }

/-- The cell with one more function. -/
def withFunction (cell : Cell ν ι) (routine : Routine ι) : Cell ν ι :=
  { cell with
    routine := fun name arity =>
      if routine.name = name ∧ routine.arity = arity then some routine
      else cell.routine name arity }

/-- The cell with another value behind a variable, if there is one of the name. -/
def withValue (cell : Cell ν ι) (name : String) (value : ν) : Cell ν ι :=
  { cell with
    entry := Function.update cell.entry name
      ((cell.entry name).map fun entry => { entry with value := value }) }

end Cell

namespace Linked

/-- Only the root is there, and it is open. -/
def initial : Linked ν ι :=
  ⟨[.empty none], [0]⟩

/-- Puts a cell into the place of another one. -/
def put (linked : Linked ν ι) (address : Nat) (cell : Cell ν ι) : Linked ν ι :=
  { linked with cells := linked.cells.set address cell }

/-- Opens a new cell that points to the given one. -/
def enter (linked : Linked ν ι) (parent : Nat) : Linked ν ι :=
  ⟨linked.cells ++ [.empty (some parent)], linked.opened ++ [linked.cells.length]⟩

/-- The cell at the address of the innermost open scope. -/
def Innermost (linked : Linked ν ι) (address : Nat) (cell : Cell ν ι) : Prop :=
  linked.opened.getLast? = some address ∧ linked.cells[address]? = some cell

/-- What is found along the pointers, from an address on, and in which cell. -/
inductive Finds {β : Type} (linked : Linked ν ι) (found : Cell ν ι → Option β) :
    Nat → Option (Nat × β) → Prop where
  | here {address : Nat} {cell : Cell ν ι} {result : β} : linked.cells[address]? = some cell →
      found cell = some result → Finds linked found address (some (address, result))
  | outward {address parent : Nat} {cell : Cell ν ι} {result : Option (Nat × β)} :
      linked.cells[address]? = some cell → found cell = none → cell.parent = some parent →
      Finds linked found parent result → Finds linked found address result
  | nowhere {address : Nat} {cell : Cell ν ι} : linked.cells[address]? = some cell →
      found cell = none → cell.parent = none → Finds linked found address none

/-- One operation of the reference, with its answer and the state behind it. -/
inductive Steps (linked : Linked ν ι) : Operation ν ι → Answer ν ι → Linked ν ι → Prop where
  | openScope {parent : Option Nat} {address : Nat} :
      (parent.elim linked.opened.getLast? fun index => linked.opened[index]?) = some address →
      Steps linked (.openScope parent) (.opened linked.opened.length) (linked.enter address)
  | closeScope {index : Nat} : index + 1 = linked.opened.length → index ≠ 0 →
      Steps linked (.closeScope index) .done { linked with opened := linked.opened.dropLast }
  | closedOutOfOrder {index : Nat} : ¬(index + 1 = linked.opened.length ∧ index ≠ 0) →
      Steps linked (.closeScope index) (.refused (.closedOutOfOrder index)) linked
  | defineVariable {entry : Variable ν} {address : Nat} {cell : Cell ν ι} :
      linked.Innermost address cell → cell.entry entry.name = none →
      Steps linked (.defineVariable entry) .done (linked.put address (cell.withVariable entry))
  | variableDefined {entry other : Variable ν} {address : Nat} {cell : Cell ν ι} :
      linked.Innermost address cell → cell.entry entry.name = some other →
      Steps linked (.defineVariable entry) (.refused (.variableDefined entry.name)) linked
  | defineFunction {routine : Routine ι} {address : Nat} {cell : Cell ν ι} :
      linked.Innermost address cell → cell.routine routine.name routine.arity = none →
      Steps linked (.defineFunction routine) .done (linked.put address (cell.withFunction routine))
  | functionDefined {routine other : Routine ι} {address : Nat} {cell : Cell ν ι} :
      linked.Innermost address cell → cell.routine routine.name routine.arity = some other →
      Steps linked (.defineFunction routine)
        (.refused (.functionDefined routine.name routine.arity)) linked
  | lookupVariable {name : String} {address owner : Nat} {entry : Variable ν} :
      linked.opened.getLast? = some address →
      linked.Finds (·.entry name) address (some (owner, entry)) →
      Steps linked (.lookupVariable name) (.meansVariable entry) linked
  | undefinedVariable {name : String} {address : Nat} : linked.opened.getLast? = some address →
      linked.Finds (·.entry name) address none →
      Steps linked (.lookupVariable name) (.refused (.undefinedVariable name)) linked
  | lookupFunction {name : String} {arity address owner : Nat} {routine : Routine ι} :
      linked.opened.getLast? = some address →
      linked.Finds (·.routine name arity) address (some (owner, routine)) →
      Steps linked (.lookupFunction name arity) (.meansFunction routine) linked
  | undefinedFunction {name : String} {arity address : Nat} :
      linked.opened.getLast? = some address →
      linked.Finds (·.routine name arity) address none →
      Steps linked (.lookupFunction name arity) (.refused (.undefinedFunction name arity)) linked
  | assign {name : String} {value : ν} {address owner : Nat} {entry : Variable ν}
      {cell : Cell ν ι} : linked.opened.getLast? = some address →
      linked.Finds (·.entry name) address (some (owner, entry)) →
      linked.cells[owner]? = some cell →
      Steps linked (.assign name value) .done (linked.put owner (cell.withValue name value))
  | assignUndefined {name : String} {value : ν} {address : Nat} :
      linked.opened.getLast? = some address → linked.Finds (·.entry name) address none →
      Steps linked (.assign name value) (.refused (.undefinedVariable name)) linked
  | update {index address : Nat} {name : String} {value : ν} {cell : Cell ν ι} :
      linked.opened[index]? = some address → linked.cells[address]? = some cell →
      Steps linked (.update index name value) .done (linked.put address (cell.withValue name value))
  | updateClosed {index : Nat} {name : String} {value : ν} : linked.opened[index]? = none →
      Steps linked (.update index name value) .done linked

/-- A sequence of operations of the reference, with all answers. -/
inductive Runs : Linked ν ι → List (Operation ν ι) → List (Answer ν ι) → Linked ν ι → Prop where
  | nil {linked : Linked ν ι} : Runs linked [] [] linked
  | cons {linked next final : Linked ν ι} {operation : Operation ν ι} {answer : Answer ν ι}
      {rest : List (Operation ν ι)} {answers : List (Answer ν ι)} :
      linked.Steps operation answer next → next.Runs rest answers final →
      linked.Runs (operation :: rest) (answer :: answers) final

variable {linked next final : Linked ν ι}

/-- Along the pointers there is one thing to be found at most. -/
theorem Finds.unique {β : Type} {found : Cell ν ι → Option β} {address : Nat}
    {result other : Option (Nat × β)} (finds : linked.Finds found address result)
    (again : linked.Finds found address other) : result = other := by
  induction finds with
  | here there result =>
    cases again with
    | here thereToo resultToo => simp_all
    | outward thereToo none _ _ => simp_all
    | nowhere thereToo none _ => simp_all
  | outward there none onwards _ inductionHypothesis =>
    cases again with
    | here thereToo resultToo => simp_all
    | outward thereToo _ onwardsToo further =>
      cases there.symm.trans thereToo
      cases onwards.symm.trans onwardsToo
      exact inductionHypothesis further
    | nowhere thereToo _ ends => simp_all
  | nowhere there none ends =>
    cases again with
    | here thereToo resultToo => simp_all
    | outward thereToo _ onwardsToo _ => simp_all
    | nowhere => rfl

/-- There is one innermost cell. -/
theorem Innermost.unique {address other : Nat} {cell second : Cell ν ι}
    (innermost : linked.Innermost address cell) (again : linked.Innermost other second) :
    address = other ∧ cell = second := by
  obtain ⟨last, there⟩ := innermost
  obtain ⟨lastToo, thereToo⟩ := again
  cases last.symm.trans lastToo
  cases there.symm.trans thereToo
  exact ⟨rfl, rfl⟩

/-- From the innermost scope on one thing is found at most. -/
theorem Finds.unique_innermost {β : Type} {found : Cell ν ι → Option β} {address second : Nat}
    {result other : Option (Nat × β)} (last : linked.opened.getLast? = some address)
    (finds : linked.Finds found address result) (lastToo : linked.opened.getLast? = some second)
    (again : linked.Finds found second other) : result = other := by
  cases last.symm.trans lastToo
  exact finds.unique again

/-- The reference answers an operation in one way. -/
theorem Steps.unique {operation : Operation ν ι} {answer other : Answer ν ι}
    (steps : linked.Steps operation answer next) (again : linked.Steps operation other final) :
    answer = other ∧ next = final := by
  cases steps with
  | openScope parent =>
    cases again with
    | openScope parentToo =>
      cases parent.symm.trans parentToo
      exact ⟨rfl, rfl⟩
  | closeScope last inner =>
    cases again with
    | closeScope => exact ⟨rfl, rfl⟩
    | closedOutOfOrder outside => exact absurd ⟨last, inner⟩ outside
  | closedOutOfOrder outside =>
    cases again with
    | closeScope last inner => exact absurd ⟨last, inner⟩ outside
    | closedOutOfOrder => exact ⟨rfl, rfl⟩
  | defineVariable innermost fresh =>
    cases again with
    | defineVariable innermostToo _ =>
      obtain ⟨rfl, rfl⟩ := innermost.unique innermostToo
      exact ⟨rfl, rfl⟩
    | variableDefined innermostToo taken =>
      obtain ⟨rfl, rfl⟩ := innermost.unique innermostToo
      cases fresh.symm.trans taken
  | variableDefined innermost taken =>
    cases again with
    | defineVariable innermostToo fresh =>
      obtain ⟨rfl, rfl⟩ := innermost.unique innermostToo
      cases fresh.symm.trans taken
    | variableDefined => exact ⟨rfl, rfl⟩
  | defineFunction innermost fresh =>
    cases again with
    | defineFunction innermostToo _ =>
      obtain ⟨rfl, rfl⟩ := innermost.unique innermostToo
      exact ⟨rfl, rfl⟩
    | functionDefined innermostToo taken =>
      obtain ⟨rfl, rfl⟩ := innermost.unique innermostToo
      cases fresh.symm.trans taken
  | functionDefined innermost taken =>
    cases again with
    | defineFunction innermostToo fresh =>
      obtain ⟨rfl, rfl⟩ := innermost.unique innermostToo
      cases fresh.symm.trans taken
    | functionDefined => exact ⟨rfl, rfl⟩
  | lookupVariable last finds =>
    cases again with
    | lookupVariable lastToo findsToo =>
      cases Finds.unique_innermost last finds lastToo findsToo
      exact ⟨rfl, rfl⟩
    | undefinedVariable lastToo nothing =>
      cases Finds.unique_innermost last finds lastToo nothing
  | undefinedVariable last nothing =>
    cases again with
    | lookupVariable lastToo finds => cases Finds.unique_innermost last nothing lastToo finds
    | undefinedVariable => exact ⟨rfl, rfl⟩
  | lookupFunction last finds =>
    cases again with
    | lookupFunction lastToo findsToo =>
      cases Finds.unique_innermost last finds lastToo findsToo
      exact ⟨rfl, rfl⟩
    | undefinedFunction lastToo nothing =>
      cases Finds.unique_innermost last finds lastToo nothing
  | undefinedFunction last nothing =>
    cases again with
    | lookupFunction lastToo finds => cases Finds.unique_innermost last nothing lastToo finds
    | undefinedFunction => exact ⟨rfl, rfl⟩
  | assign last finds there =>
    cases again with
    | assign lastToo findsToo thereToo =>
      cases Finds.unique_innermost last finds lastToo findsToo
      cases there.symm.trans thereToo
      exact ⟨rfl, rfl⟩
    | assignUndefined lastToo nothing => cases Finds.unique_innermost last finds lastToo nothing
  | assignUndefined last nothing =>
    cases again with
    | assign lastToo finds _ => cases Finds.unique_innermost last nothing lastToo finds
    | assignUndefined => exact ⟨rfl, rfl⟩
  | update inside there =>
    cases again with
    | update insideToo thereToo =>
      cases inside.symm.trans insideToo
      cases there.symm.trans thereToo
      exact ⟨rfl, rfl⟩
    | updateClosed outside => cases inside.symm.trans outside
  | updateClosed outside =>
    cases again with
    | update inside _ => cases inside.symm.trans outside
    | updateClosed => exact ⟨rfl, rfl⟩

/-- The reference answers a sequence of operations in one way. -/
theorem Runs.unique {operations : List (Operation ν ι)} {answers others : List (Answer ν ι)}
    (runs : linked.Runs operations answers next) (again : linked.Runs operations others final) :
    answers = others := by
  induction runs generalizing others with
  | nil =>
    cases again with
    | nil => rfl
  | cons steps _ inductionHypothesis =>
    cases again with
    | cons stepsToo further =>
      obtain ⟨rfl, rfl⟩ := steps.unique stepsToo
      rw [inductionHypothesis further]

end Linked

end Blockscript
