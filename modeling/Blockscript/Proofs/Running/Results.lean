import Blockscript.Proofs.Running.Definite
import Blockscript.Proofs.Running.Soundness

/-!
# What programs give

The result of an accepted program is what its `main` gives, and the checker asks of `main`
that this be an integer. Nil is of every type, so the result is an integer or nil; it is an
integer if the program is definite.
-/

namespace Blockscript.Chronicle

open Running (Body Machine Outcome Run Meets)

variable {program : Program .checked} {seen : Scopes → Expr .checked → Prop} {record : Record}
  {scopes : Scopes} {budget : Nat}

/-! ## Globals and functions -/

/-- A global that is an integer is defined with a value that is there. -/
theorem supplies_executeGlobal {typed : ProgramTyped seen program} {root : List Binding}
    {definition : GlobalDef .checked} (definite : program.Definite)
    (globalTyped : GlobalTyped seen root definition)
    (given : definition.entry.type = .integer → definition.value.isSome = true)
    (outside : Outside (.behindGlobals typed root) record) :
    Supplies (executeGlobal program budget root definition) record fun _ => True := by
  unfold executeGlobal
  have parts : Supplied (.behindGlobals typed root) budget := supplied definite budget
  refine (parts.evaluateOptional globalTyped.value given outside.ready).bind
    fun value first present => ?_
  have defined : Supplies (perform (rootScopes root) (·.bind (definition.binding root.length))
      (Running.define definition.name definition.mutable value)) first fun _ => True :=
    supplies_define present
  exact defined.bind fun _ _ _ => supplies_trace

/-- The globals are given values one behind the other, each with those before it. -/
theorem supplies_executeGlobals {typed : ProgramTyped seen program}
    (definite : program.Definite) {definitions : List (GlobalDef .checked)}
    (given : ∀ definition ∈ definitions,
      definition.entry.type = .integer → definition.value.isSome = true) :
    ∀ {root : List Binding} {record : Record}, GlobalsTyped seen root definitions →
      Outside (.behindGlobals typed root) record →
      Supplies (executeGlobals program budget root definitions) record fun _ => True := by
  induction definitions with
  | nil =>
    intro root record _ _
    unfold executeGlobals
    exact supplies_pure trivial
  | cons first rest inductionHypothesis =>
    intro root record globalsTyped outside
    obtain ⟨here, others⟩ := List.forall_mem_cons.mp given
    cases globalsTyped with
    | cons firstTyped restTyped =>
      unfold executeGlobals
      refine supplies_then (executeGlobal_outside firstTyped outside budget)
        (supplies_executeGlobal definite firstTyped here outside) ?_
      intro _ middle grown _
      exact inductionHypothesis others restTyped grown

/-- The definitions of functions leave no integer missing. -/
theorem supplies_defineFunctions {definitions : List (FunctionDef .checked)} :
    ∀ {scopes : Scopes} {record : Record},
      Supplies (defineFunctions scopes definitions) record fun _ => True := by
  induction definitions with
  | nil =>
    intro scopes record
    unfold defineFunctions
    exact supplies_pure trivial
  | cons first rest inductionHypothesis =>
    intro scopes record
    unfold defineFunctions
    exact supplies_defineFunction.bind fun _ _ _ => inductionHypothesis

/-! ## Programs -/

/-- What a definite program gives is there. -/
theorem supplies_runProgram (typed : ProgramTyped seen program) (definite : program.Definite)
    (budget detail : Nat) :
    Supplies (runProgram program budget) (Record.initial detail) (Present .integer) := by
  unfold runProgram
  have start := Outside.initial typed detail
  refine supplies_then (executeGlobals_outside budget typed.globals start)
    (supplies_executeGlobals definite definite.globals typed.globals start) ?_
  intro _ first globals _
  refine supplies_then (defineFunctions_outside List.nil_prefix rfl globals.defining)
    supplies_defineFunctions ?_
  intro _ second defined _
  obtain ⟨main, found, parameters, result⟩ := main_known typed
  refine supplies_then (perform_lookupFunction defined.ready found) supplies_lookup ?_
  rintro routine third ⟨steady, body, member, rfl, means⟩ _
  have none : (signature body).parameters = [] := means.parameters ▸ parameters
  have integer : Ty.integer = (signature body).result := means.result .integer (by simp [result])
  have parts : Supplied (.behindFunctions typed (List.prefix_refl program.functions)) budget :=
    supplied definite budget
  rw [integer]
  exact parts.invoke member (none ▸ .nil) (none ▸ .nil) steady.intact

variable {source : String} {tree : Program .checked}

/-- Whenever a run of an accepted text ends without a fault, what it gives is an integer or
nil. If the text is a definite program, it is an integer. -/
theorem main_gives_integer (accepted : checkedProgram source = .ok tree) {detail : Nat}
    {value : Value} (ended : (Running.run budget detail tree).1 = .ok value) :
    (value = .nil ∨ ∃ number, value = .integer number) ∧
      (tree.Definite → ∃ number, value = .integer number) := by
  obtain ⟨program, _, typed⟩ := checkedProgram_typed accepted
  have gives : ((runProgram tree budget).run (Record.initial detail)).1 = .ok value := by
    rw [← ended, ← run_tells tree budget detail]
    rfl
  have known := runProgram_faithful typed budget detail
  unfold Meets at known
  cases ending : (runProgram tree budget).run (Record.initial detail) with
  | mk outcome final =>
    rw [ending] at gives known
    obtain rfl : outcome = .ok value := gives
    have either : value = .nil ∨ ∃ number, value = .integer number := by
      cases known.2 with
      | nil => exact .inl rfl
      | integer => exact .inr ⟨_, rfl⟩
    refine ⟨either, fun definite => either.resolve_left ?_⟩
    have present := supplies_runProgram typed definite budget detail (complete_initial detail)
    unfold Meets at present
    rw [ending] at present
    exact present.2 rfl

/-- A text of a definite program: what `main` calls returns in both blocks. -/
def branching : String :=
  "FUN f(b: Boolean) DO IF b DO RETURN 1; ELSE RETURN 2; END END FUN main() DO RETURN f(TRUE); END"

/-- Its program. -/
def branchingTree : Program .checked :=
  { globals := []
    functions := [
      ⟨"f", ["b"], [some "Boolean"], none,
        [.conditional (.access .boolean ⟨"b", .boolean, true, ()⟩ "b")
          [.returning (.literal .integer (.integer 1))]
          [.returning (.literal .integer (.integer 2))]], ⟨[.boolean], .integer⟩⟩,
      ⟨"main", [], [], none, [.returning (.call .integer ⟨[.boolean], .integer⟩ "f"
        [.literal .boolean (.boolean true)])], ⟨[], .integer⟩⟩] }

/-- A program that returns in both branches of a conditional gives an integer. -/
theorem branching_gives_integer :
    checkedProgram branching = .ok branchingTree ∧ branchingTree.Definite ∧
      (Running.run 20 0 branchingTree).1 = .ok (.integer 1) ∧
      ∃ number, Value.integer 1 = .integer number := by
  have accepted : checkedProgram branching = .ok branchingTree := by cbv
  have definite : branchingTree.Definite := by decide
  have ended : (Running.run 20 0 branchingTree).1 = .ok (.integer 1) := by cbv
  exact ⟨accepted, definite, ended, (main_gives_integer accepted ended).2 definite⟩

/-- A text in which an integer is declared without saying which. -/
def unsettled : String :=
  "FUN main(): Integer DO LET x: Integer; RETURN x; END"

/-- Its program. -/
def unsettledTree : Program .checked :=
  let x : Variable Unit := ⟨"x", .integer, true, ()⟩
  { globals := []
    functions := [⟨"main", [], [], some "Integer",
      [.declaration x "x" (some "Integer") none, .returning (.access .integer x "x")],
      ⟨[], .integer⟩⟩] }

/-- A text whose `main` ends without a return on one way. -/
def halfway : String :=
  "FUN main(): Integer DO IF FALSE DO RETURN 1; END END"

/-- Its program. -/
def halfwayTree : Program .checked :=
  { globals := []
    functions := [⟨"main", [], [], some "Integer",
      [.conditional (.literal .boolean (.boolean false))
        [.returning (.literal .integer (.integer 1))] []], ⟨[], .integer⟩⟩] }

/-- A program that is not definite may give nil, for either reason. -/
theorem indefinite_gives_nil :
    (checkedProgram unsettled = .ok unsettledTree ∧ ¬unsettledTree.Definite ∧
        (Running.run 20 0 unsettledTree).1 = .ok .nil) ∧
      checkedProgram halfway = .ok halfwayTree ∧ ¬halfwayTree.Definite ∧
        (Running.run 20 0 halfwayTree).1 = .ok .nil := by
  refine ⟨⟨?_, ?_, ?_⟩, ?_, ?_, ?_⟩
  · cbv
  · decide
  · cbv
  · cbv
  · decide
  · cbv

end Blockscript.Chronicle
