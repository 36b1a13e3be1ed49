import Blockscript.Proofs.Running.Depth
import Blockscript.Proofs.Running.Soundness

/-!
# Programs that end

A function is known to those behind it and to itself. So a call in its body runs a function
that stands further in front, or the function itself when it has its name and its number of
parameters. A run finds the same functions, since it finds the first of a name and arity
among all, and those in front come first.

Without loops and without functions that call themselves, the functions can therefore be
taken in order: a call of one takes as many steps inside one another as its body is deep, on
top of what calls of those before it take. This bounds the budget that a run needs.
-/

namespace Blockscript

variable {ν : Notes}

/-- The expression is a call with the given name and number of arguments. -/
def Expr.Calls (name : String) (arity : Nat) : Expr ν → Prop
  | .call _ _ other arguments => other = name ∧ arguments.length = arity
  | _ => False

/-- No call in the body of a function has its name and its number of parameters. -/
def FunctionDef.CallsOnlyOthers (definition : FunctionDef ν) : Prop :=
  ∀ root ∈ Stmt.rootsOf definition.body,
    root.Every fun inner => ¬ inner.Calls definition.name definition.parameters.length

/-- How many steps calls of some functions take inside one another, if none calls another
one of them that stands further behind. -/
def FunctionDef.callDepth (definitions : List (FunctionDef ν)) : Nat :=
  (definitions.map fun definition => Stmt.depthOf definition.body + 1).sum + 1

/-- How many steps a run of a program takes inside one another, under the same condition. -/
def Program.depth (program : Program ν) : Nat :=
  (program.globals.map fun definition => Expr.depthOfOptional definition.value).sum +
    FunctionDef.callDepth program.functions

namespace Chronicle

open Running (Body Machine Run Meets Holding Finishes meaning? suffices_budget)
open Environment (Gains)

variable {seen : Scopes → Expr .checked → Prop} {program : Program .checked}
  {known : List (Routine (Body .checked))} {budget : Nat}

/-- The functions of a program, as a run finds them once all are defined. -/
def routines (program : Program .checked) : List (Routine (Body .checked)) :=
  (bodies program.functions).map routineOf

/-! ## The order of calls -/

/-- One more function has one more body. -/
theorem bodies_append (before : List (FunctionDef .checked)) (definition : FunctionDef .checked) :
    bodies (before ++ [definition]) = bodies before ++ [.script definition 0] := by
  simp [bodies]

/-- A call in the body of a function runs a function in front of it, or the function itself
under its own name and arity. -/
theorem call_goes_back (typed : ProgramTyped seen program)
    {before after : List (FunctionDef .checked)} {definition : FunctionDef .checked}
    (split : program.functions = before ++ definition :: after) {root : Expr .checked}
    (member : root ∈ Stmt.rootsOf definition.body) {type : Ty} {types : Signature} {name : String}
    {arguments : List (Expr .checked)}
    (within : Expr.Within (.call type types name arguments) root) :
    ∃ body, meaning? (routines program) name arguments.length = some (routineOf body) ∧
      (body ∈ bodies before ∨ body = .script definition 0 ∧ name = definition.name ∧
        arguments.length = definition.parameters.length) := by
  obtain ⟨scopes, functions, rootTyped⟩ :=
    (typed.functions before definition after split).body.roots root member
  cases rootTyped.every _ within with
  | @call _ routine _ _ found =>
    have lengths (other : FunctionDef .checked) (inside : other ∈ before ++ [definition]) :
        other.parameters.length = other.routine.parameters.length := by
      refine typed.lengths other ?_
      rw [split, List.append_cons]
      exact List.mem_append_left after inside
    obtain ⟨taken, ⟨rest, whole⟩, meant⟩ :=
      @knows_site before after definition program.bindings lengths
    rw [Scopes.routine?, functions] at found
    obtain ⟨position, body, inStatics, inTaken, _, search⟩ := find_meant meant found
    -- The scopes in a body know one function more than stand in front of it: itself.
    have known : body ∈ bodies (before ++ [definition]) := by
      have length : taken.length = (bodies (before ++ [definition])).length := by
        rw [← meant.length_eq]
        simp [FunctionDef.site, bodies]
      have same : taken = bodies (before ++ [definition]) := by
        have all : taken ++ rest = bodies (before ++ [definition]) ++
            after.map fun other => .script other 0 := by
          rw [whole]
          simp [bodies]
        exact (List.append_inj all length).1
      exact same ▸ List.mem_of_getElem? inTaken
    refine ⟨body, ?_, ?_⟩
    · rw [meaning?, routines, split, ← whole, List.map_append, List.find?_append, search]
      rfl
    · rw [bodies_append] at known
      rcases List.mem_append.mp known with earlier | itself
      · exact .inl earlier
      · obtain rfl := List.mem_singleton.mp itself
        have chosen : definition.name = name ∧
            definition.parameters.length = arguments.length := by
          simpa [routineOf, Routine.arity] using List.find?_some search
        exact .inr ⟨rfl, chosen.1.symm, chosen.2.symm⟩

/-! ## Calls -/

/-- A call of the function that prints is finished. -/
theorem finishes_print {routine : Routine (Body .checked)} {values : List Value}
    (print : routine.implementation = some .print) (some : 0 < budget) :
    Finishes known (Running.invoke budget routine values) := by
  obtain ⟨budget, rfl⟩ := Nat.exists_eq_succ_of_ne_zero some.ne'
  refine Running.finishes_keeping ((Running.discipline.holds _).invoke routine values trivial)
    fun machine => ?_
  simp only [Running.invoke, Routine.required, print, Running.meets_bind, Running.meets_store,
    Running.meets_outcome, Running.meets_pure]
  exact ⟨fun text _ => Running.meets_print fun _ _ _ => trivial, fun _ _ => by simp⟩

/-- Calls of the functions in front of a place are finished within the budget for them. -/
theorem calls_finish (typed : ProgramTyped seen program)
    (straight : ∀ statement ∈ program.statements, statement.isLoop = false)
    (others : ∀ definition ∈ program.functions, definition.CallsOnlyOthers)
    (functions : List (FunctionDef .checked)) (front : functions <+: program.functions) :
    ∀ body ∈ bodies functions, ∀ budget values, FunctionDef.callDepth functions ≤ budget →
      Finishes (routines program) (Running.invoke budget (routineOf body) values) := by
  induction functions using List.reverseRecOn with
  | nil =>
    intro body member budget values enough
    obtain rfl := List.mem_singleton.mp member
    exact finishes_print rfl (by rw [FunctionDef.callDepth] at enough; omega)
  | append_singleton before definition inductionHypothesis =>
    have earlier := inductionHypothesis ((List.prefix_append _ _).trans front)
    intro body member budget values enough
    simp only [FunctionDef.callDepth, List.map_append, List.map_singleton, List.sum_append,
      List.sum_singleton] at enough
    rw [bodies_append] at member
    rcases List.mem_append.mp member with before | itself
    · exact earlier body before budget values (by rw [FunctionDef.callDepth]; omega)
    · obtain rfl := List.mem_singleton.mp itself
      obtain ⟨budget, rfl⟩ := Nat.exists_eq_succ_of_ne_zero (by omega : budget ≠ 0)
      obtain ⟨after, split⟩ := front
      rw [List.append_assoc, List.singleton_append] at split
      have among : definition ∈ program.functions := by
        rw [← split]
        simp
      refine Running.finishes_invoke rfl ?_ values
      refine (suffices_budget _ (FunctionDef.callDepth before) budget).executeBlock _ ?_ ?_ ?_
      · intro root rootMember inner within
        cases inner with
        | call type types name arguments =>
          intro routine found budget values enough
          obtain ⟨body, meant, place⟩ := call_goes_back typed split.symm rootMember within
          obtain rfl := Option.some.inj (found.symm.trans meant)
          rcases place with front | ⟨_, sameName, sameArity⟩
          · exact earlier body front budget values enough
          · exact absurd ⟨sameName, sameArity⟩ (others definition among root rootMember _ within)
        | _ => trivial
      · intro inner nested
        exact straight inner (List.mem_flatMap.mpr ⟨definition, among, nested⟩)
      · rw [FunctionDef.callDepth]
        omega

/-! ## Programs -/

/-- Nothing can be called but printing while globals are evaluated. -/
theorem globals_finish (globals : List (GlobalDef .checked))
    (deep : ∀ definition ∈ globals, Expr.depthOfOptional definition.value + 1 ≤ budget) :
    Finishes [routineOf .print] (Running.executeGlobals budget globals) := by
  induction globals with
  | nil => exact Running.finishes_pure ()
  | cons first rest inductionHypothesis =>
    obtain ⟨here, later⟩ := List.forall_mem_cons.mp deep
    refine .bind (.bind ?_ fun value => ?_) fun _ => inductionHypothesis later
    · refine (suffices_budget _ 1 budget).evaluateOptional first.value ?_ here
      intro tree _ inner _
      cases inner with
      | call type types name arguments =>
        intro routine found budget values enough
        obtain rfl := List.mem_singleton.mp (List.mem_of_find?_eq_some found)
        exact finishes_print rfl enough
      | _ => trivial
    · exact .bind (Running.finishes_define _ _ value) fun _ => Running.finishes_trace _ _

/-- A function that is defined in the root as the only scope is known behind the others. -/
theorem Holding.defineFunction {environment after : Environment Value (Body .checked)}
    {routine : Routine (Body .checked)} (holding : Holding known environment)
    (alone : environment.scopes.size = 1)
    (defined : environment.defineFunction routine = .ok after) :
    Holding (known ++ [routine]) after ∧ after.scopes.size = 1 := by
  obtain ⟨root, there, rfl⟩ := holding.root
  obtain ⟨-, rfl⟩ := Environment.defineFunction_ok_iff.mp defined
  have size : (environment.modifyCurrent fun scope =>
      { scope with functions := scope.functions ++ [routine] }).scopes.size = 1 := by
    simp [Environment.modifyCurrent, alone]
  refine ⟨⟨⟨{ root with functions := root.functions ++ [routine] }, ?_, rfl⟩, ?_⟩, size⟩
  · simp only [Environment.modifyCurrent, Environment.current, alone, Nat.sub_self,
      Array.getElem?_modify, there, ↓reduceIte, Option.map_some]
  · intro place scope other
    have inside := (Array.getElem?_eq_some_iff.mp other).1
    omega

/-- The definitions of functions leave the root with all of them. -/
theorem functions_held (before definitions : List (FunctionDef .checked))
    {machine : Machine .checked}
    (holding : Holding ((bodies before).map routineOf) machine.environment)
    (alone : machine.environment.scopes.size = 1) :
    Meets (Running.defineFunctions definitions) machine
      (fun _ after => Holding ((bodies (before ++ definitions)).map routineOf) after.environment)
      fun stop _ => stop ≠ .exhausted := by
  induction definitions generalizing machine before with
  | nil =>
    rw [List.append_nil]
    exact holding
  | cons first rest inductionHypothesis =>
    have current : machine.environment.current = 0 := by
      rw [Environment.current, alone]
    simp only [Running.defineFunctions, Running.defineFunction, Running.meets_bind,
      Running.meets_get, Running.meets_change, current]
    refine ⟨fun environment defined => ?_, by simp⟩
    obtain ⟨held, still⟩ := Holding.defineFunction holding alone defined
    refine Running.meets_trace_told fun after same _ => ?_
    have shape : (bodies (before ++ [first])).map routineOf =
        (bodies before).map routineOf ++ [routineOf (.script first 0)] := by
      rw [bodies_append, List.map_append, List.map_singleton]
    have further := @inductionHypothesis (before ++ [first]) after
      (by rw [shape, same]; exact held) (by rw [same]; exact still)
    rwa [List.append_assoc, List.singleton_append] at further

/-- At the start the root holds the function that prints. -/
theorem initial_holding (detail : Nat) :
    Holding [routineOf .print] (Machine.initial detail : Machine .checked).environment :=
  ⟨⟨_, rfl, rfl⟩, fun _ _ there => by cases there⟩

/-- The whole run of a typed program. -/
theorem program_finishes (typed : ProgramTyped seen program)
    (straight : ∀ statement ∈ program.statements, statement.isLoop = false)
    (others : ∀ definition ∈ program.functions, definition.CallsOnlyOthers) (detail : Nat)
    (deep : program.depth ≤ budget) :
    Meets (Running.runProgram budget program) (Machine.initial detail) (fun _ _ => True)
      fun stop _ => stop ≠ .exhausted := by
  rw [Program.depth] at deep
  have globals : Finishes [routineOf .print] (Running.executeGlobals budget program.globals) := by
    refine globals_finish program.globals fun definition member => ?_
    have single := List.le_sum_of_mem (List.mem_map_of_mem
      (f := fun definition : GlobalDef .checked => Expr.depthOfOptional definition.value) member)
    rw [FunctionDef.callDepth] at deep
    omega
  have start := initial_holding detail
  rw [Running.runProgram, Running.meets_bind]
  refine ((globals.ends _ start).both (globals.confined _ start.occupied)).imp ?_
    fun stop _ stopped => stopped.1
  rintro _ middle ⟨_, gained, _, gains⟩
  rw [Running.meets_bind]
  refine (functions_held [] program.functions (start.gains gains) ?_).imp ?_
    fun stop _ stopped => stopped
  · rw [gains.size]
    rfl
  · intro _ loaded holding
    have called : Finishes (routines program) (Running.callByName budget "main" []) := by
      refine .call (fun routine => (Running.discipline.holds budget).invoke routine [] trivial)
        fun routine found => ?_
      obtain ⟨body, member, rfl⟩ := List.mem_map.mp (List.mem_of_find?_eq_some found)
      exact calls_finish typed straight others program.functions (List.prefix_refl _) body member
        budget [] (by omega)
    exact called.ends loaded holding

/-- Where the functions are defined, a call in the body of one of them finds a function in
front of it, or that function itself under its own name and arity. -/
def CallsGoBack (program : Program .checked) : Prop :=
  ∀ before definition after, program.functions = before ++ definition :: after →
    ∀ root ∈ Stmt.rootsOf definition.body, ∀ type types name arguments,
      Expr.Within (.call type types name arguments) root →
      ∃ body, (∀ machine : Machine .checked, Holding (routines program) machine.environment →
          machine.environment.lookupFunction name arguments.length = .ok (routineOf body)) ∧
        (body ∈ bodies before ∨ body = .script definition 0 ∧ name = definition.name ∧
          arguments.length = definition.parameters.length)

/-- When `main` is called the functions are defined, and whatever is run from there leaves
them so. -/
def FunctionsStay (program : Program .checked) : Prop :=
  (∀ budget detail, Meets (do
      Running.executeGlobals budget program.globals
      Running.defineFunctions program.functions) (Machine.initial detail)
    (fun _ loaded => Holding (routines program) loaded.environment) fun _ _ => True) ∧
  ∀ (budget : Nat) (machine : Machine .checked), Holding (routines program) machine.environment →
    (∀ tree, Holding (routines program)
      ((Running.evaluate budget tree).run machine).2.environment) ∧
    (∀ tree, Holding (routines program)
      ((Running.execute budget tree).run machine).2.environment) ∧
    ∀ routine values, Holding (routines program)
      ((Running.invoke budget routine values).run machine).2.environment

/-- In a typed program a function calls those in front of it, or itself. -/
theorem typed_goes_back (typed : ProgramTyped seen program) : CallsGoBack program := by
  intro before definition after split root member type types name arguments within
  obtain ⟨body, meant, place⟩ := call_goes_back typed split member within
  exact ⟨body, fun machine holding => holding.lookupFunction.mpr meant, place⟩

/-- A confined action leaves the functions as they are, however it ends. -/
theorem Holding.after {β : Type} {action : Run .checked β} {machine : Machine .checked}
    (holding : Holding known machine.environment)
    (confined : Running.Confined (fun _ => True) action) :
    Holding known (action.run machine).2.environment := by
  have meets := confined machine holding.occupied
  unfold Meets at meets
  cases ending : action.run machine with
  | mk result final =>
    rw [ending] at meets
    cases result with
    | ok value =>
      obtain ⟨gained, _, gains⟩ := meets
      exact holding.gains gains
    | error stop =>
      obtain ⟨_, gained, _, gains⟩ := meets
      exact holding.gains gains

/-- The functions of a program are the same wherever its run comes. -/
theorem functions_stay (program : Program .checked) : FunctionsStay program := by
  constructor
  · intro budget detail
    have start := initial_holding detail
    rw [Running.meets_bind]
    refine (Running.executeGlobals_leaves program.globals start.occupied).imp ?_
      fun _ _ _ => trivial
    rintro _ middle ⟨gained, _, gains⟩
    refine (functions_held [] program.functions (start.gains gains) ?_).imp
      (fun _ _ holding => holding) fun _ _ _ => trivial
    rw [gains.size]
    rfl
  · intro budget machine holding
    have confined := Running.discipline.holds (ν := .checked) budget
    refine ⟨fun tree => ?_, fun tree => ?_, fun routine values => ?_⟩
    · exact Holding.after holding (Running.discipline.allow (confined.evaluate tree))
    · exact Holding.after holding (confined.execute tree)
    · exact Holding.after holding
        (Running.discipline.allow (confined.invoke routine values trivial))

/-- In an accepted text calls go back, in the text and in every run, apart from those of a
function by itself. So if there is no loop in it and no function calls itself, every run of
it ends within a budget that is counted from the text. -/
theorem straight_programs_end {source : String} {tree : Program .checked}
    (accepted : checkedProgram source = .ok tree) :
    CallsGoBack tree ∧ FunctionsStay tree ∧
      ((∀ statement ∈ tree.statements, statement.isLoop = false) →
        (∀ definition ∈ tree.functions, definition.CallsOnlyOthers) →
        ∀ budget detail, tree.depth ≤ budget →
          (Running.run budget detail tree).1 ≠ .error .exhausted) := by
  obtain ⟨program, _, typed⟩ := checkedProgram_typed accepted
  refine ⟨typed_goes_back typed, functions_stay tree, ?_⟩
  intro straight others budget detail deep
  have finishes := program_finishes typed straight others detail deep
  unfold Meets at finishes
  unfold Running.run
  intro exhausted
  split at finishes
  · next ending =>
    rw [ending] at exhausted
    cases exhausted
  · next ending =>
    rw [ending] at exhausted
    exact finishes (Except.error.inj exhausted)

/-- A text with two functions of one name, of which one calls the other. -/
def delegating : String :=
  "FUN f(x: Integer) DO RETURN x; END FUN f() DO RETURN f(7); END FUN main() DO RETURN f(); END"

/-- Its program. -/
def delegatingTree : Program .checked where
  globals := []
  functions := [
    ⟨"f", ["x"], [some "Integer"], none,
      [.returning (.access .integer ⟨"x", .integer, true, ()⟩ "x")], ⟨[.integer], .integer⟩⟩,
    ⟨"f", [], [], none, [.returning (.call .integer ⟨[.integer], .integer⟩ "f"
      [.literal .integer (.integer 7)])], ⟨[], .integer⟩⟩,
    ⟨"main", [], [], none, [.returning (.call .integer ⟨[], .integer⟩ "f" [])], ⟨[], .integer⟩⟩]

/-- Sixteen steps inside one another are enough for it, and are not used up. -/
theorem delegating_ends :
    checkedProgram delegating = .ok delegatingTree ∧ delegatingTree.depth = 16 ∧
      (Running.run 16 0 delegatingTree).1 ≠ .error .exhausted := by
  have accepted : checkedProgram delegating = .ok delegatingTree := by cbv
  have depth : delegatingTree.depth = 16 := by decide
  refine ⟨accepted, depth, ?_⟩
  refine (straight_programs_end accepted).2.2 (by decide) ?_ 16 0 depth.le
  simp [delegatingTree, FunctionDef.CallsOnlyOthers, Stmt.rootsOf, Stmt.roots, Expr.Calls]

end Chronicle

end Blockscript
