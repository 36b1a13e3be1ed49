import Blockscript.Proofs.Running.Constancy
import Blockscript.Proofs.Running.Course

/-!
# Immutable variables

Only globals can be immutable. Once a global of that kind is defined, it holds the value
that it was defined with wherever a run comes to, however often functions are called and
whatever they shadow; a list under it stays the same list, though its elements may change
through another name. An assignment to it, plain or at an offset, ends the run before
anything is written.
-/

namespace Blockscript

/-- The name of the variable that is assigned to, as a whole or at an offset. -/
def Expr.receives {ν : Notes} : Expr ν → Option String
  | access _ _ name | element _ _ name _ => some name
  | _ => none

namespace Running

open Environment (Gains)

variable {ν : Notes} {budget detail : Nat} {constants : List (Variable Value)}
  {machine after : Machine ν}

/-! ## Constants of globals -/

/-- The constant that a global is defined as with a value, if it is immutable. -/
def constantOf (definition : GlobalDef ν) (value : Value) : List (Variable Value) :=
  if definition.mutable then [] else [⟨definition.name, value.kind, false, value⟩]

/-- The constants that globals bring about when they are evaluated in a state: the immutable
ones among them, in order, with the values that they are defined with there. -/
def constantsOf (budget : Nat) : List (GlobalDef ν) → Machine ν → List (Variable Value)
  | [], _ => []
  | first :: rest, machine =>
    match ((defineValue budget first.name first.mutable first.value).run machine).1 with
    | .ok value =>
      constantOf first value ++ constantsOf budget rest ((executeGlobal budget first).run machine).2
    | .error _ => []

/-- The root has the given constants, and no other scope has any. -/
structure Fixed (constants : List (Variable Value)) (machine : Machine ν) : Prop where
  distinct : machine.environment.Distinct
  constants : machine.environment.constants =
    constants :: List.replicate (machine.environment.scopes.size - 1) []

/-- Where the constants of the root are known, the root is open. -/
theorem Fixed.occupied (fixed : Fixed constants machine) :
    0 < machine.environment.scopes.size := by
  rw [← Environment.length_constants, fixed.constants]
  exact Nat.succ_pos _

/-- Constants that last are those of before. -/
theorem Fixed.lasts (fixed : Fixed constants machine)
    (lasts : Lasts id machine.environment after.environment) : Fixed constants after := by
  refine ⟨lasts.distinct, ?_⟩
  rw [lasts.size, ← fixed.constants]
  exact lasts.constants

/-- A new scope has no constants. -/
theorem Fixed.entered (fixed : Fixed constants machine) (parent : Option Nat) :
    Fixed constants (machine.entered parent) := by
  refine ⟨fixed.distinct.openScope parent, ?_⟩
  have occupied := fixed.occupied
  obtain ⟨depth, deep⟩ : ∃ depth, machine.environment.scopes.size = depth + 1 :=
    ⟨_, (Nat.sub_add_cancel occupied).symm⟩
  have size : (machine.entered parent).environment.scopes.size = depth + 2 := by
    simp [Machine.entered, Environment.openScope, deep]
  rw [size, Machine.entered, Environment.constants_openScope, fixed.constants, deep,
    Nat.add_sub_cancel, Nat.add_sub_cancel (depth + 1) 1, List.replicate_succ']
  rfl

/-- A constant that a name means is one of the root. -/
theorem Fixed.root {name : String} {place : Nat} {entry : Variable Value}
    (fixed : Fixed constants machine)
    (found : machine.environment.lookupVariable name = .ok (place, entry))
    (immutable : entry.mutable = false) :
    place = 0 ∧ machine.environment.root.findVariable name = some entry := by
  obtain ⟨scope, there, here, member⟩ := Environment.mem_constants found immutable
  have standing : machine.environment.constants[place]? = some scope.constants := by
    rw [Environment.getElem?_constants, there]
    rfl
  have root : place = 0 := by
    cases place with
    | zero => rfl
    | succ place =>
      rw [fixed.constants, List.getElem?_cons_succ] at standing
      have empty := (List.mem_replicate.mp (List.mem_of_getElem? standing)).2
      rw [empty] at member
      cases member
  subst root
  refine ⟨rfl, ?_⟩
  rw [Environment.root, there]
  exact here

/-! ## Globals and functions -/

/-- A global that is defined while the root alone is open adds to its constants if it is
immutable. -/
theorem Fixed.defineValue {definition : GlobalDef ν} {value : Value}
    (fixed : Fixed constants machine) (alone : machine.environment.scopes.size = 1)
    (defined : (defineValue budget definition.name definition.mutable definition.value).run
      machine = (.ok value, after)) :
    after.environment.scopes.size = 1 ∧ Fixed (constants ++ constantOf definition value) after := by
  simp only [Running.defineValue, define, run_bind_ok, run_change_ok, run_pure_ok] at defined
  obtain ⟨_, middle, given, _, _, ⟨environment, added, rfl⟩, rfl, rfl⟩ := defined
  have lasting : Lasting id (evaluateOptional budget definition.value) :=
    (constancy_holds budget).evaluateOptional definition.value
  have lasts := (lasting machine fixed.occupied fixed.distinct).ok given
  have evaluated : Fixed constants middle := fixed.lasts lasts
  have size : environment.scopes.size = 1 :=
    (Environment.gains_defineVariable added).size.trans (lasts.size.trans alone)
  refine ⟨size, evaluated.distinct.defineVariable added, ?_⟩
  · have current : middle.environment.current = 0 := by
      rw [Environment.current, lasts.size, alone]
    rw [Environment.constants_defineVariable added, current, size, evaluated.constants,
      lasts.size, alone]
    cases immutable : definition.mutable with
    | true => simp [constantOf, immutable]
    | false => simp [constantOf, immutable]

/-- What is traced of a global behind its definition changes no constant. -/
theorem Fixed.executeGlobal {definition : GlobalDef ν} (fixed : Fixed constants machine)
    (alone : machine.environment.scopes.size = 1)
    (defined : (executeGlobal budget definition).run machine = (.ok (), after)) :
    ∃ value, ((Running.defineValue budget definition.name definition.mutable
          definition.value).run machine).1 = .ok value ∧
      after.environment.scopes.size = 1 ∧
      Fixed (constants ++ constantOf definition value) after := by
  rw [executeGlobal_eq, run_bind_ok] at defined
  obtain ⟨value, middle, made, traced⟩ := defined
  obtain ⟨size, next⟩ := fixed.defineValue alone made
  have same := traced_environment traced
  refine ⟨value, by rw [made], by rw [same]; exact size, ?_⟩
  exact ⟨same ▸ next.distinct, by rw [same]; exact next.constants⟩

/-- The globals that are defined from a state on add their constants to those of the root. -/
theorem Fixed.executeGlobals {definitions : List (GlobalDef ν)}
    (fixed : Fixed constants machine) (alone : machine.environment.scopes.size = 1)
    (defined : (executeGlobals budget definitions).run machine = (.ok (), after)) :
    after.environment.scopes.size = 1 ∧
      Fixed (constants ++ constantsOf budget definitions machine) after := by
  induction definitions generalizing constants machine with
  | nil =>
    cases defined
    rw [constantsOf, List.append_nil]
    exact ⟨alone, fixed⟩
  | cons first rest inductionHypothesis =>
    obtain ⟨_, middle, added, further⟩ := run_bind_ok.mp defined
    obtain ⟨value, given, still, next⟩ := fixed.executeGlobal alone added
    rw [constantsOf, given, added, ← List.append_assoc]
    exact inductionHypothesis next still further

/-- The constants of globals come behind those of the globals in front of them. -/
theorem constantsOf_append {earlier later : List (GlobalDef ν)}
    (evaluated : (executeGlobals budget earlier).run machine = (.ok (), after)) :
    constantsOf budget (earlier ++ later) machine =
      constantsOf budget earlier machine ++ constantsOf budget later after := by
  induction earlier generalizing machine with
  | nil =>
    cases evaluated
    rfl
  | cons first rest inductionHypothesis =>
    obtain ⟨_, middle, added, further⟩ := run_bind_ok.mp evaluated
    rw [List.cons_append, constantsOf, constantsOf, added, inductionHypothesis further]
    split
    · rw [List.append_assoc]
    · next refused =>
      rw [executeGlobal_eq, run_bind_ok] at added
      obtain ⟨value, _, made, _⟩ := added
      rw [made] at refused
      cases refused

/-- At the start there are no constants. -/
theorem initial_fixed (detail : Nat) : Fixed [] (Machine.initial detail : Machine ν) := by
  refine ⟨fun place scope there => ?_, rfl⟩
  cases place with
  | zero =>
    cases there
    exact ⟨.nil, List.nodup_singleton _⟩
  | succ place => cases there

/-- The definitions of functions leave the constants. -/
theorem lasting_defineFunctions (definitions : List (FunctionDef ν)) :
    Lasting id (defineFunctions definitions : Run ν Unit) := by
  induction definitions with
  | nil => exact constancy.give ()
  | cons first rest inductionHypothesis =>
    refine .bind ?_ fun _ => inductionHypothesis
    intro machine occupied distinct
    simp only [defineFunction, meets_bind, meets_get, meets_change]
    refine ⟨fun environment defined => ?_, fun _ _ => ⟨distinct, rfl, rfl⟩⟩
    refine meets_trace_told fun traced same _ => ?_
    rw [same]
    have constants := Environment.constants_defineFunction defined
    refine ⟨distinct.defineFunction defined, ?_, constants⟩
    rw [← Environment.length_constants, constants, Environment.length_constants]

/-! ## Whole runs -/

/-- No part changes, adds or removes a constant. -/
theorem Part.lasting (part : Part ν) (budget : Nat) : Lasting id (part.run budget) := by
  have holds : (constancy : Law ν).Holds budget := constancy_holds budget
  cases part with
  | expression tree => exact holds.evaluate tree
  | logical operator left right => exact holds.evaluateLogical operator left right
  | expressions trees => exact holds.evaluateAll trees
  | optional value => exact holds.evaluateOptional value
  | call routine arguments => exact holds.invoke routine arguments trivial
  | parameters names values => exact lasting_defineParameters names values
  | statement tree => exact lasting_execute tree
  | block statements => exact lasting_executeBlock statements
  | enclosed statements => exact Lasting.inScope none (lasting_executeBlock statements).mono
  | cases subject choices => exact lasting_executeCases subject choices
  | loop condition body => exact holds.repeatWhile condition body

/-- Throughout a run, the constants are those of the globals that have been defined. -/
theorem carried_fixed (budget detail : Nat) :
    Carried budget detail fun (globals : List (GlobalDef ν)) machine =>
      Fixed (constantsOf budget globals (Machine.initial detail : Machine ν)) machine := by
  refine ⟨fun globals => ⟨?_, ?_, ?_⟩, ?_, ?_, ?_⟩
  · exact fun fixed same => ⟨same ▸ fixed.distinct, by rw [same]; exact fixed.constants⟩
  · exact fun parent fixed => fixed.entered parent
  · intro begun fixed
    refine Meets.state _
      ((begun.part.lasting begun.budget begun.machine fixed.occupied fixed.distinct).imp ?_ ?_)
    · exact fun _ _ lasts => fixed.lasts lasts
    · exact fun _ _ lasts => fixed.lasts lasts
  · intro globals machine evaluated
    exact ((initial_fixed detail).executeGlobals rfl evaluated).2
  · intro globals definition value machine defined evaluated made
    obtain ⟨alone, fixed⟩ := (initial_fixed detail).executeGlobals rfl evaluated
    rw [constantsOf_append evaluated, constantsOf, made]
    simpa [constantsOf] using (fixed.defineValue alone made).2
  · intro _ definitions machine after fixed defined
    have meets := lasting_defineFunctions definitions machine fixed.occupied fixed.distinct
    exact fixed.lasts (meets.ok defined)

/-- An assignment to an immutable variable stops as soon as its value is evaluated. -/
theorem execute_immutable {receiver expression : Expr ν} {name : String} {place : Nat}
    {result : Value} {valued : Machine ν} {entry : Variable Value}
    (receives : receiver.receives = some name)
    (given : (evaluate budget expression).run machine = (.ok result, valued))
    (found : valued.environment.lookupVariable name = .ok (place, entry))
    (immutable : entry.mutable = false) :
    StopsAt (execute (budget + 1) (.assignment receiver expression)) machine
      (.fault (.immutable name)) valued := by
  have refused : StopsAt (mutableOf name) valued (.fault (.immutable name)) valued := by
    refine StopsAt.behind (run_variableOf_ok.mpr ⟨⟨place, found⟩, rfl⟩) ?_
    rw [if_neg (by simp [immutable])]
    exact ⟨valued, rfl, .refl valued⟩
  cases receiver with
  | access =>
    cases receives
    refine StopsAt.behind given ?_
    exact (stopsAt_discard.mpr refused).first
  | element =>
    cases receives
    refine StopsAt.behind given ?_
    exact refused.first
  | _ => cases receives

/-- An assignment leaves each scope with the variables that it has, under the same names,
with the same types and as mutable as before. -/
theorem assignment_gains_nothing (receiver expression : Expr ν)
    (occupied : 0 < machine.environment.scopes.size) :
    Gains [] machine.environment
      ((execute budget (.assignment receiver expression)).run machine).2.environment := by
  have meets := (discipline.holds budget).statement (.assignment receiver expression) rfl machine
    occupied
  refine Meets.state (fun after => Gains [] machine.environment after.environment)
    (meets.imp ?_ ?_)
  · rintro _ after ⟨_, rfl, gains⟩
    exact gains
  · rintro _ after ⟨_, _, rfl, gains⟩
    exact gains

/-- Immutable variables never change. In every state that a run goes through, up to the one
that it ends in, the immutable variables of the root are those of the globals that have been
defined so far, with the values that they were defined with, and no other scope has any.
When the run comes to an assignment whose receiver means an immutable variable behind the
evaluation of the value, the run ends there with a fault that names the variable, which
stands in the root as before, and no list changes any more. Any assignment leaves all scopes
with the variables that they have, and these with their names, types and mutability. -/
theorem immutable_variables_stay (budget detail : Nat) (program : Program ν) :
    (∃ globals, Reached budget detail program globals (run budget detail program).2) ∧
    (∀ globals machine, Reached budget detail program globals machine →
      machine.environment.constants =
        constantsOf budget globals (Machine.initial detail) ::
          List.replicate (machine.environment.scopes.size - 1) []) ∧
    (∀ globals left receiver expression machine name result valued place entry,
      Comes budget detail program globals
        ⟨.statement (.assignment receiver expression), left + 1, machine⟩ →
      receiver.receives = some name →
      (evaluate left expression).run machine = (.ok result, valued) →
      valued.environment.lookupVariable name = .ok (place, entry) → entry.mutable = false →
      ∃ final, run budget detail program = (.error (.fault (.immutable name)), final) ∧
        place = 0 ∧ final.environment.root.findVariable name = some entry ∧
        final.store = valued.store) ∧
    ∀ (left : Nat) (receiver expression : Expr ν) (machine : Machine ν),
      0 < machine.environment.scopes.size →
      Gains [] machine.environment
        ((execute left (.assignment receiver expression)).run machine).2.environment := by
  have carried := carried_fixed (ν := ν) budget detail
  refine ⟨run_reached budget detail program, ?_, ?_, ?_⟩
  · exact fun globals machine reached => (reached.carried carried).constants
  · intro globals left receiver expression machine name result valued place entry comes receives
      given found immutable
    have fixed : Fixed (constantsOf budget globals (Machine.initial detail)) valued :=
      (carried.kept globals).expression (comes.carried carried) given
    obtain ⟨rfl, rooted⟩ := fixed.root found immutable
    obtain ⟨final, stopped, same⟩ :=
      comes.stops (execute_immutable receives given found immutable)
    refine ⟨final, stopped, rfl, ?_, same.store⟩
    rw [Environment.root, same.root]
    exact rooted
  · intro left receiver expression machine occupied
    exact assignment_gains_nothing receiver expression occupied

/-- A program that assigns to an element of an immutable list while the value of the element
is a call that changes the list through a parameter. -/
def refused : Program .bare where
  globals := [⟨"x", none, false, some (.list () [.literal () (.integer 1)]), ()⟩]
  functions :=
    [⟨"f", ["y"], [none], none,
        [.assignment (.element () () "y" (.literal () (.integer 0))) (.literal () (.integer 2)),
          .returning (.literal () (.integer 3))], ()⟩,
      ⟨"main", [], [], none,
        [.assignment (.element () () "x" (.literal () (.integer 0)))
          (.call () () "f" [.access () () "x"])], ()⟩]

/-- The state in which `main` is called. -/
def defined : Machine .bare :=
  { environment := ⟨#[{
      parent := none
      entries := [⟨"x", .list .any, false, .list 0⟩]
      functions := [⟨"print", [.any], some .nil, some .print⟩,
        ⟨"f", [.any], none, some (.script (refused.functions[0]) 0)⟩,
        ⟨"main", [], none, some (.script (refused.functions[1]) 0)⟩] }]⟩
    store := ⟨#[[.integer 1]]⟩ }

/-- The call has put two into the list, and three is not put there any more. -/
theorem refused_stays :
    ∃ final, run 20 0 refused = (.error (.fault (.immutable "x")), final) ∧
      final.environment.root.findVariable "x" = some ⟨"x", .list .any, false, .list 0⟩ ∧
      final.store.elements 0 = [.integer 2] := by
  have called : Comes 20 0 refused refused.globals
      ⟨.call ⟨"main", [], none, some (.script (refused.functions[1]) 0)⟩ [], 20, defined⟩ :=
    .main (by cbv) (by cbv) (by cbv)
  have body : Comes 20 0 refused refused.globals
      ⟨.block (refused.functions[1]).body, 19, defined.entered (some 0)⟩ :=
    called.inside (.body rfl rfl rfl)
  have assigned : Comes 20 0 refused refused.globals
      ⟨.statement (.assignment (.element () () "x" (.literal () (.integer 0)))
        (.call () () "f" [.access () () "x"])), 18, defined.entered (some 0)⟩ :=
    body.inside .firstStatement
  obtain ⟨final, stopped, -, stays, lists⟩ :=
    (immutable_variables_stay 20 0 refused).2.2.1 _ 17 _ _ _ "x" (.integer 3)
      { defined.entered (some 0) with store := ⟨#[[.integer 2]]⟩ } 0 _ assigned rfl (by cbv)
      (by cbv) rfl
  exact ⟨final, stopped, stays, by rw [lists]; rfl⟩

end Running

end Blockscript
