import Blockscript.Proofs.Running.Law
import Blockscript.Proofs.Scopes.Operations
import Mathlib.Data.List.Infix

/-!
# Scope discipline

However a part of a run ends, the scopes are open that were open before, and they are
linked as before. No scope has gained or lost a function, and none but the current one a
name. The current one has gained the names of the declarations that were completed right
in it: whatever was defined in the scope of a block, a switch, a turn of a loop or a call
has gone with that scope. Nothing is asked of the tree or of the names in the scopes.

At the end of a whole run only the root is left, with the globals that were initialised.
-/

namespace Blockscript

/-- A variable without what stands behind it. -/
def Variable.head {ν : Type} (entry : Variable ν) : Variable Unit :=
  ⟨entry.name, entry.type, entry.mutable, ()⟩

namespace Environment

variable {ν ι : Type} {before middle after : Environment ν ι}
  {gained more : List (Variable Unit)}

/-- The same scopes are open, with the same parents and functions. Values apart, their
variables are those of before, and the current scope has gained the given ones behind
them. -/
structure Gains (gained : List (Variable Unit)) (before after : Environment ν ι) : Prop where
  size : after.scopes.size = before.scopes.size
  scope : ∀ (place : Nat) (scope : Scope ν ι), before.scopes[place]? = some scope →
    ∃ next, after.scopes[place]? = some next ∧ next.parent = scope.parent ∧
      next.functions = scope.functions ∧
      next.entries.map Variable.head =
        scope.entries.map Variable.head ++ if place = before.current then gained else []

/-- The current scope is the same when it gains variables. -/
theorem Gains.current (gains : Gains gained before after) : after.current = before.current := by
  rw [Environment.current, Environment.current, gains.size]

/-- Nothing is gained where nothing happens. -/
theorem Gains.refl (environment : Environment ν ι) : Gains [] environment environment where
  size := rfl
  scope place scope there := ⟨scope, there, rfl, rfl, by simp⟩

/-- What is gained twice in order is gained together. -/
theorem Gains.trans (first : Gains gained before middle) (second : Gains more middle after) :
    Gains (gained ++ more) before after where
  size := second.size.trans first.size
  scope place scope there := by
    obtain ⟨between, betweenThere, parent, functions, entries⟩ := first.scope place scope there
    obtain ⟨next, nextThere, parentNext, functionsNext, entriesNext⟩ :=
      second.scope place between betweenThere
    refine ⟨next, nextThere, parentNext.trans parent, functionsNext.trans functions, ?_⟩
    rw [entriesNext, entries, first.current, List.append_assoc]
    split
    · rfl
    · rfl

/-- A change of one scope that keeps its parent and its functions, and adds variables at
most if the scope is the current one. -/
theorem Gains.modify (place : Nat) (change : Scope ν ι → Scope ν ι)
    (kept : ∀ scope, (change scope).parent = scope.parent ∧
      (change scope).functions = scope.functions ∧
      (change scope).entries.map Variable.head = scope.entries.map Variable.head ++ gained)
    (inside : gained = [] ∨ place = before.current) :
    Gains gained before ⟨before.scopes.modify place change⟩ where
  size := by simp
  scope other scope there := by
    simp only [Array.getElem?_modify, there, Option.map_some]
    by_cases same : place = other
    · subst same
      obtain ⟨parent, functions, entries⟩ := kept scope
      refine ⟨change scope, by simp, parent, functions, ?_⟩
      rw [entries]
      rcases inside with rfl | current
      · simp
      · rw [if_pos current]
    · refine ⟨scope, by simp [same], rfl, rfl, ?_⟩
      rcases inside with rfl | current
      · simp
      · rw [if_neg (by omega), List.append_nil]

/-- The current scope gains the variable that is defined. -/
theorem gains_defineVariable {entry : Variable ν}
    (defined : before.defineVariable entry = .ok after) : Gains [entry.head] before after := by
  obtain ⟨-, rfl⟩ := defineVariable_ok_iff.mp defined
  exact .modify _ _ (fun scope => by simp) (.inr rfl)

/-- An assignment gains nothing. -/
theorem gains_setVariable {name : String} {value : ν}
    (assigned : before.setVariable name value = .ok after) : Gains [] before after := by
  obtain ⟨_, _, _, rfl⟩ := setVariable_ok_iff.mp assigned
  refine .modify _ _ (fun scope => ⟨rfl, rfl, ?_⟩) (.inl rfl)
  simp only [Scope.setVariable, List.map_map, List.append_nil]
  apply List.map_congr_left
  intro entry _
  simp only [Function.comp_apply]
  split
  · rfl
  · rfl

/-- A scope that has been opened on top of others can be closed behind whatever leaves as
many scopes, and its names go with it. -/
theorem Gains.close {parent : Option Nat} (occupied : 0 < before.scopes.size)
    (gains : Gains gained (before.openScope parent) middle) :
    ∃ after, middle.closeScope (before.openScope parent).current = .ok after ∧
      Gains [] before after := by
  have opened := current_openScope before parent
  have size : middle.scopes.size = before.scopes.size + 1 := by
    simp [gains.size, openScope]
  have innermost : middle.current = before.scopes.size := by
    rw [Environment.current, size, Nat.add_sub_cancel]
  refine ⟨⟨middle.scopes.pop⟩, ?_, by simp [size], ?_⟩
  · rw [opened, ← innermost]
    exact closeScope_current (innermost ▸ occupied)
  · intro place scope there
    have inside : place < before.scopes.size := (Array.getElem?_eq_some_iff.mp there).1
    have below : (before.openScope parent).scopes[place]? = some scope := by
      rw [openScope, Array.getElem?_push_lt inside, ← there, Array.getElem?_eq_getElem inside]
    obtain ⟨next, nextThere, same⟩ := gains.scope place scope below
    rw [opened, if_neg (by omega), List.append_nil] at same
    refine ⟨next, ?_, ?_⟩
    · rw [Array.getElem?_pop, if_pos (by omega)]
      exact nextThere
    · simpa using same

end Environment

namespace Running

open Environment (Gains)

variable {ν : Notes} {α β : Type} {machine : Machine ν} {budget : Nat}

/-- In a state with open scopes the action ends in order, and the current scope gains
nothing that is not allowed. -/
def Confined (allowed : List (Variable Unit) → Prop) (action : Run ν β) : Prop :=
  ∀ machine : Machine ν, 0 < machine.environment.scopes.size →
    Meets action machine
      (fun _ after => ∃ gained, allowed gained ∧
        Gains gained machine.environment after.environment)
      (fun stop after => stop.Orderly ∧ ∃ gained, allowed gained ∧
        Gains gained machine.environment after.environment)

/-- Steps behind one another are confined when what they gain may be gained together. -/
theorem Confined.bind {allowed : List (Variable Unit) → Prop} {action : Run ν α}
    {next : α → Run ν β}
    (together : ∀ gained more, allowed gained → allowed more → allowed (gained ++ more))
    (first : Confined allowed action) (rest : ∀ value, Confined allowed (next value)) :
    Confined allowed (action >>= next) := by
  intro machine occupied
  rw [meets_bind]
  refine (first machine occupied).imp ?_ fun stop after stopped => stopped
  rintro value middle ⟨gained, fits, gains⟩
  have still : 0 < middle.environment.scopes.size := gains.size ▸ occupied
  refine (rest value middle still).imp ?_ ?_
  · rintro result after ⟨more, fitsMore, gainsMore⟩
    exact ⟨gained ++ more, together _ _ fits fitsMore, gains.trans gainsMore⟩
  · rintro stop after ⟨orderly, more, fitsMore, gainsMore⟩
    exact ⟨orderly, gained ++ more, together _ _ fits fitsMore, gains.trans gainsMore⟩

/-- A step that leaves the scopes alone. -/
theorem confined_still {action : Run ν β}
    (still : ∀ machine : Machine ν, Meets action machine
      (fun _ after => after.environment = machine.environment)
      (fun stop after => stop.Orderly ∧ after.environment = machine.environment)) :
    Confined (· = []) action := by
  intro machine _
  refine (still machine).imp ?_ ?_
  · intro value after same
    exact ⟨[], rfl, same ▸ .refl _⟩
  · rintro stop after ⟨orderly, same⟩
    exact ⟨orderly, [], rfl, same ▸ .refl _⟩

/-- To look a variable up gains nothing. -/
theorem confined_variableOf (name : String) :
    Confined (· = []) (variableOf name : Run ν (Variable Value)) := by
  refine confined_still fun machine => ?_
  simp only [variableOf, meets_bind, meets_lookup, meets_pure, implies_true, true_and]
  intro fault failed
  obtain ⟨-, rfl⟩ := Environment.lookupVariable_error_iff.mp failed
  exact ⟨trivial, trivial⟩

/-- Looking a function up is no step of its own: what is done with the function is. -/
theorem Confined.call {name : String} {arity : Nat} {next : Routine (Body ν) → Run ν β}
    (rest : ∀ routine, Confined (· = []) (next routine)) :
    Confined (· = []) (Run.lookup (·.lookupFunction name arity) >>= next) := by
  refine .bind (by simp +contextual) (confined_still fun machine => ?_) rest
  simp only [meets_lookup, implies_true, true_and]
  intro fault failed
  obtain ⟨-, rfl⟩ := Environment.lookupFunction_error_iff.mp failed
  exact ⟨trivial, trivial⟩

/-- What is confined is so if more is allowed. -/
theorem Confined.mono {allowed more : List (Variable Unit) → Prop} {action : Run ν β}
    (confined : Confined allowed action) (weaker : ∀ gained, allowed gained → more gained) :
    Confined more action := by
  intro machine occupied
  refine (confined machine occupied).imp ?_ ?_
  · rintro value after ⟨gained, fits, gains⟩
    exact ⟨gained, weaker gained fits, gains⟩
  · rintro stop after ⟨orderly, gained, fits, gains⟩
    exact ⟨orderly, gained, weaker gained fits, gains⟩

/-- An action gains nothing, too, when its value is not needed. -/
theorem Confined.discard {action : Run ν β} (confined : Confined (· = []) action) :
    Confined (· = []) (discard action : Run ν PUnit) :=
  fun machine occupied => meets_discard.mpr (confined machine occupied)

/-- A change of the scopes that gains what is allowed, or is refused in order. -/
theorem confined_change {allowed : List (Variable Unit) → Prop}
    {step : Environment Value (Body ν) → Except ScopeFault (Environment Value (Body ν))}
    (none : allowed [])
    (gains : ∀ before after, step before = .ok after → ∃ gained, allowed gained ∧
      Gains gained before after)
    (orderly : ∀ before fault, step before = .error fault → (RunFault.scope fault).Orderly) :
    Confined allowed (Run.change step) := by
  intro machine _
  rw [meets_change]
  constructor
  · intro environment changed
    exact gains _ _ changed
  · intro fault failed
    exact ⟨orderly _ _ failed, [], none, .refl _⟩

/-- A definition gains the variable that it defines. -/
theorem confined_define (entry : Variable Value) :
    Confined (fun _ => True) (Run.change (·.defineVariable entry) : Run ν Unit) := by
  refine confined_change trivial ?_ ?_
  · intro before after defined
    exact ⟨_, trivial, Environment.gains_defineVariable defined⟩
  · intro before fault failed
    obtain ⟨-, rfl⟩ := Environment.defineVariable_error_iff.mp failed
    trivial

/-- A change of a variable gains nothing. -/
theorem confined_setVariable (name : String) (value : Value) :
    Confined (· = []) (Run.change (·.setVariable name value) : Run ν Unit) := by
  refine confined_change rfl ?_ ?_
  · intro before after assigned
    exact ⟨[], rfl, Environment.gains_setVariable assigned⟩
  · intro before fault failed
    have missing := Environment.setVariable_error_iff.mp failed
    obtain ⟨-, rfl⟩ := Environment.lookupVariable_error_iff.mp missing
    trivial

/-- An assignment gains nothing. -/
theorem confined_assignVariable (name : String) (value : Value) :
    Confined (· = []) (assignVariable name value : Run ν Unit) := by
  have found : Confined (· = []) (mutableOf name : Run ν (Variable Value)) := by
    refine .bind (by simp +contextual) (confined_variableOf name) fun entry => ?_
    split
    · exact confined_still fun _ => rfl
    · exact confined_still fun _ => ⟨trivial, rfl⟩
  exact .bind (by simp +contextual) found.discard fun _ => confined_setVariable name value

/-- What an action gains in a scope of its own is gone with the scope. -/
theorem Confined.inScope {allowed : List (Variable Unit) → Prop} {body : Run ν β}
    (parent : Option Nat) (confined : Confined allowed body) :
    Confined (· = []) (Run.inScope parent body) := by
  intro machine occupied
  have opened : 0 < (machine.environment.openScope parent).scopes.size := by
    simp [Environment.openScope]
  refine meets_inScope ((confined _ opened).imp ?_ ?_)
  · rintro value after ⟨gained, _, gains⟩
    obtain ⟨environment, closed, kept⟩ := gains.close occupied
    exact ⟨environment, closed, [], rfl, kept⟩
  · rintro stop after ⟨orderly, gained, _, gains⟩
    obtain ⟨environment, closed, kept⟩ := gains.close occupied
    exact ⟨environment, closed, orderly, [], rfl, kept⟩

/-- Tracing leaves the scopes alone, whether or not there is something to tell. -/
theorem confined_trace (detail : Nat) (message : Store → Option Message) :
    Confined (· = []) (Run.trace detail message : Run ν Unit) :=
  confined_still fun _ => meets_trace (fun _ same _ => same) ⟨trivial, rfl⟩

/-- What it takes to confine an action that defines nothing, and what to confine one that
may define something in the current scope. -/
def discipline : Law ν where
  keeps action := Confined (· = []) action
  defines action := Confined (fun _ => True) action
  known _ := True
  give value := confined_still fun _ => rfl
  halt stop orderly := confined_still fun _ => ⟨orderly, rfl⟩
  andThen first rest := .bind (by simp +contextual) first rest
  read := confined_variableOf
  assign := confined_assignVariable
  call rest := .call fun routine => rest routine trivial
  store := confined_still fun _ => rfl
  allocate _ := confined_still fun _ => rfl
  replace _ _ _ := confined_still fun _ => rfl
  print _ := confined_still fun _ => rfl
  trace detail message _ _ := confined_trace detail message
  block confined := Confined.inScope none confined
  body _ _ confined := Confined.inScope _ confined
  allow confined := Confined.mono confined fun _ _ => trivial
  further first rest := .bind (fun _ _ _ _ => trivial) first rest
  define := confined_define

/-! ## What is gained -/

/-- However the action ends, it ends in order, and the current scope has gained variables
of the given names. -/
def Leaves (action : Run ν β) (machine : Machine ν) (names : Except Stop β → List String) :
    Prop :=
  Meets action machine
    (fun value after => ∃ gained : List (Variable Unit),
      gained.map Variable.name = names (.ok value) ∧
        Gains gained machine.environment after.environment)
    (fun stop after => stop.Orderly ∧ ∃ gained : List (Variable Unit),
      gained.map Variable.name = names (.error stop) ∧
        Gains gained machine.environment after.environment)

/-- An action that gains nothing leaves no names. -/
theorem Confined.leaves {action : Run ν β} (confined : Confined (· = []) action)
    (occupied : 0 < machine.environment.scopes.size) :
    Leaves action machine fun _ => [] := by
  refine (confined machine occupied).imp ?_ ?_
  · rintro value after ⟨_, rfl, gains⟩
    exact ⟨[], rfl, gains⟩
  · rintro stop after ⟨orderly, _, rfl, gains⟩
    exact ⟨orderly, [], rfl, gains⟩

/-- Evaluates a value and defines a variable with it, and gives the value. What traces it
comes behind that. -/
def defineValue (budget : Nat) (name : String) (mutable : Bool) (value : Option (Expr ν)) :
    Run ν Value := do
  let value ← evaluateOptional budget value
  define name mutable value
  return value

/-- Whether a definition is made in a state: its value is evaluated, and its variable is
defined. It is traced behind that, which may still stop the run. -/
def isDefined (budget : Nat) (name : String) (mutable : Bool) (value : Option (Expr ν))
    (machine : Machine ν) : Bool :=
  ((defineValue budget name mutable value).run machine).1.isOk

/-- A definition gains nothing but its variable. -/
theorem confined_defineValue (name : String) (mutable : Bool) (value : Option (Expr ν)) :
    Confined (fun _ => True) (defineValue budget name mutable value) := by
  unfold defineValue
  refine discipline.further (discipline.allow ((discipline.holds budget).evaluateOptional value))
    fun value => ?_
  exact discipline.further (discipline.define _) fun _ => discipline.allow (discipline.give value)

/-- A definition whose value is not evaluated is not made. -/
theorem isDefined_stopped {name : String} {mutable : Bool} {value : Option (Expr ν)}
    {stop : Stop} {after : Machine ν}
    (ending : (evaluateOptional budget value).run machine = (.error stop, after)) :
    isDefined budget name mutable value machine = false := by
  rw [isDefined, defineValue, run_bind, ending]
  rfl

/-- A definition whose value is evaluated is made when its variable can be defined. -/
theorem isDefined_evaluated {name : String} {mutable : Bool} {value : Option (Expr ν)}
    {given : Value} {middle : Machine ν}
    (ending : (evaluateOptional budget value).run machine = (.ok given, middle)) :
    isDefined budget name mutable value machine =
      (middle.environment.defineVariable ⟨name, given.kind, mutable, given⟩).isOk := by
  rw [isDefined, defineValue, run_bind, ending]
  simp only [define, run_bind, run_change]
  cases middle.environment.defineVariable ⟨name, given.kind, mutable, given⟩ with
  | ok environment => rfl
  | error fault => rfl

/-- A definition gains its name if it gets that far. When it stops, then either before the
variable is defined, or because there is nothing to trace. -/
theorem leaves_definition {name : String} {mutable : Bool} {value : Option (Expr ν)}
    {detail : Nat} {message : Value → Store → Option Message}
    (occupied : 0 < machine.environment.scopes.size) :
    Leaves (do
      let value ← evaluateOptional budget value
      define name mutable value
      Run.trace detail (message value)) machine fun
        | .ok _ => [name]
        | .error _ => if isDefined budget name mutable value machine then [name] else [] := by
  have evaluated := (discipline.holds budget).evaluateOptional value machine occupied
  rw [Leaves, meets_bind]
  unfold Meets at evaluated
  rw [Meets]
  cases ending : (evaluateOptional budget value).run machine with
  | mk result middle =>
    rw [ending] at evaluated
    cases result with
    | error stop =>
      obtain ⟨orderly, _, rfl, gains⟩ := evaluated
      exact ⟨orderly, [], by simp [isDefined_stopped ending], gains⟩
    | ok given =>
      obtain ⟨_, rfl, gains⟩ := evaluated
      have made := @isDefined_evaluated _ _ _ name mutable _ _ _ ending
      simp only [define, meets_bind, meets_change, made]
      constructor
      · intro environment defined
        have more := gains.trans (Environment.gains_defineVariable defined)
        refine meets_trace (fun after same _ => ?_) ?_
        · exact ⟨[⟨name, given.kind, mutable, ()⟩], rfl, by rw [same]; exact more⟩
        · exact ⟨trivial, [⟨name, given.kind, mutable, ()⟩],
            by simp [defined, Except.isOk, Except.toBool], more⟩
      · intro fault refused
        have orderly : (Stop.fault (.scope fault)).Orderly := by
          obtain ⟨-, rfl⟩ := Environment.defineVariable_error_iff.mp refused
          trivial
        exact ⟨orderly, [], by simp [refused, Except.isOk, Except.toBool], gains⟩

end Running

/-- The names that a statement defines in the scope that it stands in. -/
def Stmt.declared {ν : Notes} : Stmt ν → List String
  | .declaration _ name _ _ => [name]
  | _ => []

namespace Running

open Environment (Gains)

variable {ν : Notes} {machine : Machine ν} {budget : Nat}

/-- The names that are defined when a statement has stopped: that of a declaration whose
variable is there already. -/
def untold (budget : Nat) (machine : Machine ν) : Stmt ν → List String
  | .declaration _ name _ value =>
    if isDefined (budget - 1) name true value machine then [name] else []
  | _ => []

/-- The names that a statement leaves in the scope that it stands in, by the way it ends
when it is executed in a state. -/
def namesLeft (budget : Nat) (statement : Stmt ν) (machine : Machine ν) :
    Except Stop Outcome → List String
  | .ok .completed => statement.declared
  | .ok (.returning _) => []
  | .error _ => untold budget machine statement

/-- A statement that is no declaration leaves no name, however it ends. -/
theorem namesLeft_other {statement : Stmt ν} (other : statement.isDeclaration = false) :
    namesLeft budget statement machine = fun _ => [] := by
  funext result
  cases statement with
  | declaration entry name typeName value => simp [Stmt.isDeclaration] at other
  | _ => rcases result with stop | ⟨⟩ | value <;> rfl

/-- A statement that is completed gains what it declares, one that stops the name that it
has defined by then, and any other gains nothing. -/
theorem execute_leaves (statement : Stmt ν) (occupied : 0 < machine.environment.scopes.size) :
    Leaves (execute budget statement) machine (namesLeft budget statement machine) := by
  have confined (other : statement.isDeclaration = false) :
      Leaves (execute budget statement) machine fun _ => [] :=
    Confined.leaves ((discipline.holds budget).statement statement other) occupied
  cases statement with
  | declaration entry name typeName value =>
    cases budget with
    | zero =>
      cases value with
      | none => exact ⟨trivial, [], rfl, .refl _⟩
      | some value => exact ⟨trivial, [], rfl, .refl _⟩
    | succ budget =>
      have leaves := @leaves_definition _ machine budget name true value 2
        (fun value store => (value.text? store).map (.declaration name)) occupied
      unfold execute
      simp only [Leaves, meets_bind] at leaves ⊢
      exact leaves
  | _ =>
    rw [namesLeft_other rfl]
    exact confined rfl

/-- The names that the statements right in a block leave when it is executed in a state,
up to the one at which it returns or stops. -/
def blockNames : Nat → List (Stmt ν) → Machine ν → List String
  | budget + 1, first :: rest, machine =>
    match (execute budget first).run machine with
    | (.ok .completed, after) => first.declared ++ blockNames budget rest after
    | (result, _) => namesLeft budget first machine result
  | _, _, _ => []

/-- A block gains the names of the declarations in it that are made, however it goes on
from there. -/
theorem executeBlock_leaves (statements : List (Stmt ν))
    (occupied : 0 < machine.environment.scopes.size) :
    Leaves (executeBlock budget statements) machine
      fun _ => blockNames budget statements machine := by
  induction budget generalizing statements machine with
  | zero => exact ⟨trivial, [], by simp [blockNames], .refl _⟩
  | succ budget inductionHypothesis =>
    cases statements with
    | nil => exact ⟨[], by simp [blockNames], .refl _⟩
    | cons first rest =>
      have leaves := @execute_leaves _ machine budget first occupied
      unfold executeBlock
      rw [Leaves, meets_bind]
      rw [Leaves, Meets] at leaves
      rw [Meets, blockNames]
      cases ending : (execute budget first).run machine with
      | mk result after =>
        rw [ending] at leaves
        cases result with
        | error stop => exact leaves
        | ok outcome =>
          obtain ⟨gained, names, gains⟩ := leaves
          cases outcome with
          | returning value => exact ⟨gained, names, gains⟩
          | completed =>
            have still : 0 < after.environment.scopes.size := gains.size ▸ occupied
            refine (inductionHypothesis rest still).imp ?_ ?_
            · rintro value final ⟨more, further, gainsMore⟩
              refine ⟨gained ++ more, ?_, gains.trans gainsMore⟩
              rw [List.map_append, names, further]
              rfl
            · rintro stop final ⟨orderly, more, further, gainsMore⟩
              refine ⟨orderly, gained ++ more, ?_, gains.trans gainsMore⟩
              rw [List.map_append, names, further]
              rfl

/-! ## Whole runs -/

/-- The globals that are initialised when they are evaluated in a state, up to the first
that is not or cannot be traced. -/
def initialised (budget : Nat) : List (GlobalDef ν) → Machine ν → List (GlobalDef ν)
  | [], _ => []
  | first :: rest, machine =>
    match (executeGlobal budget first).run machine with
    | (.ok _, after) => first :: initialised budget rest after
    | (.error _, _) =>
      if isDefined budget first.name first.mutable first.value machine then [first] else []

/-- The globals of a program leave the names of those that are initialised, in order, also where
they stop. -/
theorem executeGlobals_leaves (definitions : List (GlobalDef ν))
    (occupied : 0 < machine.environment.scopes.size) :
    Leaves (executeGlobals budget definitions) machine
      fun _ => (initialised budget definitions machine).map GlobalDef.name := by
  induction definitions generalizing machine with
  | nil => exact ⟨[], rfl, .refl _⟩
  | cons first rest inductionHypothesis =>
    have leaves : Leaves (executeGlobal budget first) machine fun
        | .ok _ => [first.name]
        | .error _ =>
          if isDefined budget first.name first.mutable first.value machine then [first.name]
          else [] :=
      leaves_definition occupied
    unfold executeGlobals
    rw [Leaves, meets_bind]
    rw [Leaves, Meets] at leaves
    rw [Meets, initialised]
    cases ending : (executeGlobal budget first).run machine with
    | mk result after =>
      rw [ending] at leaves
      cases result with
      | error stop =>
        obtain ⟨orderly, gained, names, gains⟩ := leaves
        refine ⟨orderly, gained, names.trans ?_, gains⟩
        cases isDefined budget first.name first.mutable first.value machine with
        | true => rfl
        | false => rfl
      | ok done =>
        obtain ⟨gained, names, gains⟩ := leaves
        have still : 0 < after.environment.scopes.size := gains.size ▸ occupied
        refine (inductionHypothesis still).imp ?_ ?_
        · rintro value final ⟨more, further, gainsMore⟩
          refine ⟨gained ++ more, ?_, gains.trans gainsMore⟩
          rw [List.map_append, names, further]
          rfl
        · rintro stop final ⟨orderly, more, further, gainsMore⟩
          refine ⟨orderly, gained ++ more, ?_, gains.trans gainsMore⟩
          rw [List.map_append, names, further]
          rfl

/-- Only the root is open, and its variables have the given names in order. -/
def OnlyRoot (names : List String) (machine : Machine ν) : Prop :=
  ∃ root, machine.environment.scopes = #[root] ∧ root.parent = none ∧
    root.entries.map Variable.name = names

/-- Where only the root is open, a scope is. -/
theorem OnlyRoot.occupied {names : List String} (only : OnlyRoot names machine) :
    0 < machine.environment.scopes.size := by
  obtain ⟨root, alone, _⟩ := only
  simp [alone]

/-- The root has the names that it has gained behind those of before. -/
theorem OnlyRoot.gains {names : List String} {gained : List (Variable Unit)}
    {after : Machine ν} (only : OnlyRoot names machine)
    (gains : Gains gained machine.environment after.environment) :
    OnlyRoot (names ++ gained.map Variable.name) after := by
  obtain ⟨root, alone, parent, rfl⟩ := only
  have current : machine.environment.current = 0 := by
    simp [Environment.current, alone]
  obtain ⟨next, there, same, _, entries⟩ := gains.scope 0 root (by simp [alone])
  rw [if_pos current.symm] at entries
  have size : after.environment.scopes.size = 1 := by
    simp [gains.size, alone]
  obtain ⟨inside, rfl⟩ := Array.getElem?_eq_some_iff.mp there
  refine ⟨_, Array.ext (by simp [size]) fun place left right => ?_, same.trans parent, ?_⟩
  · obtain rfl : place = 0 := by
      omega
    rfl
  · have heads := congrArg (List.map Variable.name) entries
    simpa [List.map_append, Function.comp_def, Variable.head] using heads

/-- A function that is defined is no variable. -/
theorem OnlyRoot.defineFunction {names : List String} {routine : Routine (Body ν)}
    {after : Machine ν} (only : OnlyRoot names machine)
    (defined : machine.environment.defineFunction routine = .ok after.environment) :
    OnlyRoot names after := by
  obtain ⟨root, alone, parent, entries⟩ := only
  refine ⟨{ root with functions := root.functions ++ [routine] }, ?_, parent, entries⟩
  rw [(Environment.defineFunction_ok_iff.mp defined).2]
  simp only [Environment.modifyCurrent, Environment.current, alone, List.modify_toArray]
  rfl

/-- Defining functions leaves the variables of the root alone. -/
theorem defineFunctions_onlyRoot {names : List String} (definitions : List (FunctionDef ν))
    (only : OnlyRoot names machine) :
    Meets (defineFunctions definitions) machine (fun _ after => OnlyRoot names after)
      (fun stop after => stop.Orderly ∧ OnlyRoot names after) := by
  induction definitions generalizing machine with
  | nil => exact only
  | cons first rest inductionHypothesis =>
    simp only [defineFunctions, defineFunction, meets_bind, meets_get, meets_change]
    constructor
    · intro environment defined
      refine meets_trace_told fun after same _ => inductionHypothesis ?_
      exact only.defineFunction (by rw [same]; exact defined)
    · intro fault refused
      obtain ⟨-, rfl⟩ := Environment.defineFunction_error_iff.mp refused
      exact ⟨trivial, only⟩

/-- A whole run ends in order, and leaves the root alone with the globals that were
initialised. -/
theorem runProgram_onlyRoot (program : Program ν) (only : OnlyRoot [] machine) :
    let names := (initialised budget program.globals machine).map GlobalDef.name
    Meets (runProgram budget program) machine (fun _ after => OnlyRoot names after)
      (fun stop after => stop.Orderly ∧ OnlyRoot names after) := by
  intro names
  simp only [runProgram, meets_bind]
  refine (executeGlobals_leaves program.globals only.occupied).imp ?_ ?_
  · rintro _ middle ⟨gained, same, gains⟩
    have rooted : OnlyRoot names middle := by
      have root := only.gains gains
      rwa [same, List.nil_append] at root
    refine (defineFunctions_onlyRoot program.functions rooted).imp ?_ fun _ _ stopped => stopped
    intro _ defined root
    have called : Confined (· = []) (callByName budget "main" [] : Run ν Value) :=
      discipline.call fun routine _ =>
        (discipline.holds budget).invoke routine [] trivial
    refine (called defined root.occupied).imp ?_ ?_
    · rintro value after ⟨_, rfl, gains⟩
      simpa using root.gains gains
    · rintro stop after ⟨orderly, _, rfl, gains⟩
      exact ⟨orderly, by simpa using root.gains gains⟩
  · rintro stop after ⟨orderly, gained, same, gains⟩
    have root := only.gains gains
    rw [same, List.nil_append] at root
    exact ⟨orderly, root⟩

/-- At the start only the root is open, and it is empty. -/
theorem initial_onlyRoot (detail : Nat) : OnlyRoot [] (Machine.initial detail : Machine ν) :=
  ⟨_, rfl, rfl, rfl⟩

/-- The scopes that are open when something begins are open and linked alike when it ends,
in whichever way, with the same functions and the same names. Only a declaration whose
variable is defined adds its name to the current scope, and so does each one right in a
block; that is every one that is completed, and one that stops because it cannot be traced.
No scope is ever closed out of order. At the end of a whole run the root alone is open, and
its variables are the globals that were initialised, in order. -/
theorem scopes_disciplined (occupied : 0 < machine.environment.scopes.size) :
    (∀ expression, Leaves (evaluate budget expression) machine fun _ => []) ∧
    (∀ routine arguments, Leaves (invoke budget routine arguments) machine fun _ => []) ∧
    (∀ statement,
      Leaves (execute budget statement) machine (namesLeft budget statement machine)) ∧
    (∀ statements, Leaves (executeBlock budget statements) machine
      fun _ => blockNames budget statements machine) ∧
    ∀ (detail : Nat) (program : Program ν),
      (∀ stop, (run budget detail program).1 = .error stop → stop.Orderly) ∧
      OnlyRoot ((initialised budget program.globals (Machine.initial detail)).map GlobalDef.name)
        (run budget detail program).2 := by
  have holds : (discipline : Law ν).Holds budget := discipline.holds budget
  refine ⟨?_, ?_, ?_, ?_, ?_⟩
  · intro expression
    exact Confined.leaves (holds.evaluate expression) occupied
  · intro routine arguments
    exact Confined.leaves (holds.invoke routine arguments trivial) occupied
  · intro statement
    exact execute_leaves statement occupied
  · intro statements
    exact executeBlock_leaves statements occupied
  · intro detail program
    have meets := @runProgram_onlyRoot _ _ budget program (initial_onlyRoot detail)
    unfold Meets at meets
    unfold run
    cases ending : (runProgram budget program).run (Machine.initial detail) with
    | mk result final =>
      rw [ending] at meets
      cases result with
      | ok value => exact ⟨by simp, meets⟩
      | error stop =>
        refine ⟨?_, meets.2⟩
        rintro _ ⟨⟩
        exact meets.1

/-- A block that returns from inside of a conditional, between two declarations. -/
def returningEarly : List (Stmt .bare) :=
  [.declaration () "a" none (some (.literal () (.integer 1))),
    .conditional (.literal () (.boolean true))
      [.declaration () "b" none none, .returning (.access () () "a")] [],
    .declaration () "c" none none]

/-- Only the first declaration has been completed in the scope of the block, and neither
the one inside of the conditional nor the one behind it adds a name. -/
theorem returningEarly_disciplined :
    0 < (Machine.initial 0 : Machine .bare).environment.scopes.size ∧
      ((executeBlock 10 returningEarly).run (Machine.initial 0)).1 =
        .ok (.returning (.integer 1)) ∧
      Leaves (executeBlock 10 returningEarly) (Machine.initial 0) fun _ => ["a"] := by
  have occupied : 0 < (Machine.initial 0 : Machine .bare).environment.scopes.size := by decide
  have names : blockNames 10 returningEarly (Machine.initial 0) = ["a"] := by
    decide +kernel
  refine ⟨occupied, by decide +kernel, ?_⟩
  rw [← names]
  exact (scopes_disciplined occupied).2.2.2.1 returningEarly

end Running

end Blockscript
