import Blockscript.Proofs.Scopes.Lifting
import Mathlib.Data.List.Nodup

/-!
# Sound environments

What holds of the open scopes at all times, whatever is done with them: the root is open and
has no parent, every other scope continues in one that stands below it, and no scope has a
name twice. Each operation on an environment keeps this.
-/

namespace Blockscript

variable {ν ι : Type}

/-- Every name is that of one variable, and every name and arity that of one function. -/
structure Scope.Distinct (scope : Scope ν ι) : Prop where
  entries : (scope.entries.map Variable.name).Nodup
  functions : (scope.functions.map fun routine => (routine.name, routine.arity)).Nodup

namespace Scope

variable {scope : Scope ν ι}

/-- A scope finds no variable when none of its variables has the name. -/
theorem findVariable_none {name : String} :
    scope.findVariable name = none ↔ name ∉ scope.entries.map Variable.name := by
  simp [findVariable]

/-- A scope finds no function when none of its functions has the name and arity. -/
theorem findFunction_none {name : String} {arity : Nat} :
    scope.findFunction name arity = none ↔
      (name, arity) ∉ scope.functions.map fun routine => (routine.name, routine.arity) := by
  simp [findFunction]

/-- A scope with one more variable of a new name has no name twice. -/
theorem Distinct.withVariable {entry : Variable ν} (distinct : scope.Distinct)
    (fresh : scope.findVariable entry.name = none) :
    Distinct { scope with entries := scope.entries ++ [entry] } where
  entries := by
    rw [List.map_append]
    exact List.nodup_append_comm.mp
      (List.nodup_cons.mpr ⟨findVariable_none.mp fresh, distinct.entries⟩)
  functions := distinct.functions

/-- A scope with one more function of a new name and arity has none twice. -/
theorem Distinct.withFunction {routine : Routine ι} (distinct : scope.Distinct)
    (fresh : scope.findFunction routine.name routine.arity = none) :
    Distinct { scope with functions := scope.functions ++ [routine] } where
  entries := distinct.entries
  functions := by
    rw [List.map_append]
    exact List.nodup_append_comm.mp
      (List.nodup_cons.mpr ⟨findFunction_none.mp fresh, distinct.functions⟩)

/-- An assignment changes no names. -/
theorem map_name_setVariable (name : String) (value : ν) :
    (scope.setVariable name value).entries.map Variable.name = scope.entries.map Variable.name := by
  simp only [setVariable, List.map_map]
  refine List.map_congr_left fun entry _ => ?_
  simp only [Function.comp_apply]
  split
  · rfl
  · rfl

/-- A scope has no name twice behind an assignment. -/
theorem Distinct.setVariable {name : String} {value : ν} (distinct : scope.Distinct) :
    (scope.setVariable name value).Distinct where
  entries := by
    rw [map_name_setVariable]
    exact distinct.entries
  functions := distinct.functions

/-- A changed value is found under its name, and nothing else is found otherwise. -/
theorem find_setVariable (name other : String) (value : ν) :
    (scope.setVariable name value).findVariable other =
      (scope.findVariable other).map fun entry =>
        if other = name then { entry with value := value } else entry := by
  unfold setVariable findVariable
  induction scope.entries with
  | nil => rfl
  | cons entry entries inductionHypothesis =>
    by_cases same : entry.name = other
    · subst same
      by_cases changed : entry.name = name
      · simp [changed]
      · simp [changed]
    · by_cases changed : entry.name = name
      · simp_all
      · simp_all

end Scope

namespace Environment

variable {environment after : Environment ν ι}

/-! ## Distinct names -/

/-- No open scope has a name twice. -/
def Distinct (environment : Environment ν ι) : Prop :=
  ∀ (place : Nat) (scope : Scope ν ι), environment.scopes[place]? = some scope → scope.Distinct

/-- A new scope has no name twice, for it has none. -/
theorem Distinct.openScope (distinct : environment.Distinct) (parent : Option Nat) :
    (environment.openScope parent).Distinct := by
  intro place scope there
  rcases openScope_stands there with old | ⟨-, rfl⟩
  · exact distinct place scope old
  · exact ⟨.nil, .nil⟩

/-- Fewer scopes have no name twice. -/
theorem Distinct.pop (distinct : environment.Distinct) :
    Distinct (⟨environment.scopes.pop⟩ : Environment ν ι) :=
  fun place scope there => distinct place scope (pop_stands there)

/-- A change of one scope that gives it no name twice gives none to any. -/
theorem Distinct.modify {place : Nat} {change : Scope ν ι → Scope ν ι}
    (distinct : environment.Distinct)
    (kept : ∀ scope, environment.scopes[place]? = some scope → (change scope).Distinct) :
    Distinct (⟨environment.scopes.modify place change⟩ : Environment ν ι) := by
  intro other scope there
  rcases modify_stands there with ⟨earlier, -, standing, rfl⟩ | old
  · exact kept earlier standing
  · exact distinct other scope old

/-- A definition that is not refused gives no scope a name twice. -/
theorem Distinct.defineVariable {entry : Variable ν} (distinct : environment.Distinct)
    (defined : environment.defineVariable entry = .ok after) : after.Distinct := by
  obtain ⟨fresh, rfl⟩ := defineVariable_ok_iff.mp defined
  refine distinct.modify fun scope there => (distinct _ scope there).withVariable ?_
  rw [currentScope, there] at fresh
  exact fresh

/-- An assignment gives no scope a name twice. -/
theorem Distinct.setVariable {name : String} {value : ν} (distinct : environment.Distinct)
    (assigned : environment.setVariable name value = .ok after) : after.Distinct := by
  obtain ⟨_, _, _, rfl⟩ := setVariable_ok_iff.mp assigned
  exact distinct.modify fun scope there => (distinct _ scope there).setVariable

/-- A function that is not refused gives no scope one twice. -/
theorem Distinct.defineFunction {routine : Routine ι} (distinct : environment.Distinct)
    (defined : environment.defineFunction routine = .ok after) : after.Distinct := by
  obtain ⟨fresh, rfl⟩ := defineFunction_ok_iff.mp defined
  refine distinct.modify fun scope there => (distinct _ scope there).withFunction ?_
  rw [currentScope, there] at fresh
  exact fresh

/-! ## Sound environments -/

/-- The root is open and has no parent, every other scope continues in one that stands below
it, and no scope has a name twice. -/
structure Sound (environment : Environment ν ι) : Prop where
  root : ∃ scope, environment.scopes[0]? = some scope ∧ scope.parent = none
  parent : ∀ (place : Nat) (scope : Scope ν ι), environment.scopes[place]? = some scope →
    place ≠ 0 → ∃ parent, scope.parent = some parent ∧ parent < place
  distinct : environment.Distinct

/-- In sound scopes the root is open. -/
theorem Sound.occupied (sound : environment.Sound) : 0 < environment.scopes.size := by
  obtain ⟨scope, there, -⟩ := sound.root
  exact (Array.getElem?_eq_some_iff.mp there).1

/-- In sound scopes every scope stands above its parent. -/
theorem Sound.ordered (sound : environment.Sound) : environment.Ordered := by
  intro place scope parent there continues
  by_cases root : place = 0
  · subst root
    obtain ⟨first, thereToo, none⟩ := sound.root
    cases there.symm.trans thereToo
    cases continues.symm.trans none
  · obtain ⟨lower, continuesToo, below⟩ := sound.parent place scope there root
    cases continues.symm.trans continuesToo
    exact below

/-- The root alone is sound. -/
theorem sound_initial : (initial : Environment ν ι).Sound where
  root := ⟨_, rfl, rfl⟩
  parent place scope there apart := by
    have inside := (Array.getElem?_eq_some_iff.mp there).1
    simp [initial] at inside
    exact absurd inside apart
  distinct place scope there := by
    have inside := (Array.getElem?_eq_some_iff.mp there).1
    simp [initial] at inside
    subst inside
    cases there
    exact ⟨.nil, .nil⟩

/-- A scope that continues in an open one is opened. -/
theorem Sound.openScope {parent : Option Nat} (sound : environment.Sound)
    (inside : ∀ index, parent = some index → index < environment.scopes.size) :
    (environment.openScope parent).Sound where
  root := by
    obtain ⟨scope, there, none⟩ := sound.root
    refine ⟨scope, ?_, none⟩
    rw [Environment.openScope, Array.getElem?_push_lt sound.occupied, ← there,
      Array.getElem?_eq_getElem sound.occupied]
  parent place scope there apart := by
    rcases openScope_stands there with old | ⟨rfl, rfl⟩
    · exact sound.parent place scope old apart
    · refine ⟨_, rfl, ?_⟩
      cases parent with
      | none =>
        have occupied := sound.occupied
        change environment.scopes.size - 1 < environment.scopes.size
        omega
      | some index => exact inside index rfl
  distinct := sound.distinct.openScope parent

/-- Sound scopes are so when one is closed. -/
theorem Sound.closeScope {index : Nat} (sound : environment.Sound)
    (closed : environment.closeScope index = .ok after) : after.Sound := by
  obtain ⟨several, rfl⟩ := closeScope_ok_iff.mp closed
  constructor
  · obtain ⟨scope, there, none⟩ := sound.root
    refine ⟨scope, ?_, none⟩
    rw [Array.getElem?_pop, if_pos (by omega)]
    exact there
  · exact fun place scope there => sound.parent place scope (pop_stands there)
  · exact sound.distinct.pop

/-- A change of one scope that keeps its parent and the distinctness of its names. -/
theorem Sound.modify {place : Nat} {change : Scope ν ι → Scope ν ι} (sound : environment.Sound)
    (kept : ∀ scope, environment.scopes[place]? = some scope →
      (change scope).parent = scope.parent ∧ (change scope).Distinct) :
    Sound ⟨environment.scopes.modify place change⟩ where
  root := by
    obtain ⟨scope, there, none⟩ := sound.root
    by_cases root : place = 0
    · subst root
      refine ⟨change scope, by simp [Array.getElem?_modify, there], ?_⟩
      rw [(kept scope there).1, none]
    · exact ⟨scope, by simp [Array.getElem?_modify, root, there], none⟩
  parent other scope there apart := by
    rcases modify_stands there with ⟨earlier, rfl, standing, rfl⟩ | old
    · rw [(kept earlier standing).1]
      exact sound.parent place earlier standing apart
    · exact sound.parent other scope old apart
  distinct := sound.distinct.modify fun scope there => (kept scope there).2

end Environment

end Blockscript
