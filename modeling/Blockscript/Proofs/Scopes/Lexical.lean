import Blockscript.Typing.Checker
import Blockscript.Proofs.Scopes.Operations

/-!
# Lexical scopes

Where a place in a program text stands, told without any checking or running: the
bindings of the blocks around it, level by level, and the functions that are known
there. A binding remembers the definition that it comes from. Two bindings may
have the same name and type, and only this tells them apart.

The scopes of the checker are lexical scopes with the origins left out. So what
the checker does to its scopes is said here on levels, where nothing is counted
from the root and no scope has a parent.
-/

namespace Blockscript

/-- The definition that a binding comes from: a global or a parameter by its
position, a declaration by its path from the body of its function, innermost
first, with the position of the function at the end. -/
inductive Origin where
  | globalDef (index : Nat)
  | parameter (routine index : Nat)
  | declaration (path : List Nat)
deriving DecidableEq, Inhabited

/-- A variable and the definition that it comes from. -/
structure Binding where
  origin : Origin
  entry : Variable Unit

/-- Whether a binding is one of the given name. -/
def Binding.isNamed (name : String) (binding : Binding) : Bool :=
  binding.entry.name = name

/-- The bindings around a place in a program, in the blocks from the innermost one
outwards and in the root, and the functions known there. -/
structure Scopes where
  inner : List (List Binding)
  root : List Binding
  functions : List (Routine Unit)

namespace Scopes

/-- All levels, the innermost first. -/
def levels (scopes : Scopes) : List (List Binding) :=
  scopes.inner ++ [scopes.root]

/-- The bindings of the innermost level. -/
def innermost (scopes : Scopes) : List Binding :=
  scopes.inner.headD scopes.root

/-- The binding that a name means. -/
def find? (scopes : Scopes) (name : String) : Option Binding :=
  scopes.levels.findSome? fun level => level.find? (Binding.isNamed name)

/-- The function that a name and an arity mean. -/
def routine? (scopes : Scopes) (name : String) (arity : Nat) : Option (Routine Unit) :=
  scopes.functions.find? fun routine => routine.name = name && routine.arity = arity

/-- The scopes inside a new block. -/
def enter (scopes : Scopes) : Scopes :=
  { scopes with inner := [] :: scopes.inner }

/-- The scopes with further bindings in the innermost level. -/
def extend (scopes : Scopes) (bindings : List Binding) : Scopes :=
  match scopes.inner with
  | [] => { scopes with root := scopes.root ++ bindings }
  | level :: outer => { scopes with inner := (level ++ bindings) :: outer }

/-- The scopes behind a definition. -/
def declare (scopes : Scopes) (binding : Binding) : Scopes :=
  scopes.extend [binding]

/-- The root as the checker has it. -/
def rootScope (scopes : Scopes) : Scope Unit Unit :=
  { parent := none, entries := scopes.root.map Binding.entry, functions := scopes.functions }

/-- The blocks as the checker has them, on top of a root. The parent of a block is
the one around it. -/
def stack (root : Scope Unit Unit) : List (List Binding) → List (Scope Unit Unit)
  | [] => [root]
  | level :: outer =>
    stack root outer ++ [{ parent := some outer.length, entries := level.map Binding.entry }]

/-- The scopes as the checker has them. -/
def environment (scopes : Scopes) : Environment Unit Unit :=
  ⟨(stack scopes.rootScope scopes.inner).toArray⟩

/-- A stack has the root and the scopes inside. -/
theorem stack_length (root : Scope Unit Unit) (inner : List (List Binding)) :
    (stack root inner).length = inner.length + 1 := by
  induction inner with
  | nil => rfl
  | cons level outer inductionHypothesis => simp [stack, inductionHypothesis]

/-- To extend by nothing changes nothing. -/
theorem extend_nil (scopes : Scopes) : scopes.extend [] = scopes := by
  obtain ⟨inner, root, functions⟩ := scopes
  cases inner <;> simp [extend]

/-- To extend twice is to extend by both in order. -/
theorem extend_extend (scopes : Scopes) (first second : List Binding) :
    (scopes.extend first).extend second = scopes.extend (first ++ second) := by
  obtain ⟨inner, root, functions⟩ := scopes
  cases inner <;> simp [extend]

/-- The innermost scope has the new bindings behind its own. -/
theorem innermost_extend (scopes : Scopes) (bindings : List Binding) :
    (scopes.extend bindings).innermost = scopes.innermost ++ bindings := by
  obtain ⟨inner, root, functions⟩ := scopes
  cases inner <;> simp [extend, innermost]

/-- A scope that is entered and extended has the new bindings alone. -/
theorem enter_extend (scopes : Scopes) (bindings : List Binding) :
    scopes.enter.extend bindings = { scopes with inner := bindings :: scopes.inner } := by
  simp [enter, extend]

/-- The current scope is as deep as there are scopes inside the root. -/
theorem environment_current (scopes : Scopes) :
    scopes.environment.current = scopes.inner.length := by
  simp [environment, Environment.current, stack_length]

end Scopes

/-- Changing the last of some things leaves the others. -/
theorem modify_concat {α : Type} (front : List α) (last : α) (change : α → α) :
    (front ++ [last]).modify front.length change = front ++ [change last] := by
  induction front with
  | nil => rfl
  | cons first front inductionHypothesis => simpa [List.modify_succ_cons] using inductionHypothesis

namespace Environment

variable {ν ι β : Type}

/-- A search that starts below the last scope does not see it. -/
theorem search_append (scopes : List (Scope ν ι)) (last : Scope ν ι)
    (found : Scope ν ι → Option β) (index : Nat) (inside : index < scopes.length) :
    (⟨(scopes ++ [last]).toArray⟩ : Environment ν ι).search found index =
      (⟨scopes.toArray⟩ : Environment ν ι).search found index := by
  induction index using Nat.strongRecOn with
  | ind index inductionHypothesis =>
    rw [search, search]
    simp only [List.getElem?_toArray, List.getElem?_append_left inside,
      List.getElem?_eq_getElem inside]
    generalize scopes[index] = scope
    cases found scope with
    | some result => rfl
    | none =>
      cases scope.parent with
      | none => rfl
      | some parent =>
        simp only
        split
        · next lower => exact inductionHypothesis parent lower (by omega)
        · rfl

/-- Changing the last scope leaves the others. -/
theorem modify_last (scopes : List (Scope ν ι)) (last : Scope ν ι)
    (change : Scope ν ι → Scope ν ι) :
    (scopes ++ [last]).toArray.modify scopes.length change =
      (scopes ++ [change last]).toArray := by
  rw [List.modify_toArray, modify_concat]

end Environment

namespace Scopes

/-- A scope finds a variable where its bindings have the name. -/
theorem findVariable_map {scope : Scope Unit Unit} {bindings : List Binding} (name : String)
    (same : scope.entries = bindings.map Binding.entry) :
    scope.findVariable name = (bindings.find? (Binding.isNamed name)).map Binding.entry := by
  rw [Scope.findVariable, same, List.find?_map]
  rfl

/-- The root finds the functions that the scopes know. -/
theorem findFunction_rootScope (scopes : Scopes) (name : String) (arity : Nat) :
    scopes.rootScope.findFunction name arity = scopes.routine? name arity :=
  rfl

/-- A block has no functions. -/
theorem findFunction_block {parent : Option Nat} {entries : List (Variable Unit)} {name : String}
    {arity : Nat} :
    ({ parent := parent, entries := entries } : Scope Unit Unit).findFunction name arity = none :=
  rfl

/-- The binding that a name means in some levels, and the place of its level, counted
from the outermost one. -/
def locate (name : String) : List (List Binding) → Option (Nat × Binding)
  | [] => none
  | level :: outer =>
    match level.find? (Binding.isNamed name) with
    | some binding => some (outer.length, binding)
    | none => locate name outer

/-- The binding that is first found from inside is the one that is located. -/
theorem locate_binding (name : String) (levels : List (List Binding)) :
    levels.findSome? (·.find? (Binding.isNamed name)) = (locate name levels).map Prod.snd := by
  induction levels with
  | nil => rfl
  | cons level outer inductionHypothesis =>
    rw [List.findSome?_cons, locate]
    cases level.find? (Binding.isNamed name) with
    | some binding => rfl
    | none => exact inductionHypothesis

/-- Looking a variable up walks the levels from the innermost one outwards. -/
theorem search_variable (scopes : Scopes) (name : String) (inner : List (List Binding)) :
    (⟨(stack scopes.rootScope inner).toArray⟩ : Environment Unit Unit).search (·.findVariable name)
        inner.length =
      (locate name (inner ++ [scopes.root])).map fun found => (found.1, found.2.entry) := by
  induction inner with
  | nil =>
    rw [Environment.search]
    simp only [stack, List.length_nil, List.getElem?_toArray, List.getElem?_cons_zero]
    rw [findVariable_map name (rfl : scopes.rootScope.entries = _)]
    cases found : scopes.root.find? (Binding.isNamed name) with
    | some binding => simp [locate, found]
    | none => simp [locate, found, rootScope]
  | cons level outer inductionHypothesis =>
    have last : (stack scopes.rootScope (level :: outer)).toArray[outer.length + 1]? =
        some { parent := some outer.length, entries := level.map Binding.entry } := by
      simp [stack, stack_length]
    rw [Environment.search, List.length_cons]
    simp only [last]
    rw [findVariable_map name rfl]
    cases found : level.find? (Binding.isNamed name) with
    | some binding => simp [locate, found]
    | none =>
      simp only [Option.map_none, Nat.lt_succ_self, ↓reduceIte, stack]
      rw [Environment.search_append _ _ _ _ (by simp [stack_length]), inductionHypothesis]
      simp [locate, found]

/-- Functions stand in the root, so they are found from everywhere alike. -/
theorem search_function (scopes : Scopes) (name : String) (arity : Nat)
    (inner : List (List Binding)) :
    ((⟨(stack scopes.rootScope inner).toArray⟩ : Environment Unit Unit).search
        (·.findFunction name arity) inner.length).map Prod.snd =
      scopes.routine? name arity := by
  induction inner with
  | nil =>
    rw [Environment.search]
    simp only [stack, List.length_nil, List.getElem?_toArray, List.getElem?_cons_zero]
    rw [findFunction_rootScope]
    cases scopes.routine? name arity with
    | some routine => rfl
    | none => rfl
  | cons level outer inductionHypothesis =>
    have last : (stack scopes.rootScope (level :: outer)).toArray[outer.length + 1]? =
        some { parent := some outer.length, entries := level.map Binding.entry } := by
      simp [stack, stack_length]
    rw [Environment.search, List.length_cons]
    simp only [last]
    rw [findFunction_block]
    simp only [Nat.lt_succ_self, ↓reduceIte, stack]
    rw [Environment.search_append _ _ _ _ (by simp [stack_length])]
    exact inductionHypothesis

/-- The checker looks a variable up in the scope of the level that its binding is in, and
finds the entry of the binding. -/
theorem lookupVariable_locate {scopes : Scopes} {name : String} {place : Nat}
    {entry : Variable Unit} :
    scopes.environment.lookupVariable name = .ok (place, entry) ↔
      ∃ binding, locate name scopes.levels = some (place, binding) ∧ binding.entry = entry := by
  have walked := scopes.search_variable name scopes.inner
  rw [← levels, ← environment_current, ← environment] at walked
  rw [Environment.lookupVariable_ok_iff, walked, Option.map_eq_some_iff]
  constructor
  · rintro ⟨⟨_, binding⟩, found, ⟨⟩⟩
    exact ⟨binding, found, rfl⟩
  · rintro ⟨binding, found, rfl⟩
    exact ⟨(place, binding), found, rfl⟩

/-- The checker finds a variable exactly where its name has a binding. -/
theorem lookupVariable_environment {scopes : Scopes} {name : String} {entry : Variable Unit} :
    (∃ place, scopes.environment.lookupVariable name = .ok (place, entry)) ↔
      ∃ binding, scopes.find? name = some binding ∧ binding.entry = entry := by
  simp only [lookupVariable_locate, find?, locate_binding, Option.map_eq_some_iff]
  constructor
  · rintro ⟨place, binding, found, same⟩
    exact ⟨binding, ⟨(place, binding), found, rfl⟩, same⟩
  · rintro ⟨binding, ⟨⟨place, _⟩, found, rfl⟩, same⟩
    exact ⟨place, _, found, same⟩

/-- The checker finds a function exactly where it is known. -/
theorem lookupFunction_environment {scopes : Scopes} {name : String} {arity : Nat}
    {routine : Routine Unit} :
    scopes.environment.lookupFunction name arity = .ok routine ↔
      scopes.routine? name arity = some routine := by
  have walked := scopes.search_function name arity scopes.inner
  rw [← environment_current, ← environment] at walked
  rw [Environment.lookupFunction_ok_iff, ← walked]
  simp

/-- The innermost scope of the checker holds the entries of the innermost level. -/
theorem currentScope_environment (scopes : Scopes) :
    scopes.environment.currentScope.entries = scopes.innermost.map Binding.entry := by
  rw [Environment.currentScope, environment_current]
  cases blocks : scopes.inner with
  | nil => simp [environment, innermost, blocks, stack, rootScope]
  | cons level outer =>
    have last : scopes.environment.scopes[outer.length + 1]? =
        some { parent := some outer.length, entries := level.map Binding.entry } := by
      simp [environment, blocks, stack, stack_length]
    rw [List.length_cons, last]
    simp [innermost, blocks]

/-- Opening a scope enters a block. -/
theorem openScope_environment (scopes : Scopes) :
    scopes.environment.openScope none = scopes.enter.environment := by
  simp only [Environment.openScope, Option.getD_none, environment_current]
  simp [environment, enter, stack, rootScope]

/-- Closing the scope of a block leaves it, whatever has been defined there. -/
theorem closeScope_environment (scopes : Scopes) (level : List Binding) :
    ({ scopes with inner := level :: scopes.inner } : Scopes).environment.closeScope
        scopes.enter.environment.current = .ok scopes.environment := by
  have current : ({ scopes with inner := level :: scopes.inner } : Scopes).environment.current =
      scopes.enter.environment.current := by
    simp [environment_current, enter]
  have inner : 0 < scopes.enter.environment.current := by
    simp [environment_current, enter]
  rw [← current, Environment.closeScope_current (current ▸ inner)]
  simp [environment, stack, rootScope]

/-- A definition in the innermost scope is a binding of the innermost level. -/
theorem defineVariable_environment {scopes : Scopes} {entry : Variable Unit}
    {environment : Environment Unit Unit}
    (defined : scopes.environment.defineVariable entry = .ok environment) (origin : Origin) :
    scopes.innermost.find? (Binding.isNamed entry.name) = none ∧
      environment = (scopes.declare ⟨origin, entry⟩).environment := by
  have found := findVariable_map entry.name (currentScope_environment scopes)
  obtain ⟨absent, rfl⟩ := Environment.defineVariable_ok_iff.mp defined
  refine ⟨by simpa [found] using absent, ?_⟩
  rw [Environment.modifyCurrent, environment_current]
  cases blocks : scopes.inner with
  | nil => simp [Scopes.environment, declare, extend, blocks, stack, rootScope]
  | cons level outer =>
    have length := stack_length scopes.rootScope outer
    simp only [Scopes.environment, declare, extend, blocks, stack, List.length_cons, ← length]
    rw [Environment.modify_last]
    simp [rootScope]

/-- A name that has no binding in the innermost level can be defined there. -/
theorem defineVariable_fresh {scopes : Scopes} {entry : Variable Unit} (origin : Origin)
    (fresh : scopes.innermost.find? (Binding.isNamed entry.name) = none) :
    scopes.environment.defineVariable entry =
      .ok (scopes.declare ⟨origin, entry⟩).environment := by
  have free : scopes.environment.currentScope.findVariable entry.name = none := by
    rw [findVariable_map entry.name (currentScope_environment scopes), fresh]
    rfl
  have defined := Environment.defineVariable_ok_iff.mpr ⟨free, rfl⟩
  rw [defined, (defineVariable_environment defined origin).2]

/-- The scopes behind the definition of a function. -/
def declareRoutine (scopes : Scopes) (routine : Routine Unit) : Scopes :=
  { scopes with functions := scopes.functions ++ [routine] }

/-- The scopes with the result type of a function settled. -/
def settle (scopes : Scopes) (name : String) (arity : Nat) (result : Ty) : Scopes :=
  { scopes with
    functions := scopes.functions.map fun routine =>
      if routine.name = name && routine.arity = arity then
        { routine with result := some result }
      else
        routine }

/-- Outside of all blocks the current scope is the root. -/
theorem currentScope_root {scopes : Scopes} (outside : scopes.inner = []) :
    scopes.environment.currentScope = scopes.rootScope := by
  rw [Environment.currentScope, environment_current, outside]
  simp [Scopes.environment, outside, stack]

/-- A function that is defined in the root becomes known. -/
theorem defineFunction_environment {scopes : Scopes} {routine : Routine Unit}
    {next : Environment Unit Unit} (outside : scopes.inner = [])
    (defined : scopes.environment.defineFunction routine = .ok next) :
    scopes.routine? routine.name routine.arity = none ∧
      next = (scopes.declareRoutine routine).environment := by
  obtain ⟨absent, rfl⟩ := Environment.defineFunction_ok_iff.mp defined
  rw [currentScope_root outside, findFunction_rootScope] at absent
  refine ⟨absent, ?_⟩
  rw [Environment.modifyCurrent, environment_current]
  simp [Scopes.environment, declareRoutine, outside, stack, rootScope]

/-- A function whose name and arity are not known yet can be defined in the root. -/
theorem defineFunction_fresh {scopes : Scopes} {routine : Routine Unit}
    (outside : scopes.inner = [])
    (fresh : scopes.routine? routine.name routine.arity = none) :
    scopes.environment.defineFunction routine =
      .ok (scopes.declareRoutine routine).environment := by
  have free : scopes.environment.currentScope.findFunction routine.name routine.arity = none := by
    rw [currentScope_root outside, findFunction_rootScope, fresh]
  have defined := Environment.defineFunction_ok_iff.mpr ⟨free, rfl⟩
  rw [defined, (defineFunction_environment outside defined).2]

/-- Settling a result type in the root settles it for the functions known there. -/
theorem setResult_environment {scopes : Scopes} (outside : scopes.inner = []) (name : String)
    (arity : Nat) (result : Ty) :
    scopes.environment.setResult name arity result =
      (scopes.settle name arity result).environment := by
  rw [Environment.setResult, Environment.modifyCurrent, environment_current]
  simp [Scopes.environment, settle, outside, stack, rootScope, Scope.setResult]

end Scopes

end Blockscript
