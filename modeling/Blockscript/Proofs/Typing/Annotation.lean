import Blockscript.Proofs.Typing.Occurrences

/-!
# What checking writes fits what stands there

On a checked tree every note belongs to its node: the type of an expression is the one that
the rules give to it from the types of its parts, the variable on a name is one of that name
and of that type, and the function on a call takes as many arguments and gives that type.
No case stands outside of a switch, so nothing is passed over.
-/

namespace Blockscript

/-- The notes on an expression fit it. -/
def Expr.Annotated : Expr .checked → Prop
  | .literal type value => Typing.literalType value = .ok type
  | .group type inner => type = inner.type
  | .binary type operator left right => Typing.binaryType operator left.type right.type = .ok type
  | .access type entry name => entry.name = name ∧ entry.type = type
  | .element type entry name offset =>
    entry.name = name ∧ entry.type = .list type ∧ offset.type = .integer
  | .call type signature _ arguments =>
    signature.result = type ∧ signature.parameters.length = arguments.length
  | .list type elements => ∃ element, type = .list element ∧
      ∀ inner ∈ elements, element.isAssignable inner.type = true

/-- The notes on a statement fit it, and it is no case outside of a switch. -/
def Stmt.Annotated : Stmt .checked → Prop
  | .declaration entry name _ value => entry.name = name ∧ entry.mutable = true ∧
      ∀ inner ∈ value, entry.type.isAssignable inner.type = true
  | .stray _ _ => False
  | _ => True

/-- The notes on a global fit it. -/
def GlobalDef.Annotated (definition : GlobalDef .checked) : Prop :=
  definition.entry.name = definition.name ∧ definition.entry.mutable = definition.mutable ∧
    ∀ inner ∈ definition.value, definition.entry.type.isAssignable inner.type = true

/-- All notes in a program fit what they stand on. Each parameter of a function has a type. -/
structure Program.Annotated (program : Program .checked) : Prop where
  expressions : ∀ tree, program.Contains tree → tree.Annotated
  statements : ∀ statement ∈ program.statements, statement.Annotated
  globals : ∀ definition ∈ program.globals, definition.Annotated
  functions : ∀ definition ∈ program.functions,
    definition.parameters.length = definition.routine.parameters.length

variable {seen : Scopes → Expr .checked → Prop}

/-- A binding that a name means is one of that name. -/
theorem Scopes.find?_name {scopes : Scopes} {name : String} {binding : Binding}
    (found : scopes.find? name = some binding) : binding.entry.name = name := by
  obtain ⟨level, _, here⟩ := List.exists_of_findSome?_eq_some found
  simpa [Binding.isNamed] using List.find?_some here

/-- A typed expression carries the types that it needs. -/
theorem ExprTyped.annotated {scopes : Scopes} {tree : Expr .checked}
    (typed : ExprTyped seen scopes tree) : tree.Annotated := by
  cases typed with
  | literal type => exact type
  | group => rfl
  | binary _ _ type => exact type
  | access found => exact ⟨Scopes.find?_name found, rfl⟩
  | element found list _ integer => exact ⟨Scopes.find?_name found, list, integer⟩
  | call _ _ _ passed => exact ⟨rfl, passed.length_eq⟩
  | list _ assignable => exact ⟨_, rfl, assignable⟩

/-- A typed statement carries the types that it needs. -/
theorem StmtTyped.annotated {result : Ty} {site : Site} {tree : Stmt .checked}
    (typed : StmtTyped seen result site tree) : tree.Annotated := by
  cases typed with
  | uninitialised => exact ⟨rfl, rfl, by simp⟩
  | initialised _ _ assignable => exact ⟨rfl, rfl, by simpa using assignable⟩
  | _ => trivial

/-- Typed globals carry the types that they need. -/
theorem GlobalsTyped.annotated {before : List Binding} {globals : List (GlobalDef .checked)}
    (typed : GlobalsTyped seen before globals) :
    ∀ definition ∈ globals, definition.Annotated := by
  induction typed with
  | nil => simp
  | cons first _ inductionHypothesis =>
    refine List.forall_mem_cons.mpr ⟨⟨first.name, first.mutable, ?_⟩, inductionHypothesis⟩
    exact fun inner given => (first.value inner given).2

/-- In a typed program all notes fit. -/
theorem ProgramTyped.annotated {program : Program .checked} (typed : ProgramTyped seen program) :
    program.Annotated where
  expressions := by
    rintro tree ⟨root, member, within⟩
    obtain ⟨scopes, rootTyped⟩ := typed.roots root member
    exact (rootTyped.every tree within).annotated
  statements statement member := by
    obtain ⟨result, site, here⟩ := typed.statements statement member
    exact here.annotated
  globals := typed.globals.annotated
  functions := typed.lengths

/-- No case stands outside of a switch where all notes fit. -/
theorem Program.Annotated.placed {program : Program .checked} (annotated : program.Annotated) :
    ∀ statement ∈ program.statements, statement.isStray = false := by
  intro statement member
  have fits := annotated.statements statement member
  cases statement with
  | stray label body => exact fits.elim
  | _ => rfl

end Blockscript
