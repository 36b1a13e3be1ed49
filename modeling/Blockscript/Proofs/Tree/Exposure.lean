import Blockscript.Proofs.Typing.Erasure
import Blockscript.Tree.Json

/-!
# What a document shows of a tree

A document shows the types on the expressions and definitions of a tree, as far as there are
any, and leaves out what its names mean. What it shows is a tree of its own: it has the same
document, and without its notes it is the tree that it was made from.
-/

namespace Blockscript

/-- The notes that a document shows: types on expressions and on definitions. -/
abbrev Notes.shown : Notes :=
  ⟨Option Ty, Option Ty, Option Ty⟩

instance : Shown .shown :=
  ⟨id, id, id⟩

section

variable {ν : Notes} [Shown ν]

mutual

/-- An expression with the types on it, and without what its names mean. -/
def Expr.exposed : Expr ν → Expr .shown
  | .literal type value => .literal (Shown.type? type) value
  | .group type inner => .group (Shown.type? type) inner.exposed
  | .binary type operator left right =>
    .binary (Shown.type? type) operator left.exposed right.exposed
  | .access type _ name => .access (Shown.type? type) none name
  | .element type _ name offset => .element (Shown.type? type) none name offset.exposed
  | .call type _ name arguments =>
    .call (Shown.type? type) none name (Expr.exposedAll arguments)
  | .list type elements => .list (Shown.type? type) (Expr.exposedAll elements)

/-- Expressions with the types on them, and without what their names mean. -/
def Expr.exposedAll : List (Expr ν) → List (Expr .shown)
  | [] => []
  | first :: rest => first.exposed :: Expr.exposedAll rest

end

mutual

/-- A statement with the types on it, and without what its names mean. -/
def Stmt.exposed : Stmt ν → Stmt .shown
  | .expression inner => .expression inner.exposed
  | .declaration entry name typeName value =>
    .declaration (Shown.entry? entry) name typeName (value.map Expr.exposed)
  | .assignment receiver value => .assignment receiver.exposed value.exposed
  | .conditional condition thenBlock elseBlock =>
    .conditional condition.exposed (Stmt.exposedAll thenBlock) (Stmt.exposedAll elseBlock)
  | .switch subject cases => .switch subject.exposed (Case.exposedAll cases)
  | .loop condition body => .loop condition.exposed (Stmt.exposedAll body)
  | .returning value => .returning value.exposed
  | .stray label body => .stray label (Stmt.exposedAll body)

/-- Statements with the types on them, and without what their names mean. -/
def Stmt.exposedAll : List (Stmt ν) → List (Stmt .shown)
  | [] => []
  | first :: rest => first.exposed :: Stmt.exposedAll rest

/-- Cases with the types on them, and without what their names mean. -/
def Case.exposedAll : List (Case ν) → List (Case .shown)
  | [] => []
  | .mk label body :: rest =>
    .mk (label.map Expr.exposed) (Stmt.exposedAll body) :: Case.exposedAll rest

end

/-- A global with its type. -/
def GlobalDef.exposed (definition : GlobalDef ν) : GlobalDef .shown :=
  { definition with
    value := definition.value.map Expr.exposed
    entry := Shown.entry? definition.entry }

/-- A function with the type of its result. -/
def FunctionDef.exposed (definition : FunctionDef ν) : FunctionDef .shown :=
  { definition with
    body := Stmt.exposedAll definition.body
    routine := Shown.routine? definition.routine }

/-- A program with the types on it, and without what its names mean. -/
def Program.exposed (program : Program ν) : Program .shown :=
  ⟨program.globals.map GlobalDef.exposed, program.functions.map FunctionDef.exposed⟩

/-! ## Types are the only notes that are kept -/

mutual

/-- The types that an expression is shown with are no part of it without its notes. -/
theorem Expr.erase_exposed : ∀ tree : Expr ν, tree.exposed.erase = tree.erase
  | .literal _ _ => rfl
  | .group _ inner => by rw [Expr.exposed, Expr.erase, inner.erase_exposed, Expr.erase]
  | .binary _ _ left right => by
    rw [Expr.exposed, Expr.erase, left.erase_exposed, right.erase_exposed, Expr.erase]
  | .access _ _ _ => rfl
  | .element _ _ _ offset => by
    rw [Expr.exposed, Expr.erase, offset.erase_exposed, Expr.erase]
  | .call _ _ _ arguments => by
    rw [Expr.exposed, Expr.erase, Expr.eraseAll_exposed arguments, Expr.erase]
  | .list _ elements => by
    rw [Expr.exposed, Expr.erase, Expr.eraseAll_exposed elements, Expr.erase]

/-- Expressions are the same without notes as exposed ones. -/
theorem Expr.eraseAll_exposed : ∀ trees : List (Expr ν),
    Expr.eraseAll (Expr.exposedAll trees) = Expr.eraseAll trees
  | [] => rfl
  | first :: rest => by
    rw [Expr.exposedAll, Expr.eraseAll, first.erase_exposed, Expr.eraseAll_exposed rest,
      Expr.eraseAll]

end

/-- An optional expression is the same without notes as when it is exposed. -/
theorem Expr.optional_erase_exposed (value : Option (Expr ν)) :
    (value.map Expr.exposed).map Expr.erase = value.map Expr.erase := by
  cases value with
  | none => rfl
  | some tree => exact congrArg some tree.erase_exposed

mutual

/-- A statement is the same without notes as when it is exposed. -/
theorem Stmt.erase_exposed : ∀ tree : Stmt ν, tree.exposed.erase = tree.erase
  | .expression inner => by rw [Stmt.exposed, Stmt.erase, inner.erase_exposed, Stmt.erase]
  | .declaration _ _ _ value => by
    rw [Stmt.exposed, Stmt.erase, Expr.optional_erase_exposed value, Stmt.erase]
  | .assignment receiver value => by
    rw [Stmt.exposed, Stmt.erase, receiver.erase_exposed, value.erase_exposed, Stmt.erase]
  | .conditional condition thenBlock elseBlock => by
    rw [Stmt.exposed, Stmt.erase, condition.erase_exposed, Stmt.eraseAll_exposed thenBlock,
      Stmt.eraseAll_exposed elseBlock, Stmt.erase]
  | .switch subject cases => by
    rw [Stmt.exposed, Stmt.erase, subject.erase_exposed, Case.eraseAll_exposed cases, Stmt.erase]
  | .loop condition body => by
    rw [Stmt.exposed, Stmt.erase, condition.erase_exposed, Stmt.eraseAll_exposed body, Stmt.erase]
  | .returning value => by rw [Stmt.exposed, Stmt.erase, value.erase_exposed, Stmt.erase]
  | .stray _ body => by rw [Stmt.exposed, Stmt.erase, Stmt.eraseAll_exposed body, Stmt.erase]

/-- Statements are the same without notes as exposed ones. -/
theorem Stmt.eraseAll_exposed : ∀ trees : List (Stmt ν),
    Stmt.eraseAll (Stmt.exposedAll trees) = Stmt.eraseAll trees
  | [] => rfl
  | first :: rest => by
    rw [Stmt.exposedAll, Stmt.eraseAll, first.erase_exposed, Stmt.eraseAll_exposed rest,
      Stmt.eraseAll]

/-- Cases are the same without notes as exposed ones. -/
theorem Case.eraseAll_exposed : ∀ trees : List (Case ν),
    Case.eraseAll (Case.exposedAll trees) = Case.eraseAll trees
  | [] => rfl
  | .mk label body :: rest => by
    rw [Case.exposedAll, Case.eraseAll, Expr.optional_erase_exposed label,
      Stmt.eraseAll_exposed body, Case.eraseAll_exposed rest, Case.eraseAll]

end

/-- A program is the same without notes as when it is exposed. -/
theorem Program.erase_exposed (program : Program ν) : program.exposed.erase = program.erase := by
  have globals (definition : GlobalDef ν) : definition.exposed.erase = definition.erase := by
    rw [GlobalDef.erase, GlobalDef.exposed, Expr.optional_erase_exposed, GlobalDef.erase]
  have functions (definition : FunctionDef ν) : definition.exposed.erase = definition.erase := by
    rw [FunctionDef.erase, FunctionDef.exposed, Stmt.eraseAll_exposed, FunctionDef.erase]
  simp [Program.erase, Program.exposed, Function.comp_def, globals, functions]

/-! ## Nothing else is shown -/

mutual

/-- What the document of an expression leaves out is what exposing it takes away. -/
theorem Expr.toJson_exposed : ∀ tree : Expr ν, tree.exposed.toJson = tree.toJson
  | .literal _ _ => rfl
  | .group _ inner => by
    rw [Expr.exposed, Expr.toJson, inner.toJson_exposed, Expr.toJson]
    rfl
  | .binary _ _ left right => by
    rw [Expr.exposed, Expr.toJson, left.toJson_exposed, right.toJson_exposed, Expr.toJson]
    rfl
  | .access _ _ _ => rfl
  | .element _ _ _ offset => by
    rw [Expr.exposed, Expr.toJson, offset.toJson_exposed, Expr.toJson]
    rfl
  | .call _ _ _ arguments => by
    rw [Expr.exposed, Expr.toJson, Expr.allToJson_exposed arguments, Expr.toJson]
    rfl
  | .list _ elements => by
    rw [Expr.exposed, Expr.toJson, Expr.allToJson_exposed elements, Expr.toJson]
    rfl

/-- The documents of expressions are those of exposed ones. -/
theorem Expr.allToJson_exposed : ∀ trees : List (Expr ν),
    Expr.allToJson (Expr.exposedAll trees) = Expr.allToJson trees
  | [] => rfl
  | first :: rest => by
    rw [Expr.exposedAll, Expr.allToJson, first.toJson_exposed, Expr.allToJson_exposed rest,
      Expr.allToJson]

end

/-- The document of an optional expression is that of the exposed one. -/
theorem Expr.optionalToJson_exposed (value : Option (Expr ν)) :
    Expr.optionalToJson (value.map Expr.exposed) = Expr.optionalToJson value := by
  cases value with
  | none => rfl
  | some tree => exact tree.toJson_exposed

mutual

/-- The document of a statement is that of the exposed one. -/
theorem Stmt.toJson_exposed : ∀ tree : Stmt ν, tree.exposed.toJson = tree.toJson
  | .expression inner => by rw [Stmt.exposed, Stmt.toJson, inner.toJson_exposed, Stmt.toJson]
  | .declaration _ _ _ value => by
    rw [Stmt.exposed, Stmt.toJson, Expr.optionalToJson_exposed value, Stmt.toJson]
    rfl
  | .assignment receiver value => by
    rw [Stmt.exposed, Stmt.toJson, receiver.toJson_exposed, value.toJson_exposed, Stmt.toJson]
  | .conditional condition thenBlock elseBlock => by
    rw [Stmt.exposed, Stmt.toJson, condition.toJson_exposed, Stmt.allToJson_exposed thenBlock,
      Stmt.allToJson_exposed elseBlock, Stmt.toJson]
  | .switch subject cases => by
    rw [Stmt.exposed, Stmt.toJson, subject.toJson_exposed, Case.allToJson_exposed cases,
      Stmt.toJson]
  | .loop condition body => by
    rw [Stmt.exposed, Stmt.toJson, condition.toJson_exposed, Stmt.allToJson_exposed body,
      Stmt.toJson]
  | .returning value => by rw [Stmt.exposed, Stmt.toJson, value.toJson_exposed, Stmt.toJson]
  | .stray _ body => by
    rw [Stmt.exposed, Stmt.toJson, Stmt.allToJson_exposed body, Stmt.toJson]

/-- The documents of statements are those of exposed ones. -/
theorem Stmt.allToJson_exposed : ∀ trees : List (Stmt ν),
    Stmt.allToJson (Stmt.exposedAll trees) = Stmt.allToJson trees
  | [] => rfl
  | first :: rest => by
    rw [Stmt.exposedAll, Stmt.allToJson, first.toJson_exposed, Stmt.allToJson_exposed rest,
      Stmt.allToJson]

/-- The documents of cases are those of exposed ones. -/
theorem Case.allToJson_exposed : ∀ trees : List (Case ν),
    Case.allToJson (Case.exposedAll trees) = Case.allToJson trees
  | [] => rfl
  | .mk label body :: rest => by
    rw [Case.exposedAll, Case.allToJson, Case.toJson, Expr.optionalToJson_exposed label,
      Stmt.allToJson_exposed body, Case.allToJson_exposed rest, Case.allToJson, Case.toJson]

end

/-- The document of a program is that of the exposed one. -/
theorem Program.toJson_exposed (program : Program ν) :
    program.exposed.toJson = program.toJson := by
  have globals (definition : GlobalDef ν) : definition.exposed.toJson = definition.toJson := by
    rw [GlobalDef.toJson, GlobalDef.exposed, Expr.optionalToJson_exposed, GlobalDef.toJson]
    rfl
  have functions (definition : FunctionDef ν) : definition.exposed.toJson = definition.toJson := by
    rw [FunctionDef.toJson, FunctionDef.exposed, Stmt.allToJson_exposed, FunctionDef.toJson]
    rfl
  simp [Program.toJson, Program.exposed, Function.comp_def, globals, functions]

end

mutual

/-- An expression that has only been parsed has no notes to lose. -/
theorem Expr.erase_bare : ∀ tree : Expr .bare, tree.erase = tree
  | .literal _ _ => rfl
  | .group _ inner => by rw [Expr.erase, inner.erase_bare]
  | .binary _ _ left right => by rw [Expr.erase, left.erase_bare, right.erase_bare]
  | .access _ _ _ => rfl
  | .element _ _ _ offset => by rw [Expr.erase, offset.erase_bare]
  | .call _ _ _ arguments => by rw [Expr.erase, Expr.eraseAll_bare arguments]
  | .list _ elements => by rw [Expr.erase, Expr.eraseAll_bare elements]

/-- Expressions without notes have none to erase. -/
theorem Expr.eraseAll_bare : ∀ trees : List (Expr .bare), Expr.eraseAll trees = trees
  | [] => rfl
  | first :: rest => by rw [Expr.eraseAll, first.erase_bare, Expr.eraseAll_bare rest]

end

end Blockscript
