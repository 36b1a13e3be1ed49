import Blockscript.Proofs.Decimal.Notation
import Blockscript.Proofs.Tree.Exposure
import Blockscript.Proofs.Tree.Likeness

/-!
# Trees from their documents

A document determines the tree that it shows. What it shows is the whole tree with the types
on it; what a use of a name means is the only thing that it leaves out.

The tree is read from the document by the names of the members, so their order is of no
account. A literal is told by the sort of document it is written as, and an expression that is
missing by a null, which no expression is written as.
-/

namespace Blockscript

open Json (Yields)

/-! ## Reading trees -/

/-- Reads a literal. -/
def Literal.ofJson? : Json → Option Literal
  | .null => some .nil
  | .boolean truth => some (.boolean truth)
  | .integer number => some (.integer number)
  | .string text => some (.string text)
  | .array _ => none
  | .object members =>
    match members.lookup "char", members.lookup "decimal" with
    | some (.string text), _ => some (.character text)
    | _, some (.string text) => (Decimal.ofText? text).map .decimal
    | _, _ => none

/-- Reads an expression. A use of a name does not show what it means. -/
def Expr.ofJson? (document : Json) : Option (Expr .shown) := do
  let type ← document.field? "resolved_type" Json.asTypeOrNull?
  match ← document.field? "type" Json.asString? with
  | "Literal" => return .literal type (← document.field? "value" Literal.ofJson?)
  | "Group" =>
    let inner ← document.part? "expression"
    return .group type (← ofJson? inner.1)
  | "Binary" =>
    let operator ← document.field? "operator" Json.asString?
    let left ← document.part? "left"
    let right ← document.part? "right"
    return .binary type operator (← ofJson? left.1) (← ofJson? right.1)
  | "Access" =>
    let name ← document.field? "name" Json.asString?
    let offset ← document.part? "offset"
    if offset.1.isNull then return .access type none name
    return .element type none name (← ofJson? offset.1)
  | "Call" =>
    let name ← document.field? "name" Json.asString?
    let arguments ← document.parts? "arguments"
    return .call type none name (← arguments.mapM fun argument => ofJson? argument.1)
  | "ListLiteral" =>
    let elements ← document.parts? "elements"
    return .list type (← elements.mapM fun element => ofJson? element.1)
  | _ => none
termination_by sizeOf document
decreasing_by
  · exact inner.2
  · exact left.2
  · exact right.2
  · exact offset.2
  · exact argument.2
  · exact element.2

/-- Reads an expression that may be missing. -/
def Expr.optionalOfJson? (document : Json) : Option (Option (Expr .shown)) :=
  if document.isNull then some none else (Expr.ofJson? document).map some

mutual

/-- Reads a statement. -/
def Stmt.ofJson? (document : Json) : Option (Stmt .shown) := do
  match ← document.field? "type" Json.asString? with
  | "ExpressionStmt" => return .expression (← document.field? "expression" Expr.ofJson?)
  | "Declaration" =>
    let name ← document.field? "name" Json.asString?
    let typeName ← document.field? "type_name" Json.asStringOrNull?
    let value ← document.field? "value" Expr.optionalOfJson?
    return .declaration (← document.field? "resolved_type" Json.asTypeOrNull?) name typeName value
  | "Assignment" =>
    let receiver ← document.field? "receiver" Expr.ofJson?
    return .assignment receiver (← document.field? "value" Expr.ofJson?)
  | "If" =>
    let condition ← document.field? "condition" Expr.ofJson?
    let thenBlock ← document.parts? "then_block"
    let elseBlock ← document.parts? "else_block"
    return .conditional condition (← thenBlock.mapM fun inner => Stmt.ofJson? inner.1)
      (← elseBlock.mapM fun inner => Stmt.ofJson? inner.1)
  | "Switch" =>
    let subject ← document.field? "condition" Expr.ofJson?
    let cases ← document.parts? "cases"
    return .switch subject (← cases.mapM fun inner => Case.ofJson? inner.1)
  | "While" =>
    let condition ← document.field? "condition" Expr.ofJson?
    let body ← document.parts? "body"
    return .loop condition (← body.mapM fun inner => Stmt.ofJson? inner.1)
  | "Return" => return .returning (← document.field? "value" Expr.ofJson?)
  | "Case" =>
    let label ← document.field? "value" Expr.optionalOfJson?
    let body ← document.parts? "body"
    return .stray (label.map Expr.erase) (← body.mapM fun inner => Stmt.ofJson? inner.1)
  | _ => none
termination_by sizeOf document
decreasing_by all_goals exact inner.2

/-- Reads a case of a switch. -/
def Case.ofJson? (document : Json) : Option (Case .shown) := do
  let label ← document.field? "value" Expr.optionalOfJson?
  let body ← document.parts? "body"
  return .mk label (← body.mapM fun inner => Stmt.ofJson? inner.1)
termination_by sizeOf document
decreasing_by exact inner.2

end

/-- Reads a global. -/
def GlobalDef.ofJson? (document : Json) : Option (GlobalDef .shown) := do
  let name ← document.field? "name" Json.asString?
  let typeName ← document.field? "type_name" Json.asStringOrNull?
  let mutable ← document.field? "mutable" Json.asBoolean?
  let value ← document.field? "value" Expr.optionalOfJson?
  return ⟨name, typeName, mutable, value, ← document.field? "resolved_type" Json.asTypeOrNull?⟩

/-- Reads a function. -/
def FunctionDef.ofJson? (document : Json) : Option (FunctionDef .shown) := do
  let name ← document.field? "name" Json.asString?
  let parameters ← document.field? "parameters" (Json.asArray? Json.asString?)
  let types ← document.field? "parameter_type_names" (Json.asArray? Json.asStringOrNull?)
  let result ← document.field? "return_type_name" Json.asStringOrNull?
  let body ← document.field? "body" (Json.asArray? Stmt.ofJson?)
  return ⟨name, parameters, types, result, body,
    ← document.field? "resolved_return_type" Json.asTypeOrNull?⟩

/-- Reads a program. -/
def Program.ofJson? (document : Json) : Option (Program .shown) := do
  let globals ← document.field? "globals" (Json.asArray? GlobalDef.ofJson?)
  return ⟨globals, ← document.field? "functions" (Json.asArray? FunctionDef.ofJson?)⟩

/-! ## Reading is the inverse of showing -/

section

variable {ν : Notes} [Shown ν]

/-- A literal is read back from its document. -/
theorem Literal.yields (literal : Literal) : Yields Literal.ofJson? literal.toJson literal := by
  intro other alike
  cases literal with
  | character text =>
    obtain ⟨same, there, related⟩ := alike.member? "char" rfl
    cases related
    cases alike with
    | object _ =>
      rw [Json.member?] at there
      simp [Literal.ofJson?, there]
  | decimal number =>
    obtain ⟨same, there, related⟩ := alike.member? "decimal" rfl
    have missing := alike.member?_none "char" rfl
    cases related
    cases alike with
    | object _ =>
      rw [Json.member?] at there missing
      simp [Literal.ofJson?, there, missing, Decimal.ofText?_text]
  | _ =>
    cases alike
    rfl

/-- No expression is written as a null. -/
theorem Expr.isNull_toJson (tree : Expr ν) : tree.toJson.isNull = false := by
  cases tree <;> rfl

mutual

/-- An expression is read from its document. The recursion is on the expression, though the
reader descends in the document. -/
theorem Expr.yields : ∀ tree : Expr ν, Yields Expr.ofJson? tree.toJson tree.exposed
  | .literal type value, other, alike => by
    have kind := alike.field? "type" rfl Json.yields_string
    have typed := alike.field? "resolved_type" rfl Json.yields_typeOrNull
    have inside := alike.field? "value" rfl value.yields
    rw [Expr.ofJson?]
    simp [typed, kind, inside, Expr.exposed]
  | .group type inner, other, alike => by
    have kind := alike.field? "type" rfl Json.yields_string
    have typed := alike.field? "resolved_type" rfl Json.yields_typeOrNull
    obtain ⟨part, found, related⟩ := alike.part? "expression" rfl
    have inside := inner.yields part.1 related
    rw [Expr.ofJson?]
    simp [typed, kind, found, inside, Expr.exposed]
  | .binary type operator left right, other, alike => by
    have kind := alike.field? "type" rfl Json.yields_string
    have typed := alike.field? "resolved_type" rfl Json.yields_typeOrNull
    have word := alike.field? "operator" rfl Json.yields_string
    obtain ⟨first, firstFound, firstRelated⟩ := alike.part? "left" rfl
    obtain ⟨second, secondFound, secondRelated⟩ := alike.part? "right" rfl
    have inFirst := left.yields first.1 firstRelated
    have inSecond := right.yields second.1 secondRelated
    rw [Expr.ofJson?]
    simp [typed, kind, word, firstFound, secondFound, inFirst, inSecond, Expr.exposed]
  | .access type entry name, other, alike => by
    have kind := alike.field? "type" rfl Json.yields_string
    have typed := alike.field? "resolved_type" rfl Json.yields_typeOrNull
    have named := alike.field? "name" rfl Json.yields_string
    obtain ⟨part, found, related⟩ := alike.part? "offset" rfl
    have missing : part.1.isNull = true := related.isNull
    rw [Expr.ofJson?]
    simp [typed, kind, named, found, missing, Expr.exposed]
  | .element type entry name offset, other, alike => by
    have kind := alike.field? "type" rfl Json.yields_string
    have typed := alike.field? "resolved_type" rfl Json.yields_typeOrNull
    have named := alike.field? "name" rfl Json.yields_string
    obtain ⟨part, found, related⟩ := alike.part? "offset" rfl
    have inside := offset.yields part.1 related
    have present := related.isNull.trans offset.isNull_toJson
    rw [Expr.ofJson?]
    simp [typed, kind, named, found, present, inside, Expr.exposed]
  | .call type routine name arguments, other, alike => by
    have kind := alike.field? "type" rfl Json.yields_string
    have typed := alike.field? "resolved_type" rfl Json.yields_typeOrNull
    have named := alike.field? "name" rfl Json.yields_string
    obtain ⟨parts, found, inside⟩ := alike.parts? "arguments" rfl
      (Expr.allYield arguments)
    rw [Expr.ofJson?]
    simp [typed, kind, named, found, inside, Expr.exposed]
  | .list type elements, other, alike => by
    have kind := alike.field? "type" rfl Json.yields_string
    have typed := alike.field? "resolved_type" rfl Json.yields_typeOrNull
    obtain ⟨parts, found, inside⟩ := alike.parts? "elements" rfl
      (Expr.allYield elements)
    rw [Expr.ofJson?]
    simp [typed, kind, found, inside, Expr.exposed]

/-- Expressions are read back from their documents, as far as these expose them. -/
theorem Expr.allYield : ∀ trees : List (Expr ν),
    List.Forall₂ (Yields Expr.ofJson?) (Expr.allToJson trees) (Expr.exposedAll trees)
  | [] => .nil
  | first :: rest => .cons first.yields (Expr.allYield rest)

end

/-- An optional expression is read back from its document, as far as that exposes it. -/
theorem Expr.optionalYields (value : Option (Expr ν)) :
    Yields Expr.optionalOfJson? (Expr.optionalToJson value) (value.map Expr.exposed) := by
  intro other alike
  cases value with
  | none =>
    cases alike
    rfl
  | some tree =>
    have present := alike.isNull.trans tree.isNull_toJson
    simp [Expr.optionalOfJson?, present, tree.yields other alike]

mutual

/-- A statement is read from its document. -/
theorem Stmt.yields : ∀ tree : Stmt ν, Yields Stmt.ofJson? tree.toJson tree.exposed
  | .expression inner, other, alike => by
    have kind := alike.field? "type" rfl Json.yields_string
    have inside := alike.field? "expression" rfl inner.yields
    rw [Stmt.ofJson?]
    simp [kind, inside, Stmt.exposed]
  | .declaration entry name typeName value, other, alike => by
    have kind := alike.field? "type" rfl Json.yields_string
    have named := alike.field? "name" rfl Json.yields_string
    have typeNamed := alike.field? "type_name" rfl Json.yields_stringOrNull
    have inside := alike.field? "value" rfl (Expr.optionalYields value)
    have typed := alike.field? "resolved_type" rfl Json.yields_typeOrNull
    rw [Stmt.ofJson?]
    simp [kind, named, typeNamed, inside, typed, Stmt.exposed]
  | .assignment receiver value, other, alike => by
    have kind := alike.field? "type" rfl Json.yields_string
    have inReceiver := alike.field? "receiver" rfl receiver.yields
    have inValue := alike.field? "value" rfl value.yields
    rw [Stmt.ofJson?]
    simp [kind, inReceiver, inValue, Stmt.exposed]
  | .conditional condition thenBlock elseBlock, other, alike => by
    have kind := alike.field? "type" rfl Json.yields_string
    have inCondition := alike.field? "condition" rfl condition.yields
    obtain ⟨first, firstFound, inFirst⟩ := alike.parts? "then_block" rfl
      (Stmt.allYield thenBlock)
    obtain ⟨second, secondFound, inSecond⟩ := alike.parts? "else_block" rfl
      (Stmt.allYield elseBlock)
    rw [Stmt.ofJson?]
    simp [kind, inCondition, firstFound, inFirst, secondFound, inSecond, Stmt.exposed]
  | .switch subject cases, other, alike => by
    have kind := alike.field? "type" rfl Json.yields_string
    have inSubject := alike.field? "condition" rfl subject.yields
    obtain ⟨parts, found, inside⟩ := alike.parts? "cases" rfl (Case.allYield cases)
    rw [Stmt.ofJson?]
    simp [kind, inSubject, found, inside, Stmt.exposed]
  | .loop condition body, other, alike => by
    have kind := alike.field? "type" rfl Json.yields_string
    have inCondition := alike.field? "condition" rfl condition.yields
    obtain ⟨parts, found, inside⟩ := alike.parts? "body" rfl (Stmt.allYield body)
    rw [Stmt.ofJson?]
    simp [kind, inCondition, found, inside, Stmt.exposed]
  | .returning value, other, alike => by
    have kind := alike.field? "type" rfl Json.yields_string
    have inside := alike.field? "value" rfl value.yields
    rw [Stmt.ofJson?]
    simp [kind, inside, Stmt.exposed]
  | .stray label body, other, alike => by
    have kind := alike.field? "type" rfl Json.yields_string
    have inLabel := alike.field? "value" rfl (Expr.optionalYields label)
    obtain ⟨parts, found, inside⟩ := alike.parts? "body" rfl (Stmt.allYield body)
    -- The label is read with types on it, but a case outside of a switch keeps none.
    have bare : (label.map Expr.exposed).map Expr.erase = label := by
      cases label with
      | none => rfl
      | some label => exact congrArg some (label.erase_exposed.trans label.erase_bare)
    rw [Stmt.ofJson?]
    simp [kind, inLabel, found, inside, bare, Stmt.exposed, -Option.map_map]

/-- Statements are read back from their documents, as far as these expose them. -/
theorem Stmt.allYield : ∀ trees : List (Stmt ν),
    List.Forall₂ (Yields Stmt.ofJson?) (Stmt.allToJson trees) (Stmt.exposedAll trees)
  | [] => .nil
  | first :: rest => .cons first.yields (Stmt.allYield rest)

/-- Cases are read back from their documents, as far as these expose them. -/
theorem Case.allYield : ∀ trees : List (Case ν),
    List.Forall₂ (Yields Case.ofJson?) (Case.allToJson trees) (Case.exposedAll trees)
  | [] => .nil
  | .mk label body :: rest => by
    refine .cons (fun other alike => ?_) (Case.allYield rest)
    have inLabel := alike.field? "value" rfl (Expr.optionalYields label)
    obtain ⟨parts, found, inside⟩ := alike.parts? "body" rfl (Stmt.allYield body)
    rw [Case.ofJson?]
    simp [inLabel, found, inside]

end

/-- A global is read back from its document, as far as that exposes it. -/
theorem GlobalDef.yields (definition : GlobalDef ν) :
    Yields GlobalDef.ofJson? definition.toJson definition.exposed := by
  intro other alike
  have named := alike.field? "name" rfl Json.yields_string
  have typeNamed := alike.field? "type_name" rfl Json.yields_stringOrNull
  have kept := alike.field? "mutable" rfl Json.yields_boolean
  have inside := alike.field? "value" rfl (Expr.optionalYields definition.value)
  have typed := alike.field? "resolved_type" rfl Json.yields_typeOrNull
  simp [GlobalDef.ofJson?, named, typeNamed, kept, inside, typed, GlobalDef.exposed]

/-- A function is read back from its document, as far as that exposes it. -/
theorem FunctionDef.yields (definition : FunctionDef ν) :
    Yields FunctionDef.ofJson? definition.toJson definition.exposed := by
  intro other alike
  have named := alike.field? "name" rfl Json.yields_string
  have parameters := alike.field? "parameters" rfl
    (Json.yields_map (fun _ => Json.yields_string) definition.parameters)
  have types := alike.field? "parameter_type_names" rfl
    (Json.yields_map (fun _ => Json.yields_stringOrNull) definition.parameterTypes)
  have result := alike.field? "return_type_name" rfl Json.yields_stringOrNull
  have inside := alike.field? "body" rfl
    (Json.yields_array (Stmt.allYield definition.body))
  have typed := alike.field? "resolved_return_type" rfl Json.yields_typeOrNull
  simp [FunctionDef.ofJson?, named, parameters, types, result, inside, typed,
    FunctionDef.exposed]

/-- A program is read from its document, however the members in it are ordered. -/
theorem Program.yields (program : Program ν) :
    Yields Program.ofJson? program.toJson program.exposed := by
  intro other alike
  have globals := alike.field? "globals" rfl
    (Json.yields_map GlobalDef.yields program.globals)
  have functions := alike.field? "functions" rfl
    (Json.yields_map FunctionDef.yields program.functions)
  simp [Program.ofJson?, globals, functions, Program.exposed]

/-! ## Documents tell trees apart -/

/-- The document determines the tree: two programs have the same document just if they are the
same tree with the same types, so the same one without them too, and the tree with its types is
read back from every way to order the members in the document. -/
theorem Program.document_determines_tree {μ : Notes} [Shown μ] (program : Program ν)
    (other : Program μ) :
    (program.toJson.Alike other.toJson ↔ program.exposed = other.exposed) ∧
      (program.exposed = other.exposed → program.erase = other.erase) ∧
      ∀ document, program.toJson.Alike document →
        Program.ofJson? document = some program.exposed := by
  refine ⟨⟨fun alike => ?_, fun same => ?_⟩, fun same => ?_, program.yields⟩
  · have here := program.yields _ alike
    have there := other.yields _ (.refl _)
    exact Option.some.inj (here.symm.trans there)
  · rw [← program.toJson_exposed, same, other.toJson_exposed]
    exact .refl _
  · rw [← program.erase_exposed, same, other.erase_exposed]

/-- A global whose value is the use of another one: its document gives it back with the members
in reverse order, though not what the use means. -/
theorem Program.reversed_document_read :
    Program.ofJson? (.object [("functions", .array []),
        ("globals", .array [.node "Global" [("name", .string "c"), ("type_name", .null),
          ("mutable", .boolean false),
          ("value", .node "Access" [("name", .string "b"), ("offset", .null),
            ("resolved_type", .string "Character")]),
          ("resolved_type", .string "Character")]]),
        ("type", .string "Source")]) =
      some ⟨[⟨"c", none, false, some (.access (some .character) none "b"), some .character⟩], []⟩ ∧
    Program.erase (ν := .shown)
        ⟨[⟨"c", none, false, some (.access (some .character) (some .character) "b"),
          some .character⟩], []⟩ =
      Program.erase (ν := .shown)
        ⟨[⟨"c", none, false, some (.access (some .character) none "b"), some .character⟩], []⟩ := by
  obtain ⟨_, erased, read⟩ := Program.document_determines_tree (ν := .shown) (μ := .shown)
    ⟨[⟨"c", none, false, some (.access (some .character) (some .character) "b"),
      some .character⟩], []⟩
    ⟨[⟨"c", none, false, some (.access (some .character) none "b"), some .character⟩], []⟩
  exact ⟨read _ (Json.Alike.of_perm (List.reverse_perm _).symm (by decide)), erased rfl⟩

end

end Blockscript
