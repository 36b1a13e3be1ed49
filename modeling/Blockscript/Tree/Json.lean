import Blockscript.Json
import Blockscript.Tree

/-!
# Trees as JSON documents

Every node becomes an object whose first member names its kind. Optional parts
that are missing are written as null, so the members of a kind are always the
same. The last member of an expression, a global, a declaration and a function
is the type found by checking, or null when the tree has not been checked.
-/

namespace Blockscript

/-- Notes of which the types can be shown, as far as they carry any. -/
class Shown (ν : Notes) where
  /-- The type of an expression. -/
  type? : ν.type → Option Ty
  /-- The type of a variable. -/
  entry? : ν.entry → Option Ty
  /-- The type of the result of a function. -/
  routine? : ν.routine → Option Ty

instance : Shown .bare :=
  ⟨fun _ => none, fun _ => none, fun _ => none⟩

namespace Json

/-- A text, or null. -/
def ofText? (text : Option String) : Json :=
  (text.map string).getD null

/-- A type, or null. -/
def ofType? (type : Option Ty) : Json :=
  ofText? (type.map Ty.text)

/-- A node of a kind. -/
def node (kind : String) (members : List (String × Json)) : Json :=
  object (("type", string kind) :: members)

end Json

/-- A literal. Numbers with a point and characters are objects of one member,
since JSON has neither. -/
def Literal.toJson : Literal → Json
  | nil => .null
  | boolean truth => .boolean truth
  | integer number => .integer number
  | decimal number => .object [("decimal", .string number.text)]
  | character text => .object [("char", .string text)]
  | string text => .string text

mutual

/-- An expression. -/
def Expr.toJson {ν : Notes} [Shown ν] : Expr ν → Json
  | .literal type value =>
    .node "Literal" [("value", value.toJson), ("resolved_type", .ofType? (Shown.type? type))]
  | .group type inner =>
    .node "Group" [("expression", inner.toJson), ("resolved_type", .ofType? (Shown.type? type))]
  | .binary type operator left right =>
    .node "Binary" [("operator", .string operator), ("left", left.toJson),
      ("right", right.toJson), ("resolved_type", .ofType? (Shown.type? type))]
  | .access type _ name =>
    .node "Access" [("name", .string name), ("offset", .null),
      ("resolved_type", .ofType? (Shown.type? type))]
  | .element type _ name offset =>
    .node "Access" [("name", .string name), ("offset", offset.toJson),
      ("resolved_type", .ofType? (Shown.type? type))]
  | .call type _ name arguments =>
    .node "Call" [("name", .string name), ("arguments", .array (Expr.allToJson arguments)),
      ("resolved_type", .ofType? (Shown.type? type))]
  | .list type elements =>
    .node "ListLiteral" [("elements", .array (Expr.allToJson elements)),
      ("resolved_type", .ofType? (Shown.type? type))]

/-- Expressions in order. -/
def Expr.allToJson {ν : Notes} [Shown ν] : List (Expr ν) → List Json
  | [] => []
  | first :: rest => first.toJson :: Expr.allToJson rest

end

/-- An expression, or null. -/
def Expr.optionalToJson {ν : Notes} [Shown ν] (expression : Option (Expr ν)) : Json :=
  (expression.map Expr.toJson).getD .null

mutual

/-- A statement. -/
def Stmt.toJson {ν : Notes} [Shown ν] : Stmt ν → Json
  | .expression inner => .node "ExpressionStmt" [("expression", inner.toJson)]
  | .declaration entry name typeName value =>
    .node "Declaration" [("name", .string name), ("type_name", .ofText? typeName),
      ("value", Expr.optionalToJson value), ("resolved_type", .ofType? (Shown.entry? entry))]
  | .assignment receiver value =>
    .node "Assignment" [("receiver", receiver.toJson), ("value", value.toJson)]
  | .conditional condition thenBlock elseBlock =>
    .node "If" [("condition", condition.toJson), ("then_block", .array (Stmt.allToJson thenBlock)),
      ("else_block", .array (Stmt.allToJson elseBlock))]
  | .switch subject cases =>
    .node "Switch" [("condition", subject.toJson), ("cases", .array (Case.allToJson cases))]
  | .loop condition body =>
    .node "While" [("condition", condition.toJson), ("body", .array (Stmt.allToJson body))]
  | .returning value => .node "Return" [("value", value.toJson)]
  | .stray label body =>
    .node "Case" [("value", Expr.optionalToJson label), ("body", .array (Stmt.allToJson body))]

/-- Statements in order. -/
def Stmt.allToJson {ν : Notes} [Shown ν] : List (Stmt ν) → List Json
  | [] => []
  | first :: rest => first.toJson :: Stmt.allToJson rest

/-- A case of a switch. -/
def Case.toJson {ν : Notes} [Shown ν] : Case ν → Json
  | .mk label body =>
    .node "Case" [("value", Expr.optionalToJson label), ("body", .array (Stmt.allToJson body))]

/-- Cases in order. -/
def Case.allToJson {ν : Notes} [Shown ν] : List (Case ν) → List Json
  | [] => []
  | first :: rest => first.toJson :: Case.allToJson rest

end

/-- A global. -/
def GlobalDef.toJson {ν : Notes} [Shown ν] (definition : GlobalDef ν) : Json :=
  .node "Global" [("name", .string definition.name), ("type_name", .ofText? definition.typeName),
    ("mutable", .boolean definition.mutable), ("value", Expr.optionalToJson definition.value),
    ("resolved_type", .ofType? (Shown.entry? definition.entry))]

/-- A function. -/
def FunctionDef.toJson {ν : Notes} [Shown ν] (definition : FunctionDef ν) : Json :=
  .node "Function" [("name", .string definition.name),
    ("parameters", .array (definition.parameters.map .string)),
    ("parameter_type_names", .array (definition.parameterTypes.map .ofText?)),
    ("return_type_name", .ofText? definition.returnType),
    ("body", .array (Stmt.allToJson definition.body)),
    ("resolved_return_type", .ofType? (Shown.routine? definition.routine))]

/-- A program. -/
def Program.toJson {ν : Notes} [Shown ν] (program : Program ν) : Json :=
  .node "Source" [("globals", .array (program.globals.map GlobalDef.toJson)),
    ("functions", .array (program.functions.map FunctionDef.toJson))]

end Blockscript
