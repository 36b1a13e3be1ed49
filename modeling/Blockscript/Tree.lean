import Blockscript.Value

/-!
# Program trees

A program is a list of globals and a list of functions. Every tree has a
parameter for what stands on its nodes: nothing when the tree has just been
parsed, types and the meaning of names when it has been checked. What a stage
guarantees is so the type of its trees. Running works on trees of either sort.

Names of types and operators stay as they were written. The trees that the
grammar produces are only some of these: a hand-built tree may assign to any
expression, use any word as an operator, or hold a case outside of a switch.
-/

namespace Blockscript

/-- The literals of the language. -/
inductive Literal where
  | nil
  | boolean (truth : Bool)
  | integer (number : Int)
  | decimal (number : Decimal)
  | character (text : String)
  | string (text : String)
deriving DecidableEq, Inhabited

/-- The value that a literal denotes. -/
def Literal.value : Literal → Value
  | nil => .nil
  | boolean truth => .boolean truth
  | integer number => .integer number
  | decimal number => .decimal number
  | character text => .character text
  | string text => .string text

/-- The least integer literal. -/
def Literal.leastInteger : Int := -2147483648

/-- The greatest integer literal. -/
def Literal.greatestInteger : Int := 2147483647

/-- Whether an integer may be written as a literal. Literals have 32 bits with a
sign, although the integers that a run computes are not limited. -/
def Literal.fitsInteger (number : Int) : Bool :=
  leastInteger ≤ number && number ≤ greatestInteger

/-- What stands on the nodes of a tree. -/
structure Notes where
  /-- On every expression. -/
  type : Type
  /-- On every definition and every use of a variable. -/
  entry : Type
  /-- On every definition and every call of a function. -/
  routine : Type

/-- The notes of a tree that has only been parsed. -/
abbrev Notes.bare : Notes :=
  ⟨Unit, Unit, Unit⟩

/-- Expressions. A name is the use of a variable as a whole, or of one element of
the list that it holds. -/
inductive Expr (ν : Notes) where
  | literal (type : ν.type) (literal : Literal)
  | group (type : ν.type) (inner : Expr ν)
  | binary (type : ν.type) (operator : String) (left right : Expr ν)
  | access (type : ν.type) (entry : ν.entry) (name : String)
  | element (type : ν.type) (entry : ν.entry) (name : String) (offset : Expr ν)
  | call (type : ν.type) (routine : ν.routine) (name : String) (arguments : List (Expr ν))
  | list (type : ν.type) (elements : List (Expr ν))

mutual

/-- Statements. -/
inductive Stmt (ν : Notes) where
  | expression (inner : Expr ν)
  | declaration (entry : ν.entry) (name : String) (typeName : Option String)
      (value : Option (Expr ν))
  | assignment (receiver value : Expr ν)
  | conditional (condition : Expr ν) (thenBlock elseBlock : List (Stmt ν))
  | switch (subject : Expr ν) (cases : List (Case ν))
  | loop (condition : Expr ν) (body : List (Stmt ν))
  | returning (value : Expr ν)
  /-- A case outside of any switch. Its label is never looked at, so it has no
  notes in any tree. -/
  | stray (label : Option (Expr .bare)) (body : List (Stmt ν))

/-- The cases of a switch. The default case has no label. -/
inductive Case (ν : Notes) where
  | mk (label : Option (Expr ν)) (body : List (Stmt ν))

end

instance {ν : Notes} [Inhabited ν.type] : Inhabited (Expr ν) :=
  ⟨.literal default .nil⟩

instance {ν : Notes} : Inhabited (Stmt ν) :=
  ⟨.stray none []⟩

instance {ν : Notes} : Inhabited (Case ν) :=
  ⟨.mk none []⟩

/-- A variable of the whole program. -/
structure GlobalDef (ν : Notes) where
  name : String
  typeName : Option String
  mutable : Bool
  value : Option (Expr ν)
  entry : ν.entry

/-- A function. Parameter names and their types are two lists; the grammar makes
them equally long, a hand-built tree need not. -/
structure FunctionDef (ν : Notes) where
  name : String
  parameters : List String
  parameterTypes : List (Option String)
  returnType : Option String
  body : List (Stmt ν)
  routine : ν.routine

/-- A whole program. -/
structure Program (ν : Notes) where
  globals : List (GlobalDef ν)
  functions : List (FunctionDef ν)

namespace Expr

variable {ν : Notes}

/-- The note on an expression. -/
def type : Expr ν → ν.type
  | literal type _ => type
  | group type _ => type
  | binary type _ _ _ => type
  | access type _ _ => type
  | element type _ _ _ => type
  | call type _ _ _ => type
  | list type _ => type

/-- Whether the expression is a variable or a list element. -/
def isPlace : Expr ν → Bool
  | access _ _ _ => true
  | element _ _ _ _ => true
  | _ => false

/-- Whether the expression is a binary one. -/
def isBinary : Expr ν → Bool
  | binary _ _ _ _ => true
  | _ => false

/-- Whether the expression is a call. -/
def isCall : Expr ν → Bool
  | call _ _ _ _ => true
  | _ => false

end Expr

end Blockscript
