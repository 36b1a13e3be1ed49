import Blockscript.Proofs.Decimal.Magnitude
import Blockscript.Proofs.Typing.Judgement

/-!
# The typing rules

What it means that a program is well typed, as rules that derive the checked tree of a
parsed one. The rules do not say in what order anything is looked at, and nothing of the
checker occurs in them: a type is named by its text, a number is in range by its size, and
what a name means is found in the lexical scopes around it.

A list literal takes its element type from its first element, or from the list that it is
stored in when it stands right there. Where both are possible they give the same.
-/

namespace Blockscript

/-- What may be stored where, the target first: a value of the same type, anything in `Any`,
and what has an order in `Comparable`. Lists are invariant. -/
inductive Assignable : Ty → Ty → Prop where
  | same (type : Ty) : Assignable type type
  | any (source : Ty) : Assignable .any source
  | integer : Assignable .comparable .integer
  | decimal : Assignable .comparable .decimal
  | character : Assignable .comparable .character
  | string : Assignable .comparable .string

/-- The types of literals. Integers have 32 bits with a sign, and decimals are those that a
double has room for. -/
inductive LiteralDerives : Literal → Ty → Prop where
  | nil : LiteralDerives .nil .nil
  | boolean (truth : Bool) : LiteralDerives (.boolean truth) .boolean
  | integer {number : Int} :
      -2 ^ 31 ≤ number → number < 2 ^ 31 → LiteralDerives (.integer number) .integer
  | decimal {number : Decimal} :
      number.magnitude < 2 ^ 1024 - 2 ^ 970 → LiteralDerives (.decimal number) .decimal
  | character (text : String) : LiteralDerives (.character text) .character
  | string (text : String) : LiteralDerives (.string text) .string

/-- The types of operators as written: of the left side, of the right side and of the whole. -/
inductive OperatorDerives : String → Ty → Ty → Ty → Prop where
  | logical {text : String} :
      text ∈ ["&&", "||"] → OperatorDerives text .boolean .boolean .boolean
  | comparison {text : String} {type : Ty} :
      text ∈ ["<", ">", "==", "!="] → Assignable .comparable type →
      OperatorDerives text type type .boolean
  | joinLeft (right : Ty) : OperatorDerives "+" .string right .string
  | joinRight (left : Ty) : OperatorDerives "+" left .string .string
  | arithmetic {text : String} {type : Ty} :
      text ∈ ["+", "-", "*", "/"] → type ∈ [.integer, .decimal] →
      OperatorDerives text type type type
  | power {type : Ty} :
      type ∈ [.integer, .decimal] → OperatorDerives "^" type .integer type

mutual

/-- What an expression becomes in some scopes. -/
inductive ExprDerives (scopes : Scopes) : Expr .bare → Expr .checked → Prop where
  | literal {literal : Literal} {type : Ty} :
      LiteralDerives literal type →
      ExprDerives scopes (.literal () literal) (.literal type literal)
  | group {operator : String} {left right : Expr .bare} {tree : Expr .checked} :
      ExprDerives scopes (.binary () operator left right) tree →
      ExprDerives scopes (.group () (.binary () operator left right)) (.group tree.type tree)
  | binary {operator : String} {left right : Expr .bare} {leftTree rightTree : Expr .checked}
      {type : Ty} :
      ExprDerives scopes left leftTree → ExprDerives scopes right rightTree →
      OperatorDerives operator leftTree.type rightTree.type type →
      ExprDerives scopes (.binary () operator left right)
        (.binary type operator leftTree rightTree)
  | access {name : String} {binding : Binding} :
      scopes.find? name = some binding →
      ExprDerives scopes (.access () () name) (.access binding.entry.type binding.entry name)
  | element {name : String} {binding : Binding} {element : Ty} {offset : Expr .bare}
      {tree : Expr .checked} :
      scopes.find? name = some binding → binding.entry.type = .list element →
      ExprDerives scopes offset tree → tree.type = .integer →
      ExprDerives scopes (.element () () name offset) (.element element binding.entry name tree)
  | call {name : String} {arguments : List (Expr .bare)} {trees : List (Expr .checked)}
      {routine : Routine Unit} {result : Ty} :
      scopes.routine? name arguments.length = some routine → routine.result = some result →
      StoredDerives scopes routine.parameters arguments trees →
      ExprDerives scopes (.call () () name arguments)
        (.call result ⟨routine.parameters, result⟩ name trees)
  | list {first : Expr .bare} {rest : List (Expr .bare)} {tree : Expr .checked}
      {trees : List (Expr .checked)} :
      ExprDerives scopes first tree →
      StoredDerives scopes (List.replicate rest.length tree.type) rest trees →
      ExprDerives scopes (.list () (first :: rest)) (.list (.list tree.type) (tree :: trees))

/-- What expressions become whose values are stored in targets of the given types. -/
inductive StoredDerives (scopes : Scopes) :
    List Ty → List (Expr .bare) → List (Expr .checked) → Prop where
  | nil : StoredDerives scopes [] [] []
  | cons {target : Ty} {targets : List Ty} {source : Expr .bare} {sources : List (Expr .bare)}
      {tree : Expr .checked} {trees : List (Expr .checked)} :
      ExprDerives scopes source tree → Assignable target tree.type →
      StoredDerives scopes targets sources trees →
      StoredDerives scopes (target :: targets) (source :: sources) (tree :: trees)

end

/-- What the value of a binding of a known type becomes. A list literal right there may take
its element type from the binding, and then may be empty. -/
inductive ValueDerives (scopes : Scopes) : Ty → Expr .bare → Expr .checked → Prop where
  | plain {target : Ty} {source : Expr .bare} {tree : Expr .checked} :
      ExprDerives scopes source tree → Assignable target tree.type →
      ValueDerives scopes target source tree
  | contextual {element : Ty} {sources : List (Expr .bare)} {trees : List (Expr .checked)} :
      StoredDerives scopes (List.replicate sources.length element) sources trees →
      ValueDerives scopes (.list element) (.list () sources) (.list (.list element) trees)

/-- The type of a new variable and what its value becomes. A type that is left out is that
of the value. -/
inductive BindingDerives (scopes : Scopes) :
    Option String → Option (Expr .bare) → Ty → Option (Expr .checked) → Prop where
  | uninitialised (type : Ty) : BindingDerives scopes (some type.text) none type none
  | initialised {type : Ty} {value : Expr .bare} {tree : Expr .checked} :
      ValueDerives scopes type value tree →
      BindingDerives scopes (some type.text) (some value) type (some tree)
  | inferred {value : Expr .bare} {tree : Expr .checked} :
      ExprDerives scopes value tree →
      BindingDerives scopes none (some value) tree.type (some tree)

mutual

/-- What a statement becomes at a place, in a function with the given result. -/
inductive StmtDerives (result : Ty) : Site → Stmt .bare → Stmt .checked → Prop where
  | expression {site : Site} {name : String} {arguments : List (Expr .bare)}
      {tree : Expr .checked} :
      ExprDerives site.scopes (.call () () name arguments) tree →
      StmtDerives result site (.expression (.call () () name arguments)) (.expression tree)
  | declaration {site : Site} {name : String} {typeName : Option String}
      {value : Option (Expr .bare)} {type : Ty} {tree : Option (Expr .checked)} :
      site.scopes.innermost.find? (Binding.isNamed name) = none →
      BindingDerives site.scopes typeName value type tree →
      StmtDerives result site (.declaration () name typeName value)
        (.declaration ⟨name, type, true, ()⟩ name typeName tree)
  | assignment {site : Site} {receiver value : Expr .bare} {place tree : Expr .checked} :
      receiver.isPlace = true → ExprDerives site.scopes receiver place →
      ValueDerives site.scopes place.type value tree →
      StmtDerives result site (.assignment receiver value) (.assignment place tree)
  | conditional {site : Site} {condition : Expr .bare} {tree : Expr .checked}
      {thenBlock elseBlock : List (Stmt .bare)} {thenTrees elseTrees : List (Stmt .checked)} :
      ExprDerives site.scopes condition tree → tree.type = .boolean → thenBlock ≠ [] →
      BlockDerives result (site.block 0) thenBlock thenTrees →
      BlockDerives result (site.block 1) elseBlock elseTrees →
      StmtDerives result site (.conditional condition thenBlock elseBlock)
        (.conditional tree thenTrees elseTrees)
  | switch {site : Site} {subject : Expr .bare} {tree : Expr .checked}
      {cases : List (Case .bare)} {trees : List (Case .checked)} :
      ExprDerives site.scopes subject tree →
      CasesDerives result tree.type site 0 cases trees →
      StmtDerives result site (.switch subject cases) (.switch tree trees)
  | loop {site : Site} {condition : Expr .bare} {tree : Expr .checked}
      {body : List (Stmt .bare)} {trees : List (Stmt .checked)} :
      ExprDerives site.scopes condition tree → tree.type = .boolean →
      BlockDerives result (site.block 0) body trees →
      StmtDerives result site (.loop condition body) (.loop tree trees)
  | returning {site : Site} {value : Expr .bare} {tree : Expr .checked} :
      ExprDerives site.scopes value tree → Assignable result tree.type →
      StmtDerives result site (.returning value) (.returning tree)

/-- What statements become one behind the other. -/
inductive BlockDerives (result : Ty) : Site → List (Stmt .bare) → List (Stmt .checked) → Prop where
  | nil {site : Site} : BlockDerives result site [] []
  | cons {site : Site} {first : Stmt .bare} {rest : List (Stmt .bare)} {tree : Stmt .checked}
      {trees : List (Stmt .checked)} :
      StmtDerives result site first tree → BlockDerives result (site.after tree) rest trees →
      BlockDerives result site (first :: rest) (tree :: trees)

/-- What the cases of a switch become from the one of the given number on, for a subject of
the given type. There is one default, and it is the last. -/
inductive CasesDerives (result : Ty) :
    Ty → Site → Nat → List (Case .bare) → List (Case .checked) → Prop where
  | default {subject : Ty} {site : Site} {number : Nat} {body : List (Stmt .bare)}
      {trees : List (Stmt .checked)} :
      BlockDerives result (site.block number) body trees →
      CasesDerives result subject site number [.mk none body] [.mk none trees]
  | labelled {subject : Ty} {site : Site} {number : Nat} {label : Expr .bare}
      {tree : Expr .checked} {body : List (Stmt .bare)} {trees : List (Stmt .checked)}
      {rest : List (Case .bare)} {others : List (Case .checked)} :
      ExprDerives site.scopes label tree → tree.type = subject →
      BlockDerives result (site.block number) body trees →
      CasesDerives result subject site (number + 1) rest others →
      CasesDerives result subject site number (.mk (some label) body :: rest)
        (.mk (some tree) trees :: others)

end

/-- What a global becomes behind others. One that is immutable has a value. -/
structure GlobalDerives (before : List Binding) (source : GlobalDef .bare)
    (tree : GlobalDef .checked) : Prop where
  name : tree.name = source.name
  typeName : tree.typeName = source.typeName
  mutable : tree.mutable = source.mutable
  entry : tree.entry = ⟨source.name, tree.entry.type, source.mutable, ()⟩
  valued : source.mutable = false → source.value ≠ none
  fresh : before.find? (Binding.isNamed source.name) = none
  value : BindingDerives (rootScopes before) source.typeName source.value tree.entry.type
    tree.value

/-- What globals become one behind the other. -/
inductive GlobalsDerive :
    List Binding → List (GlobalDef .bare) → List (GlobalDef .checked) → Prop where
  | nil {before : List Binding} : GlobalsDerive before [] []
  | cons {before : List Binding} {first : GlobalDef .bare} {rest : List (GlobalDef .bare)}
      {tree : GlobalDef .checked} {trees : List (GlobalDef .checked)} :
      GlobalDerives before first tree →
      GlobalsDerive (before ++ [tree.binding before.length]) rest trees →
      GlobalsDerive before (first :: rest) (tree :: trees)

/-- The type of a parameter. One without a type takes values of any type. -/
inductive ParameterDerives : Option String → Ty → Prop where
  | untyped : ParameterDerives none .any
  | typed (type : Ty) : ParameterDerives (some type.text) type

/-- What a function with a declared result becomes behind others. It is known to its own
body, and its parameters and the declarations right in the body share one scope. -/
structure FunctionDerives (root : List Binding) (before : List (FunctionDef .checked))
    (source : FunctionDef .bare) (tree : FunctionDef .checked) : Prop where
  name : tree.name = source.name
  parameters : tree.parameters = source.parameters
  parameterTypes : tree.parameterTypes = source.parameterTypes
  returnType : tree.returnType = source.returnType
  types : List.Forall₂ ParameterDerives source.parameterTypes tree.routine.parameters
  result : source.returnType = some tree.routine.result.text
  distinct : source.parameters.Nodup
  fresh : (definedScopes root before).routine? source.name source.parameters.length = none
  body : BlockDerives tree.routine.result (tree.site root before) source.body tree.body

/-- What functions become one behind the other. -/
inductive FunctionsDerive (root : List Binding) :
    List (FunctionDef .checked) → List (FunctionDef .bare) → List (FunctionDef .checked) →
      Prop where
  | nil {before : List (FunctionDef .checked)} : FunctionsDerive root before [] []
  | cons {before : List (FunctionDef .checked)} {first : FunctionDef .bare}
      {rest : List (FunctionDef .bare)} {tree : FunctionDef .checked}
      {trees : List (FunctionDef .checked)} :
      FunctionDerives root before first tree →
      FunctionsDerive root (before ++ [tree]) rest trees →
      FunctionsDerive root before (first :: rest) (tree :: trees)

/-- What a program becomes: its globals, then its functions, of which one is a `main`
without parameters that gives an integer. -/
structure ProgramDerives (source : Program .bare) (tree : Program .checked) : Prop where
  globals : GlobalsDerive [] source.globals tree.globals
  functions : FunctionsDerive tree.bindings [] source.functions tree.functions
  main : ∃ definition ∈ tree.functions,
    definition.name = "main" ∧ definition.parameters = [] ∧ definition.routine.result = .integer

end Blockscript
