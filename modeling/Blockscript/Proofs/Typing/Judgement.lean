import Blockscript.Proofs.Scopes.Lexical
import Mathlib.Data.List.Forall2

/-!
# Typing judgements

What a checked tree promises, as relations on the tree and the scopes around it.
They say less than the checker decides: a list may carry any element type that
its elements are assignable to, and a return has to fit a result type that is
given from outside instead of being inferred on the way. What is left is what a
run relies on. What else is known of the uses of names is a parameter: it is
carried along from the checker to the run.
-/

namespace Blockscript

/-- A place in the text of a program: the scopes there, and its path. -/
structure Site where
  scopes : Scopes
  path : List Nat

namespace Site

/-- The path of the next statement of a block. -/
def following : List Nat → List Nat
  | [] => []
  | index :: outer => (index + 1) :: outer

/-- The place behind a statement. Only a declaration leaves a binding behind. -/
def after (site : Site) : Stmt .checked → Site
  | .declaration entry _ _ _ =>
    ⟨site.scopes.declare ⟨.declaration site.path, entry⟩, following site.path⟩
  | _ => { site with path := following site.path }

/-- Behind a statement the scopes have grown by what it declares. -/
theorem after_scopes (site : Site) (statement : Stmt .checked) :
    ∃ bindings, (site.after statement).scopes = site.scopes.extend bindings := by
  cases statement with
  | declaration entry _ _ _ => exact ⟨[⟨.declaration site.path, entry⟩], rfl⟩
  | _ => exact ⟨[], site.scopes.extend_nil.symm⟩

/-- The start of one of the blocks in a statement. -/
def block (site : Site) (number : Nat) : Site :=
  ⟨site.scopes.enter, 0 :: number :: site.path⟩

end Site

variable (seen : Scopes → Expr .checked → Prop)

/-- Expressions that are typed in some scopes. Their types are on their nodes. -/
inductive ExprTyped (scopes : Scopes) : Expr .checked → Prop where
  | literal {type : Ty} {literal : Literal} :
      Typing.literalType literal = .ok type → ExprTyped scopes (.literal type literal)
  | group {inner : Expr .checked} :
      ExprTyped scopes inner → ExprTyped scopes (.group inner.type inner)
  | binary {type : Ty} {operator : String} {left right : Expr .checked} :
      ExprTyped scopes left → ExprTyped scopes right →
      Typing.binaryType operator left.type right.type = .ok type →
      ExprTyped scopes (.binary type operator left right)
  | access {name : String} {binding : Binding} :
      scopes.find? name = some binding →
      seen scopes (.access binding.entry.type binding.entry name) →
      ExprTyped scopes (.access binding.entry.type binding.entry name)
  | element {name : String} {binding : Binding} {element : Ty} {offset : Expr .checked} :
      scopes.find? name = some binding → binding.entry.type = .list element →
      ExprTyped scopes offset → offset.type = .integer →
      seen scopes (.element element binding.entry name offset) →
      ExprTyped scopes (.element element binding.entry name offset)
  | call {name : String} {routine : Routine Unit} {result : Ty}
      {arguments : List (Expr .checked)} :
      scopes.routine? name arguments.length = some routine → routine.result = some result →
      (∀ argument ∈ arguments, ExprTyped scopes argument) →
      List.Forall₂ (fun parameter argument => parameter.isAssignable argument.type = true)
        routine.parameters arguments →
      seen scopes (.call result ⟨routine.parameters, result⟩ name arguments) →
      ExprTyped scopes (.call result ⟨routine.parameters, result⟩ name arguments)
  | list {element : Ty} {elements : List (Expr .checked)} :
      (∀ inner ∈ elements, ExprTyped scopes inner) →
      (∀ inner ∈ elements, element.isAssignable inner.type = true) →
      ExprTyped scopes (.list (.list element) elements)

mutual

/-- Statements that are typed at a place, in a function with the given result. -/
inductive StmtTyped (result : Ty) : Site → Stmt .checked → Prop where
  | expression {site : Site} {inner : Expr .checked} :
      ExprTyped seen site.scopes inner → StmtTyped result site (.expression inner)
  | uninitialised {site : Site} {name : String} {type : Ty} {typeName : Option String} :
      site.scopes.innermost.find? (Binding.isNamed name) = none →
      StmtTyped result site (.declaration ⟨name, type, true, ()⟩ name typeName none)
  | initialised {site : Site} {name : String} {type : Ty} {typeName : Option String}
      {value : Expr .checked} :
      site.scopes.innermost.find? (Binding.isNamed name) = none →
      ExprTyped seen site.scopes value → type.isAssignable value.type = true →
      StmtTyped result site (.declaration ⟨name, type, true, ()⟩ name typeName (some value))
  | assignment {site : Site} {receiver value : Expr .checked} :
      receiver.isPlace = true → ExprTyped seen site.scopes receiver →
      ExprTyped seen site.scopes value → receiver.type.isAssignable value.type = true →
      StmtTyped result site (.assignment receiver value)
  | conditional {site : Site} {condition : Expr .checked}
      {thenBlock elseBlock : List (Stmt .checked)} :
      ExprTyped seen site.scopes condition → condition.type = .boolean →
      BlockTyped result (site.block 0) thenBlock → BlockTyped result (site.block 1) elseBlock →
      StmtTyped result site (.conditional condition thenBlock elseBlock)
  | switch {site : Site} {subject : Expr .checked} {cases : List (Case .checked)} :
      ExprTyped seen site.scopes subject → CasesTyped result subject.type site 0 cases →
      StmtTyped result site (.switch subject cases)
  | loop {site : Site} {condition : Expr .checked} {body : List (Stmt .checked)} :
      ExprTyped seen site.scopes condition → condition.type = .boolean →
      BlockTyped result (site.block 0) body → StmtTyped result site (.loop condition body)
  | returning {site : Site} {value : Expr .checked} :
      ExprTyped seen site.scopes value → result.isAssignable value.type = true →
      StmtTyped result site (.returning value)

/-- Statements that are typed one behind the other. -/
inductive BlockTyped (result : Ty) : Site → List (Stmt .checked) → Prop where
  | nil {site : Site} : BlockTyped result site []
  | cons {site : Site} {first : Stmt .checked} {rest : List (Stmt .checked)} :
      StmtTyped result site first → BlockTyped result (site.after first) rest →
      BlockTyped result site (first :: rest)

/-- The cases of a switch from the one of the given number on, for a subject of
the given type. The default is there, and is the last. -/
inductive CasesTyped (result : Ty) : Ty → Site → Nat → List (Case .checked) → Prop where
  | default {subject : Ty} {site : Site} {number : Nat} {body : List (Stmt .checked)} :
      BlockTyped result (site.block number) body →
      CasesTyped result subject site number [.mk none body]
  | labelled {subject : Ty} {site : Site} {number : Nat} {label : Expr .checked}
      {body : List (Stmt .checked)} {rest : List (Case .checked)} :
      ExprTyped seen site.scopes label → label.type = subject →
      BlockTyped result (site.block number) body →
      CasesTyped result subject site (number + 1) rest →
      CasesTyped result subject site number (.mk (some label) body :: rest)

end

/-- The binding of a global with so many others before it. -/
def GlobalDef.binding (definition : GlobalDef .checked) (index : Nat) : Binding :=
  ⟨.globalDef index, definition.entry⟩

/-- The bindings of the globals of a program. -/
def Program.bindings (program : Program .checked) : List Binding :=
  program.globals.mapIdx fun index definition => definition.binding index

/-- The scopes in the root behind some globals. -/
def rootScopes (root : List Binding) : Scopes :=
  ⟨[], root, [Typing.printSignature]⟩

/-- A global that is typed behind others. -/
structure GlobalTyped (before : List Binding) (definition : GlobalDef .checked) : Prop where
  name : definition.entry.name = definition.name
  mutable : definition.entry.mutable = definition.mutable
  fresh : before.find? (Binding.isNamed definition.name) = none
  value : ∀ value, definition.value = some value → ExprTyped seen (rootScopes before) value ∧
    definition.entry.type.isAssignable value.type = true

/-- Globals that are typed one behind the other. -/
inductive GlobalsTyped : List Binding → List (GlobalDef .checked) → Prop where
  | nil {before : List Binding} : GlobalsTyped before []
  | cons {before : List Binding} {first : GlobalDef .checked} {rest : List (GlobalDef .checked)} :
      GlobalTyped seen before first → GlobalsTyped (before ++ [first.binding before.length]) rest →
      GlobalsTyped before (first :: rest)

namespace FunctionDef

variable (definition : FunctionDef .checked)

/-- The number of parameters of a function. -/
def arity : Nat :=
  definition.parameters.length

/-- A function as its own body knows it: the result type only when it is
declared. -/
def own : Routine Unit :=
  ⟨definition.name, definition.routine.parameters,
    if definition.returnType.isSome then some definition.routine.result else none, none⟩

/-- A function as later functions know it. -/
def settled : Routine Unit :=
  ⟨definition.name, definition.routine.parameters, some definition.routine.result, none⟩

/-- The bindings of the parameters of a function with so many others before it. -/
def bindings (index : Nat) : List Binding :=
  (definition.parameters.zip definition.routine.parameters).mapIdx fun position parameter =>
    ⟨.parameter index position, ⟨parameter.1, parameter.2, true, ()⟩⟩

/-- The start of the body of a function that stands behind others. -/
def site (root : List Binding) (before : List (FunctionDef .checked)) : Site where
  scopes :=
    { inner := [definition.bindings before.length]
      root := root
      functions := Typing.printSignature :: before.map settled ++ [definition.own] }
  path := [0, before.length]

end FunctionDef

/-- The scopes in the root behind some globals and functions. -/
def definedScopes (root : List Binding) (functions : List (FunctionDef .checked)) : Scopes :=
  ⟨[], root, Typing.printSignature :: functions.map FunctionDef.settled⟩

/-- A function that is typed behind others. -/
structure FunctionTyped (root : List Binding) (before : List (FunctionDef .checked))
    (definition : FunctionDef .checked) : Prop where
  lengths : definition.parameters.length = definition.routine.parameters.length
  distinct : definition.parameters.Nodup
  fresh : (Typing.printSignature :: before.map FunctionDef.settled).find?
    (fun routine => routine.name = definition.name && routine.arity = definition.arity) = none
  body : BlockTyped seen definition.routine.result (definition.site root before) definition.body

/-- A program all of whose definitions are typed, with a `main` that gives an
integer. -/
structure ProgramTyped (program : Program .checked) : Prop where
  globals : GlobalsTyped seen [] program.globals
  functions : ∀ before definition after, program.functions = before ++ definition :: after →
    FunctionTyped seen program.bindings before definition
  main : ∃ definition ∈ program.functions,
    definition.name = "main" ∧ definition.parameters = [] ∧ definition.routine.result = .integer

variable {seen}

/-- The parameters of every function of a typed program have a type each. -/
theorem ProgramTyped.lengths {program : Program .checked} (typed : ProgramTyped seen program)
    (definition : FunctionDef .checked) (member : definition ∈ program.functions) :
    definition.parameters.length = definition.routine.parameters.length := by
  obtain ⟨front, back, split⟩ := List.append_of_mem member
  exact (typed.functions front definition back split).lengths

end Blockscript
