import Blockscript.Proofs.Scopes.Lexical
import Blockscript.Proofs.Typing.Passing

/-!
# Where the checker comes to

The parts of a program that are checked, each with the state that the checker is
in when it comes to it. A relation cannot change what the checker does, so this is
told apart from what the checking of a part gives.
-/

namespace Blockscript

/-- The expressions that stand right inside of an expression. -/
def Expr.parts {ν : Notes} : Expr ν → List (Expr ν)
  | literal _ _ | access _ _ _ => []
  | group _ inner => [inner]
  | binary _ _ left right => [left, right]
  | element _ _ _ offset => [offset]
  | call _ _ _ arguments => arguments
  | list _ elements => elements

/-- The expressions that stand right inside of a statement, blocks apart. -/
def Stmt.expressions {ν : Notes} : Stmt ν → List (Expr ν)
  | expression inner => [inner]
  | declaration _ _ _ value => value.toList
  | assignment receiver value => [receiver, value]
  | conditional condition _ _ => [condition]
  | switch subject _ => [subject]
  | loop condition _ => [condition]
  | returning value => [value]
  | stray _ _ => []

namespace Typing

/-- What the checker can be at work on. -/
inductive Part where
  | expression (source : Expr .bare)
  | statement (source : Stmt .bare)
  | block (sources : List (Stmt .bare))
  | cases (sources : List (Case .bare))

/-- The checker in a new scope. -/
def Checker.entered (checker : Checker) : Checker :=
  { checker with environment := checker.environment.openScope none }

/-- Checking a program comes to a part of it in a state. The expressions in a
statement, and those in an expression, are all come to in the state of the whole,
because checking an expression does not change the state. -/
inductive Visits (program : Program .bare) : Part → Checker → Prop where
  | globalValue {earlier later : List (GlobalDef .bare)} {definition : GlobalDef .bare}
      {trees : List (GlobalDef .checked)} {checker : Checker} {value : Expr .bare} :
      program.globals = earlier ++ definition :: later →
      (checkGlobals earlier).Passes .initial trees checker → definition.value = some value →
      Visits program (.expression value) checker
  | body {earlier later : List (FunctionDef .bare)} {definition : FunctionDef .bare}
      {globals : List (GlobalDef .checked)} {functions : List (FunctionDef .checked)}
      {rooted checker inside : Checker} {types : List Ty} {declared : Option Ty}
      {environment : Environment Unit Unit} :
      program.functions = earlier ++ definition :: later →
      (checkGlobals program.globals).Passes .initial globals rooted →
      (checkFunctions earlier).Passes rooted functions checker →
      (parameterTypes definition.parameterTypes).Passes checker types checker →
      (resultType? definition.returnType).Passes checker declared checker →
      checker.environment.defineFunction ⟨definition.name, types, declared, none⟩ =
        .ok environment →
      (defineParameters definition.parameters types).Passes
        ⟨environment.openScope none, ⟨declared, none⟩⟩ () inside →
      Visits program (.block definition.body) inside
  | part {source inner : Expr .bare} {checker : Checker} :
      Visits program (.expression source) checker → inner ∈ source.parts →
      Visits program (.expression inner) checker
  | operand {source : Stmt .bare} {inner : Expr .bare} {checker : Checker} :
      Visits program (.statement source) checker → inner ∈ source.expressions →
      Visits program (.expression inner) checker
  | first {first : Stmt .bare} {rest : List (Stmt .bare)} {checker : Checker} :
      Visits program (.block (first :: rest)) checker → Visits program (.statement first) checker
  | rest {first : Stmt .bare} {rest : List (Stmt .bare)} {tree : Stmt .checked}
      {checker later : Checker} :
      Visits program (.block (first :: rest)) checker →
      (checkStmt first).Passes checker tree later → Visits program (.block rest) later
  | thenBlock {condition : Expr .bare} {thenBlock elseBlock : List (Stmt .bare)}
      {checker : Checker} :
      Visits program (.statement (.conditional condition thenBlock elseBlock)) checker →
      Visits program (.block thenBlock) checker.entered
  | elseBlock {condition : Expr .bare} {thenBlock elseBlock : List (Stmt .bare)}
      {trees : List (Stmt .checked)} {checker later : Checker} :
      Visits program (.statement (.conditional condition thenBlock elseBlock)) checker →
      (Check.inScope (checkBlock thenBlock)).Passes checker trees later →
      Visits program (.block elseBlock) later.entered
  | loop {condition : Expr .bare} {body : List (Stmt .bare)} {checker : Checker} :
      Visits program (.statement (.loop condition body)) checker →
      Visits program (.block body) checker.entered
  | switch {subject : Expr .bare} {cases : List (Case .bare)} {checker : Checker} :
      Visits program (.statement (.switch subject cases)) checker →
      Visits program (.cases cases) checker
  | label {label : Expr .bare} {body : List (Stmt .bare)} {rest : List (Case .bare)}
      {checker : Checker} :
      Visits program (.cases (.mk (some label) body :: rest)) checker →
      Visits program (.expression label) checker
  | chosen {label : Option (Expr .bare)} {body : List (Stmt .bare)} {rest : List (Case .bare)}
      {checker : Checker} :
      Visits program (.cases (.mk label body :: rest)) checker →
      Visits program (.block body) checker.entered
  | others {label : Option (Expr .bare)} {body : List (Stmt .bare)} {rest : List (Case .bare)}
      {trees : List (Stmt .checked)} {checker later : Checker} :
      Visits program (.cases (.mk label body :: rest)) checker →
      (Check.inScope (checkBlock body)).Passes checker trees later →
      Visits program (.cases rest) later

/-- The checker comes to an expression in the given scopes, and what it makes of it
is the given tree. -/
def Checked (program : Program .bare) (scopes : Scopes) (tree : Expr .checked) : Prop :=
  ∃ source checker, Visits program (.expression source) checker ∧
    checker.environment = scopes.environment ∧ (checkExpr source).Passes checker tree checker

end Typing

end Blockscript
