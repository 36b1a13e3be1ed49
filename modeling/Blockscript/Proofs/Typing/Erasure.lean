import Blockscript.Proofs.Scopes.Lifting
import Blockscript.Proofs.Typing.Visits

/-!
# Checking only writes notes

Without its notes a tree is the tree that was parsed. Checking goes through a program
and writes types and the meaning of names on the nodes; it drops no node, adds none and
moves none.
-/

namespace Blockscript

variable {ν : Notes}

mutual

/-- An expression without its notes. -/
def Expr.erase : Expr ν → Expr .bare
  | .literal _ value => .literal () value
  | .group _ inner => .group () inner.erase
  | .binary _ operator left right => .binary () operator left.erase right.erase
  | .access _ _ name => .access () () name
  | .element _ _ name offset => .element () () name offset.erase
  | .call _ _ name arguments => .call () () name (Expr.eraseAll arguments)
  | .list _ elements => .list () (Expr.eraseAll elements)

/-- Expressions without their notes. -/
def Expr.eraseAll : List (Expr ν) → List (Expr .bare)
  | [] => []
  | first :: rest => first.erase :: Expr.eraseAll rest

end

mutual

/-- A statement without its notes. -/
def Stmt.erase : Stmt ν → Stmt .bare
  | .expression inner => .expression inner.erase
  | .declaration _ name typeName value => .declaration () name typeName (value.map Expr.erase)
  | .assignment receiver value => .assignment receiver.erase value.erase
  | .conditional condition thenBlock elseBlock =>
    .conditional condition.erase (Stmt.eraseAll thenBlock) (Stmt.eraseAll elseBlock)
  | .switch subject cases => .switch subject.erase (Case.eraseAll cases)
  | .loop condition body => .loop condition.erase (Stmt.eraseAll body)
  | .returning value => .returning value.erase
  | .stray label body => .stray label (Stmt.eraseAll body)

/-- Statements without their notes. -/
def Stmt.eraseAll : List (Stmt ν) → List (Stmt .bare)
  | [] => []
  | first :: rest => first.erase :: Stmt.eraseAll rest

/-- Cases without their notes. -/
def Case.eraseAll : List (Case ν) → List (Case .bare)
  | [] => []
  | .mk label body :: rest => .mk (label.map Expr.erase) (Stmt.eraseAll body) :: Case.eraseAll rest

end

/-- A global without its notes. -/
def GlobalDef.erase (definition : GlobalDef ν) : GlobalDef .bare :=
  { definition with value := definition.value.map Expr.erase, entry := () }

/-- A function without its notes. -/
def FunctionDef.erase (definition : FunctionDef ν) : FunctionDef .bare :=
  { definition with body := Stmt.eraseAll definition.body, routine := () }

/-- A program without its notes. -/
def Program.erase (program : Program ν) : Program .bare :=
  ⟨program.globals.map GlobalDef.erase, program.functions.map FunctionDef.erase⟩

/-- The notes of expressions are erased one by one. -/
theorem Expr.eraseAll_eq_map (trees : List (Expr ν)) :
    Expr.eraseAll trees = trees.map Expr.erase := by
  induction trees with
  | nil => rfl
  | cons first rest inductionHypothesis => rw [Expr.eraseAll, inductionHypothesis, List.map_cons]

/-- What stands in an expression stands in it without the notes. -/
theorem Expr.parts_erase (tree : Expr ν) : tree.erase.parts = tree.parts.map Expr.erase := by
  cases tree with
  | literal type value => rfl
  | group type inner => rfl
  | binary type operator left right => rfl
  | access type entry name => rfl
  | element type entry name offset => rfl
  | call type routine name arguments => exact Expr.eraseAll_eq_map arguments
  | list type elements => exact Expr.eraseAll_eq_map elements

namespace Typing

variable {before after : Checker}

/-- A function that is found takes as many arguments as it was looked for with. -/
theorem lookupFunction_arity {environment : Environment Unit Unit} {name : String} {arity : Nat}
    {routine : Routine Unit} (found : environment.lookupFunction name arity = .ok routine) :
    routine.parameters.length = arity := by
  obtain ⟨place, search⟩ := Environment.lookupFunction_ok_iff.mp found
  obtain ⟨scope, _, here⟩ := Environment.search_found search
  have agrees := List.find?_some here
  simp only [Bool.and_eq_true, decide_eq_true_eq] at agrees
  exact agrees.2

mutual

/-- The checker adds notes to an expression and nothing else. -/
theorem checkExpr_erase : ∀ (source : Expr .bare) {before after : Checker} {tree : Expr .checked},
    (checkExpr source).Passes before tree after → tree.erase = source
  | .literal _ value, before, after, tree, passes => by
    simp only [checkExpr, bind_passes, pure_passes] at passes
    obtain ⟨_, _, _, rfl, _⟩ := passes
    rfl
  | .group _ inner, before, after, tree, passes => by
    rw [checkExpr] at passes
    split at passes
    · simp only [bind_passes, pure_passes] at passes
      obtain ⟨_, _, inside, rfl, _⟩ := passes
      rw [Expr.erase, checkExpr_erase inner inside]
    · exact (throw_passes.mp passes).elim
  | .binary _ operator left right, before, after, tree, passes => by
    simp only [checkExpr, bind_passes, pure_passes] at passes
    obtain ⟨_, _, first, _, _, second, _, _, _, rfl, _⟩ := passes
    rw [Expr.erase, checkExpr_erase left first, checkExpr_erase right second]
  | .access _ _ name, before, after, tree, passes => by
    simp only [checkExpr, bind_passes, pure_passes] at passes
    obtain ⟨_, _, _, rfl, _⟩ := passes
    rfl
  | .element _ _ name offset, before, after, tree, passes => by
    simp only [checkExpr, bind_passes, ite_passes, throw_passes, false_and, exists_false,
      and_false, false_or] at passes
    obtain ⟨_, _, _, _, _, inside, _, passes⟩ := passes
    split at passes
    · obtain ⟨rfl, _⟩ := pure_passes.mp passes
      rw [Expr.erase, checkExpr_erase offset inside]
    · exact (throw_passes.mp passes).elim
  | .call _ _ name arguments, before, after, tree, passes => by
    simp only [checkExpr, bind_passes, lookup_passes] at passes
    obtain ⟨routine, _, ⟨found, rfl⟩, trees, _, inside, passes⟩ := passes
    have kept :=
      checkArguments_erase routine.parameters arguments (lookupFunction_arity found) inside
    split at passes
    · obtain ⟨rfl, _⟩ := pure_passes.mp passes
      rw [Expr.erase, kept]
    · exact (throw_passes.mp passes).elim
  | .list _ [], before, after, tree, passes => by
    rw [checkExpr] at passes
    exact (throw_passes.mp passes).elim
  | .list _ (first :: rest), before, after, tree, passes => by
    simp only [checkExpr, bind_passes, pure_passes] at passes
    obtain ⟨_, _, earlier, _, _, later, rfl, _⟩ := passes
    rw [Expr.erase, Expr.eraseAll, checkExpr_erase first earlier, checkElements_erase _ rest later]

/-- The checker adds notes to arguments and nothing else. -/
theorem checkArguments_erase : ∀ (parameters : List Ty) (sources : List (Expr .bare)),
    parameters.length = sources.length →
    ∀ {before after : Checker} {trees : List (Expr .checked)},
      (checkArguments parameters sources).Passes before trees after →
      Expr.eraseAll trees = sources
  | [], [], _, before, after, trees, passes => by
    simp only [checkArguments, pure_passes] at passes
    obtain ⟨rfl, _⟩ := passes
    rfl
  | parameter :: parameters, argument :: arguments, lengths, before, after, trees, passes => by
    simp only [checkArguments, bind_passes, pure_passes] at passes
    obtain ⟨tree, _, earlier, _, _, _, others, _, later, rfl, _⟩ := passes
    rw [Expr.eraseAll, checkExpr_erase argument earlier,
      checkArguments_erase parameters arguments (Nat.succ.inj lengths) later]

/-- The checker adds notes to elements and nothing else. -/
theorem checkElements_erase (element : Ty) : ∀ (sources : List (Expr .bare))
    {before after : Checker} {trees : List (Expr .checked)},
    (checkElements element sources).Passes before trees after → Expr.eraseAll trees = sources
  | [], before, after, trees, passes => by
    simp only [checkElements, pure_passes] at passes
    obtain ⟨rfl, _⟩ := passes
    rfl
  | first :: rest, before, after, trees, passes => by
    simp only [checkElements, bind_passes, pure_passes] at passes
    obtain ⟨tree, _, earlier, _, _, _, others, _, later, rfl, _⟩ := passes
    rw [Expr.eraseAll, checkExpr_erase first earlier, checkElements_erase element rest later]

end

/-- The checker adds notes to a value and nothing else. -/
theorem checkValue_erase {target : Ty} {source : Expr .bare} {tree : Expr .checked}
    (passes : (checkValue target source).Passes before tree after) : tree.erase = source := by
  unfold checkValue at passes
  split at passes
  · split at passes
    · simp only [bind_passes, pure_passes] at passes
      obtain ⟨_, _, inside, rfl, _⟩ := passes
      rw [Expr.erase, checkElements_erase _ _ inside]
    · exact checkExpr_erase _ passes
  · exact checkExpr_erase _ passes

/-- The checker adds notes to the value of a definition and nothing else. -/
theorem checkBinding_erase {name : String} {typeName : Option String}
    {source : Option (Expr .bare)} {type : Ty} {value : Option (Expr .checked)}
    (passes : (checkBinding name typeName source).Passes before (type, value) after) :
    value.map Expr.erase = source := by
  unfold checkBinding at passes
  split at passes
  · exact (throw_passes.mp passes).elim
  · simp only [bind_passes, pure_passes, Prod.mk.injEq] at passes
    obtain ⟨_, _, inside, ⟨_, rfl⟩, _⟩ := passes
    rw [Option.map_some, checkExpr_erase _ inside]
  · simp only [bind_passes, pure_passes, Prod.mk.injEq] at passes
    obtain ⟨_, _, _, ⟨_, rfl⟩, _⟩ := passes
    rfl
  · simp only [bind_passes, pure_passes, Prod.mk.injEq] at passes
    obtain ⟨_, _, _, _, _, inside, _, _, _, ⟨_, rfl⟩, _⟩ := passes
    rw [Option.map_some, checkValue_erase inside]

/-- The checker adds notes to a condition and nothing else. -/
theorem checkCondition_erase {keyword : String} {source : Expr .bare} {tree : Expr .checked}
    (passes : (checkCondition keyword source).Passes before tree after) : tree.erase = source := by
  simp only [checkCondition, bind_passes, ite_passes, pure_passes, throw_passes, and_false,
    or_false] at passes
  obtain ⟨_, _, inside, _, rfl, _⟩ := passes
  exact checkExpr_erase _ inside

/-- The checker adds notes to a label and nothing else. -/
theorem checkLabel_erase {subject : Ty} {last : Bool} {source : Option (Expr .bare)}
    {label : Option (Expr .checked)}
    (passes : (checkLabel subject last source).Passes before label after) :
    label.map Expr.erase = source := by
  unfold checkLabel at passes
  split at passes
  · exact (throw_passes.mp passes).elim
  · exact (throw_passes.mp passes).elim
  · obtain ⟨rfl, _⟩ := pure_passes.mp passes
    rfl
  · simp only [bind_passes, ite_passes, pure_passes, throw_passes, and_false, or_false] at passes
    obtain ⟨_, _, inside, _, rfl, _⟩ := passes
    rw [Option.map_some, checkExpr_erase _ inside]

/-- What passes in a scope of its own has passed in some state. -/
theorem inScope_inner {α : Type} {body : Check α} {value : α}
    (passes : (Check.inScope body).Passes before value after) :
    ∃ inside, body.Passes before.entered value inside := by
  obtain ⟨inside, _, checked, _, _⟩ := inScope_passes.mp passes
  exact ⟨inside, checked⟩

mutual

/-- The checker adds notes to a statement and nothing else. -/
theorem checkStmt_erase : ∀ (source : Stmt .bare) {before after : Checker} {tree : Stmt .checked},
    (checkStmt source).Passes before tree after → tree.erase = source
  | .expression inner, before, after, tree, passes => by
    simp only [checkStmt, ite_passes, bind_passes, pure_passes, throw_passes, and_false,
      or_false] at passes
    obtain ⟨_, _, _, inside, rfl, _⟩ := passes
    rw [Stmt.erase, checkExpr_erase inner inside]
  | .declaration _ name typeName value, before, after, tree, passes => by
    simp only [checkStmt, bind_passes, pure_passes] at passes
    obtain ⟨⟨type, value⟩, _, bound, _, _, _, rfl, _⟩ := passes
    rw [Stmt.erase, checkBinding_erase bound]
  | .assignment receiver value, before, after, tree, passes => by
    simp only [checkStmt, ite_passes, bind_passes, pure_passes, throw_passes, and_false,
      or_false] at passes
    obtain ⟨_, _, _, first, _, _, second, _, _, _, rfl, _⟩ := passes
    rw [Stmt.erase, checkExpr_erase receiver first, checkValue_erase second]
  | .conditional condition thenBlock elseBlock, before, after, tree, passes => by
    simp only [checkStmt, bind_passes, ite_passes, throw_passes, false_and, exists_false, and_false,
      false_or, pure_passes] at passes
    obtain ⟨_, _, inside, _, _, _, first, _, _, second, rfl, _⟩ := passes
    obtain ⟨_, thenPasses⟩ := inScope_inner first
    obtain ⟨_, elsePasses⟩ := inScope_inner second
    rw [Stmt.erase, checkCondition_erase inside, checkBlock_erase thenBlock thenPasses,
      checkBlock_erase elseBlock elsePasses]
  | .switch subject cases, before, after, tree, passes => by
    simp only [checkStmt, bind_passes, ite_passes, throw_passes, false_and, exists_false, and_false,
      false_or, pure_passes] at passes
    obtain ⟨_, _, inside, _, _, _, checked, rfl, _⟩ := passes
    rw [Stmt.erase, checkExpr_erase subject inside, checkCases_erase _ cases checked]
  | .loop condition body, before, after, tree, passes => by
    simp only [checkStmt, bind_passes, pure_passes] at passes
    obtain ⟨_, _, inside, _, _, checked, rfl, _⟩ := passes
    obtain ⟨_, bodyPasses⟩ := inScope_inner checked
    rw [Stmt.erase, checkCondition_erase inside, checkBlock_erase body bodyPasses]
  | .returning value, before, after, tree, passes => by
    simp only [checkStmt, bind_passes, pure_passes] at passes
    obtain ⟨_, _, inside, _, _, _, rfl, _⟩ := passes
    rw [Stmt.erase, checkExpr_erase value inside]
  | .stray label body, before, after, tree, passes => by
    simp only [checkStmt, bind_passes, pure_passes] at passes
    obtain ⟨_, _, checked, rfl, _⟩ := passes
    obtain ⟨_, bodyPasses⟩ := inScope_inner checked
    rw [Stmt.erase, checkBlock_erase body bodyPasses]

/-- The checker adds notes to the statements of a block and nothing else. -/
theorem checkBlock_erase : ∀ (sources : List (Stmt .bare)) {before after : Checker}
    {trees : List (Stmt .checked)},
    (checkBlock sources).Passes before trees after → Stmt.eraseAll trees = sources
  | [], before, after, trees, passes => by
    simp only [checkBlock, pure_passes] at passes
    obtain ⟨rfl, _⟩ := passes
    rfl
  | first :: rest, before, after, trees, passes => by
    simp only [checkBlock, bind_passes, pure_passes] at passes
    obtain ⟨_, _, earlier, _, _, later, rfl, _⟩ := passes
    rw [Stmt.eraseAll, checkStmt_erase first earlier, checkBlock_erase rest later]

/-- The checker adds notes to cases and nothing else. -/
theorem checkCases_erase (subject : Ty) : ∀ (sources : List (Case .bare)) {before after : Checker}
    {trees : List (Case .checked)},
    (checkCases subject sources).Passes before trees after → Case.eraseAll trees = sources
  | [], before, after, trees, passes => by
    simp only [checkCases, pure_passes] at passes
    obtain ⟨rfl, _⟩ := passes
    rfl
  | .mk label body :: rest, before, after, trees, passes => by
    simp only [checkCases, bind_passes, pure_passes] at passes
    obtain ⟨_, _, labels, _, _, checked, _, _, later, rfl, _⟩ := passes
    obtain ⟨_, bodyPasses⟩ := inScope_inner checked
    rw [Case.eraseAll, checkLabel_erase labels, checkBlock_erase body bodyPasses,
      checkCases_erase subject rest later]

end

/-- The checker adds notes to a global and nothing else. -/
theorem checkGlobal_erase {source : GlobalDef .bare} {tree : GlobalDef .checked}
    (passes : (checkGlobal source).Passes before tree after) : tree.erase = source := by
  simp only [checkGlobal, ite_passes, bind_passes, throw_passes, false_and, exists_false,
    and_false, false_or, pure_passes] at passes
  obtain ⟨_, ⟨type, value⟩, _, bound, _, _, _, rfl, _⟩ := passes
  rw [GlobalDef.erase, checkBinding_erase bound]

/-- The checker adds notes to a function and nothing else. -/
theorem checkFunction_erase {source : FunctionDef .bare} {tree : FunctionDef .checked}
    (passes : (checkFunction source).Passes before tree after) : tree.erase = source := by
  simp only [checkFunction, bind_passes, change_passes] at passes
  obtain ⟨_, _, _, declared, _, _, _, _, _, ⟨body, inferred⟩, _, checked, passes⟩ := passes
  obtain ⟨_, inFunction, _, _⟩ := inFunction_passes.mp checked
  obtain ⟨_, inScope⟩ := inScope_inner inFunction
  obtain ⟨_, _, _, bodyPasses⟩ := bind_passes.mp inScope
  cases declared with
  | none =>
    simp only [Option.isNone_none, ↓reduceIte, bind_passes, change_passes, pure_passes] at passes
    obtain ⟨_, _, _, rfl, _⟩ := passes
    rw [FunctionDef.erase, checkBlock_erase _ bodyPasses]
  | some declared =>
    simp only [Option.isNone_some, Bool.false_eq_true, ↓reduceIte, pure_passes] at passes
    obtain ⟨rfl, _⟩ := passes
    rw [FunctionDef.erase, checkBlock_erase _ bodyPasses]

/-- The checker adds notes to globals and nothing else. -/
theorem checkGlobals_erase {sources : List (GlobalDef .bare)} {trees : List (GlobalDef .checked)}
    (passes : (checkGlobals sources).Passes before trees after) :
    trees.map GlobalDef.erase = sources := by
  induction sources generalizing before after trees with
  | nil =>
    simp only [checkGlobals, pure_passes] at passes
    obtain ⟨rfl, _⟩ := passes
    rfl
  | cons first rest inductionHypothesis =>
    simp only [checkGlobals, bind_passes, pure_passes] at passes
    obtain ⟨_, _, earlier, _, _, later, rfl, _⟩ := passes
    rw [List.map_cons, checkGlobal_erase earlier, inductionHypothesis later]

/-- The checker adds notes to functions and nothing else. -/
theorem checkFunctions_erase {sources : List (FunctionDef .bare)}
    {trees : List (FunctionDef .checked)}
    (passes : (checkFunctions sources).Passes before trees after) :
    trees.map FunctionDef.erase = sources := by
  induction sources generalizing before after trees with
  | nil =>
    simp only [checkFunctions, pure_passes] at passes
    obtain ⟨rfl, _⟩ := passes
    rfl
  | cons first rest inductionHypothesis =>
    simp only [checkFunctions, bind_passes, pure_passes] at passes
    obtain ⟨_, _, earlier, _, _, later, rfl, _⟩ := passes
    rw [List.map_cons, checkFunction_erase earlier, inductionHypothesis later]

/-- A program that is accepted is the parsed one with notes. -/
theorem check_erase {source : Program .bare} {tree : Program .checked} {checker : Checker}
    (accepted : check source = .ok (tree, checker)) : tree.erase = source := by
  have passes := check_iff.mp accepted
  simp only [checkProgram, bind_passes, lookup_passes, ite_passes, pure_passes, throw_passes,
    and_false, or_false] at passes
  obtain ⟨_, _, first, _, _, second, _, _, _, _, rfl, _⟩ := passes
  rw [Program.erase, checkGlobals_erase first, checkFunctions_erase second]

end Typing

end Blockscript
