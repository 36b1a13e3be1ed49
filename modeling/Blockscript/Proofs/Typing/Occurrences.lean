import Blockscript.Proofs.Typing.Erasure
import Blockscript.Proofs.Typing.Judgement

/-!
# Where expressions and statements occur

The statements of a program at any depth, the expressions that stand in no other, over all
statements, and the expressions inside of these. What holds of everything inside of an
expression is told from the expression itself and from its parts.
-/

namespace Blockscript

variable {ν : Notes}

/-- Whether the statement is a loop. -/
def Stmt.isLoop : Stmt ν → Bool
  | .loop _ _ => true
  | _ => false

/-- Whether the statement is a case outside of a switch. -/
def Stmt.isStray : Stmt ν → Bool
  | .stray _ _ => true
  | _ => false

mutual

/-- A statement and those of its blocks, at any depth. -/
def Stmt.nested : Stmt ν → List (Stmt ν)
  | .conditional condition thenBlock elseBlock =>
    .conditional condition thenBlock elseBlock ::
      (Stmt.nestedOf thenBlock ++ Stmt.nestedOf elseBlock)
  | .switch subject cases => .switch subject cases :: Case.nestedOf cases
  | .loop condition body => .loop condition body :: Stmt.nestedOf body
  | .stray label body => .stray label body :: Stmt.nestedOf body
  | statement => [statement]

/-- Statements and those of their blocks. -/
def Stmt.nestedOf : List (Stmt ν) → List (Stmt ν)
  | [] => []
  | first :: rest => first.nested ++ Stmt.nestedOf rest

/-- The statements of cases. -/
def Case.nestedOf : List (Case ν) → List (Stmt ν)
  | [] => []
  | .mk _ body :: rest => Stmt.nestedOf body ++ Case.nestedOf rest

end

/-- The statements of a program. -/
def Program.statements (program : Program ν) : List (Stmt ν) :=
  program.functions.flatMap fun definition => Stmt.nestedOf definition.body

mutual

/-- The expressions of a statement and of its blocks that stand in no other. -/
def Stmt.roots : Stmt ν → List (Expr ν)
  | .expression inner => [inner]
  | .declaration _ _ _ value => value.toList
  | .assignment receiver value => [receiver, value]
  | .conditional condition thenBlock elseBlock =>
    condition :: (Stmt.rootsOf thenBlock ++ Stmt.rootsOf elseBlock)
  | .switch subject cases => subject :: Case.rootsOf cases
  | .loop condition body => condition :: Stmt.rootsOf body
  | .returning value => [value]
  | .stray _ body => Stmt.rootsOf body

/-- The expressions of statements that stand in no other. -/
def Stmt.rootsOf : List (Stmt ν) → List (Expr ν)
  | [] => []
  | first :: rest => first.roots ++ Stmt.rootsOf rest

/-- The expressions of cases that stand in no other. -/
def Case.rootsOf : List (Case ν) → List (Expr ν)
  | [] => []
  | .mk label body :: rest => label.toList ++ Stmt.rootsOf body ++ Case.rootsOf rest

end

/-- The expressions of a program that stand in no other. -/
def Program.roots (program : Program ν) : List (Expr ν) :=
  program.globals.flatMap (fun definition => definition.value.toList) ++
    program.functions.flatMap (fun definition => Stmt.rootsOf definition.body)

namespace Expr

/-- The first expression is the second one, or stands in it at any depth. -/
inductive Within : Expr ν → Expr ν → Prop where
  | whole {tree : Expr ν} : Within tree tree
  | part {inner part tree : Expr ν} :
      part ∈ tree.parts → Within inner part → Within inner tree

/-- Something holds of an expression and of everything that stands in it. -/
def Every (holds : Expr ν → Prop) (tree : Expr ν) : Prop :=
  ∀ inner, inner.Within tree → holds inner

variable {tree inner : Expr ν} {holds : Expr ν → Prop}

/-- What holds of every expression in a tree holds of the tree and of every one in its parts. -/
theorem every_iff : tree.Every holds ↔
    holds tree ∧ ∀ inner ∈ tree.parts, inner.Every holds := by
  constructor
  · intro every
    exact ⟨every tree .whole, fun inner member deeper within => every deeper (.part member within)⟩
  · rintro ⟨here, inside⟩ inner within
    cases within with
    | whole => exact here
    | part member deeper => exact inside _ member inner deeper

/-- A literal has no parts. -/
@[simp] theorem every_literal {type : ν.type} {value : Literal} :
    (literal type value).Every holds ↔ holds (literal type value) := by
  rw [every_iff]
  simp [parts]

/-- A group has one part. -/
@[simp] theorem every_group {type : ν.type} :
    (group type inner).Every holds ↔ holds (group type inner) ∧ inner.Every holds := by
  rw [every_iff]
  simp [parts]

/-- An operation has two parts. -/
@[simp] theorem every_binary {type : ν.type} {operator : String} {left right : Expr ν} :
    (binary type operator left right).Every holds ↔
      holds (binary type operator left right) ∧ left.Every holds ∧ right.Every holds := by
  rw [every_iff]
  simp [parts]

/-- An access has no parts. -/
@[simp] theorem every_access {type : ν.type} {entry : ν.entry} {name : String} :
    (access type entry name).Every holds ↔ holds (access type entry name) := by
  rw [every_iff]
  simp [parts]

/-- An element has its offset as a part. -/
@[simp] theorem every_element {type : ν.type} {entry : ν.entry} {name : String} :
    (element type entry name inner).Every holds ↔
      holds (element type entry name inner) ∧ inner.Every holds := by
  rw [every_iff]
  simp [parts]

/-- A call has its arguments as parts. -/
@[simp] theorem every_call {type : ν.type} {routine : ν.routine} {name : String}
    {arguments : List (Expr ν)} :
    (call type routine name arguments).Every holds ↔
      holds (call type routine name arguments) ∧ ∀ inner ∈ arguments, inner.Every holds :=
  every_iff

/-- A list has its elements as parts. -/
@[simp] theorem every_list {type : ν.type} {elements : List (Expr ν)} :
    (list type elements).Every holds ↔
      holds (list type elements) ∧ ∀ inner ∈ elements, inner.Every holds :=
  every_iff

/-- What holds of every expression in a tree holds of the tree. -/
theorem Every.here (every : tree.Every holds) : holds tree :=
  every tree .whole

/-- What holds of every expression in a tree holds of every one in a part of it. -/
theorem Every.part (every : tree.Every holds) (member : inner ∈ tree.parts) :
    inner.Every holds :=
  (every_iff.mp every).2 inner member

/-- What holds of every expression in a tree holds of every one in whatever stands in it. -/
theorem Every.within (every : tree.Every holds) (within : inner.Within tree) :
    inner.Every holds := by
  induction within with
  | whole => exact every
  | part member _ inductionHypothesis => exact inductionHypothesis (every.part member)

/-- What stands in an expression is smaller than it. -/
theorem sizeOf_part (member : inner ∈ tree.parts) : sizeOf inner < sizeOf tree := by
  cases tree with
  | literal type value => cases member
  | group type inside =>
    obtain rfl := List.mem_singleton.mp member
    rw [group.sizeOf_spec]
    omega
  | binary type operator left right =>
    rw [binary.sizeOf_spec]
    simp only [parts, List.mem_cons, List.not_mem_nil, or_false] at member
    rcases member with rfl | rfl
    · omega
    · omega
  | access type entry name => cases member
  | element type entry name offset =>
    obtain rfl := List.mem_singleton.mp member
    rw [element.sizeOf_spec]
    omega
  | call type routine name arguments =>
    have smaller : sizeOf inner < sizeOf arguments := List.sizeOf_lt_of_mem member
    rw [call.sizeOf_spec]
    omega
  | list type elements =>
    have smaller : sizeOf inner < sizeOf elements := List.sizeOf_lt_of_mem member
    rw [list.sizeOf_spec]
    omega

/-- Induction over what stands right inside of an expression. -/
theorem induction_parts {motive : Expr ν → Prop}
    (step : ∀ tree, (∀ inner ∈ tree.parts, motive inner) → motive tree) (tree : Expr ν) :
    motive tree :=
  step tree fun inner _ => induction_parts step inner
termination_by sizeOf tree
decreasing_by exact sizeOf_part ‹_›

/-- What stands in an expression stands in it without the notes. -/
theorem Within.erase (within : inner.Within tree) : inner.erase.Within tree.erase := by
  induction within with
  | whole => exact .whole
  | part member _ inductionHypothesis =>
    refine .part ?_ inductionHypothesis
    rw [parts_erase]
    exact List.mem_map_of_mem member

end Expr

/-- An expression stands somewhere in a program. -/
def Program.Contains (program : Program ν) (tree : Expr ν) : Prop :=
  ∃ root ∈ program.roots, tree.Within root

mutual

/-- The expressions of a statement without notes are its expressions without notes. -/
theorem Stmt.roots_erase : ∀ statement : Stmt ν,
    statement.erase.roots = statement.roots.map Expr.erase
  | .expression _ => rfl
  | .declaration _ _ _ value => by cases value <;> rfl
  | .assignment _ _ => rfl
  | .conditional _ thenBlock elseBlock => by
    simp [Stmt.erase, Stmt.roots, Stmt.rootsOf_erase thenBlock, Stmt.rootsOf_erase elseBlock]
  | .switch _ cases => by simp [Stmt.erase, Stmt.roots, Case.rootsOf_erase cases]
  | .loop _ body => by simp [Stmt.erase, Stmt.roots, Stmt.rootsOf_erase body]
  | .returning _ => rfl
  | .stray _ body => by simp [Stmt.erase, Stmt.roots, Stmt.rootsOf_erase body]

/-- The expressions of statements without notes are their expressions without notes. -/
theorem Stmt.rootsOf_erase : ∀ statements : List (Stmt ν),
    Stmt.rootsOf (Stmt.eraseAll statements) = (Stmt.rootsOf statements).map Expr.erase
  | [] => rfl
  | first :: rest => by
    simp [Stmt.eraseAll, Stmt.rootsOf, Stmt.roots_erase first, Stmt.rootsOf_erase rest]

/-- The expressions of cases without notes are their expressions without notes. -/
theorem Case.rootsOf_erase : ∀ cases : List (Case ν),
    Case.rootsOf (Case.eraseAll cases) = (Case.rootsOf cases).map Expr.erase
  | [] => rfl
  | .mk label body :: rest => by
    cases label with
    | none => simp [Case.eraseAll, Case.rootsOf, Stmt.rootsOf_erase body, Case.rootsOf_erase rest]
    | some label =>
      simp [Case.eraseAll, Case.rootsOf, Stmt.rootsOf_erase body, Case.rootsOf_erase rest]

end

/-- Erasing the notes keeps the expressions of a program and their order. -/
theorem Program.roots_erase (program : Program ν) :
    program.erase.roots = program.roots.map Expr.erase := by
  have value (definition : GlobalDef ν) :
      definition.erase.value.toList = definition.value.toList.map Expr.erase := by
    cases given : definition.value <;> simp [GlobalDef.erase, given]
  simp [Program.erase, Program.roots, FunctionDef.erase, value, Stmt.rootsOf_erase,
    List.flatMap_map, List.map_flatMap]

variable {seen : Scopes → Expr .checked → Prop}

/-- The parts of a typed expression are typed where it is. -/
theorem ExprTyped.part {scopes : Scopes} {tree inner : Expr .checked}
    (typed : ExprTyped seen scopes tree) (member : inner ∈ tree.parts) :
    ExprTyped seen scopes inner := by
  cases typed with
  | literal => cases member
  | group inside =>
    obtain rfl := List.mem_singleton.mp member
    exact inside
  | binary left right =>
    simp only [Expr.parts, List.mem_cons, List.not_mem_nil, or_false] at member
    rcases member with rfl | rfl
    · exact left
    · exact right
  | access => cases member
  | element _ _ offset =>
    obtain rfl := List.mem_singleton.mp member
    exact offset
  | call _ _ arguments => exact arguments inner member
  | list elements => exact elements inner member

/-- Everything that stands in a typed expression is typed where it is. -/
theorem ExprTyped.every {scopes : Scopes} {tree : Expr .checked}
    (typed : ExprTyped seen scopes tree) : tree.Every (ExprTyped seen scopes) := by
  intro inner within
  induction within with
  | whole => exact typed
  | part member _ inductionHypothesis => exact inductionHypothesis (typed.part member)

/-- The expression is typed in some scopes in which the given functions are known. -/
def ExprTyped.Among (seen : Scopes → Expr .checked → Prop) (functions : List (Routine Unit))
    (tree : Expr .checked) : Prop :=
  ∃ scopes : Scopes, scopes.functions = functions ∧ ExprTyped seen scopes tree

/-- No statement changes which functions are known behind it. -/
theorem Site.after_functions (site : Site) (statement : Stmt .checked) :
    (site.after statement).scopes.functions = site.scopes.functions := by
  obtain ⟨bindings, grown⟩ := site.after_scopes statement
  rw [grown, Scopes.extend]
  split
  · rfl
  · rfl

/-- A block knows the functions that are known around it. -/
@[simp] theorem Site.block_functions (site : Site) (number : Nat) :
    (site.block number).scopes.functions = site.scopes.functions :=
  rfl

mutual

/-- The expressions of a typed statement are typed somewhere among the same functions. -/
theorem StmtTyped.roots : ∀ {result : Ty} {site : Site} {tree : Stmt .checked},
    StmtTyped seen result site tree →
      ∀ root ∈ tree.roots, ExprTyped.Among seen site.scopes.functions root
  | _, _, _, .expression typed => by simpa [Stmt.roots] using ⟨_, rfl, typed⟩
  | _, _, _, .uninitialised _ => by simp [Stmt.roots]
  | _, _, _, .initialised _ typed _ => by simpa [Stmt.roots] using ⟨_, rfl, typed⟩
  | _, _, _, .assignment _ receiver value _ => by
    simpa [Stmt.roots] using ⟨⟨_, rfl, receiver⟩, ⟨_, rfl, value⟩⟩
  | _, _, _, .conditional condition _ thenBlock elseBlock => by
    simp only [Stmt.roots, List.mem_cons, List.mem_append]
    rintro root (rfl | member | member)
    · exact ⟨_, rfl, condition⟩
    · exact thenBlock.roots root member
    · exact elseBlock.roots root member
  | _, _, _, .switch subject cases => by
    simpa [Stmt.roots] using ⟨⟨_, rfl, subject⟩, cases.roots⟩
  | _, _, _, .loop condition _ body => by
    simpa [Stmt.roots] using ⟨⟨_, rfl, condition⟩, body.roots⟩
  | _, _, _, .returning typed _ => by simpa [Stmt.roots] using ⟨_, rfl, typed⟩

/-- The expressions of a typed block are typed somewhere among the same functions. -/
theorem BlockTyped.roots : ∀ {result : Ty} {site : Site} {trees : List (Stmt .checked)},
    BlockTyped seen result site trees →
      ∀ root ∈ Stmt.rootsOf trees, ExprTyped.Among seen site.scopes.functions root
  | _, _, _, .nil => by simp [Stmt.rootsOf]
  | _, site, first :: _, .cons typed rest => by
    intro root member
    rcases List.mem_append.mp member with here | later
    · exact typed.roots root here
    · exact site.after_functions first ▸ rest.roots root later

/-- The expressions of typed cases are typed somewhere among the same functions. -/
theorem CasesTyped.roots : ∀ {result subject : Ty} {site : Site} {number : Nat}
    {trees : List (Case .checked)}, CasesTyped seen result subject site number trees →
      ∀ root ∈ Case.rootsOf trees, ExprTyped.Among seen site.scopes.functions root
  | _, _, _, _, _, .default body => by simpa [Case.rootsOf] using body.roots
  | _, _, _, _, _, .labelled label _ body rest => by
    simp only [Case.rootsOf, Option.toList_some, List.mem_append, List.mem_singleton]
    rintro root ((rfl | member) | member)
    · exact ⟨_, rfl, label⟩
    · exact body.roots root member
    · exact rest.roots root member

end

mutual

/-- The statements within a typed statement are typed where they stand. -/
theorem StmtTyped.nested : ∀ {result : Ty} {site : Site} {tree : Stmt .checked},
    StmtTyped seen result site tree →
      ∀ inner ∈ tree.nested, ∃ place, StmtTyped seen result place inner
  | _, site, .expression _, typed => by simpa [Stmt.nested] using ⟨site, typed⟩
  | _, site, .declaration _ _ _ _, typed => by simpa [Stmt.nested] using ⟨site, typed⟩
  | _, site, .assignment _ _, typed => by simpa [Stmt.nested] using ⟨site, typed⟩
  | _, site, .conditional _ _ _, .conditional condition boolean thenBlock elseBlock => by
    simp only [Stmt.nested, List.mem_cons, List.mem_append]
    rintro inner (rfl | member | member)
    · exact ⟨site, .conditional condition boolean thenBlock elseBlock⟩
    · exact thenBlock.nested inner member
    · exact elseBlock.nested inner member
  | _, site, .switch _ _, .switch subject cases => by
    simp only [Stmt.nested, List.mem_cons]
    rintro inner (rfl | member)
    · exact ⟨site, .switch subject cases⟩
    · exact cases.nested inner member
  | _, site, .loop _ _, .loop condition boolean body => by
    simp only [Stmt.nested, List.mem_cons]
    rintro inner (rfl | member)
    · exact ⟨site, .loop condition boolean body⟩
    · exact body.nested inner member
  | _, site, .returning _, typed => by simpa [Stmt.nested] using ⟨site, typed⟩

/-- The statements within a typed block are typed where they stand. -/
theorem BlockTyped.nested : ∀ {result : Ty} {site : Site} {trees : List (Stmt .checked)},
    BlockTyped seen result site trees →
      ∀ inner ∈ Stmt.nestedOf trees, ∃ place, StmtTyped seen result place inner
  | _, _, [], _ => by simp [Stmt.nestedOf]
  | _, _, _ :: _, .cons first rest => by
    intro inner member
    rcases List.mem_append.mp member with here | later
    · exact first.nested inner here
    · exact rest.nested inner later

/-- The statements within typed cases are typed where they stand. -/
theorem CasesTyped.nested : ∀ {result subject : Ty} {site : Site} {number : Nat}
    {trees : List (Case .checked)}, CasesTyped seen result subject site number trees →
      ∀ inner ∈ Case.nestedOf trees, ∃ place, StmtTyped seen result place inner
  | _, _, _, _, [.mk none _], .default body => by simpa [Case.nestedOf] using body.nested
  | _, _, _, _, .mk (some _) _ :: _, .labelled _ _ body rest => by
    intro inner member
    rcases List.mem_append.mp member with here | later
    · exact body.nested inner here
    · exact rest.nested inner later

end

/-- The values of typed globals are typed where only the function that prints is known. -/
theorem GlobalsTyped.values {before : List Binding} {globals : List (GlobalDef .checked)}
    (typed : GlobalsTyped seen before globals) :
    ∀ definition ∈ globals, ∀ value ∈ definition.value,
      ExprTyped.Among seen [Typing.printSignature] value := by
  induction typed with
  | nil => simp
  | cons first _ inductionHypothesis =>
    intro definition member value given
    rcases List.mem_cons.mp member with rfl | later
    · exact ⟨_, rfl, (first.value value given).1⟩
    · exact inductionHypothesis definition later value given

/-- Every statement of a typed program is typed at some place. -/
theorem ProgramTyped.statements {program : Program .checked} (typed : ProgramTyped seen program) :
    ∀ statement ∈ program.statements, ∃ result site, StmtTyped seen result site statement := by
  intro statement member
  obtain ⟨definition, among, here⟩ := List.mem_flatMap.mp member
  obtain ⟨front, back, split⟩ := List.append_of_mem among
  obtain ⟨site, typedHere⟩ :=
    (typed.functions front definition back split).body.nested statement here
  exact ⟨_, site, typedHere⟩

/-- Every expression of a typed program is typed in some scopes. -/
theorem ProgramTyped.roots {program : Program .checked} (typed : ProgramTyped seen program) :
    ∀ root ∈ program.roots, ∃ scopes, ExprTyped seen scopes root := by
  intro root member
  rcases List.mem_append.mp member with inside | inside
  · obtain ⟨definition, among, here⟩ := List.mem_flatMap.mp inside
    obtain ⟨scopes, _, typedHere⟩ :=
      typed.globals.values definition among root (Option.mem_toList.mp here)
    exact ⟨scopes, typedHere⟩
  · obtain ⟨definition, among, here⟩ := List.mem_flatMap.mp inside
    obtain ⟨front, back, split⟩ := List.append_of_mem among
    obtain ⟨scopes, _, typedHere⟩ :=
      (typed.functions front definition back split).body.roots root here
    exact ⟨scopes, typedHere⟩

end Blockscript
