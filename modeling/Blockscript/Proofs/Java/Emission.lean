import Blockscript.Proofs.Grammar.Exactness
import Blockscript.Proofs.Java.Texts
import Blockscript.Proofs.Tree.Document
import Blockscript.Proofs.Typing.Annotation
import Blockscript.Proofs.Typing.Programs

/-!
# Accepted programs can be written

The only things that have no Java text are a case outside of a switch and an integer with too
many digits. Checking leaves neither, and writes a note on every node, so the text and the
document of an accepted program are there, and the document gives a type wherever one belongs.
-/

namespace Blockscript.Java

/-- A text that is put together is there when its parts are. -/
theorem bind_exists {α β : Type} {part : Except Fault α} {next : α → Except Fault β}
    (first : ∃ value, part = .ok value) (later : ∀ value, ∃ result, next value = .ok result) :
    ∃ result, (part >>= next) = .ok result := by
  obtain ⟨value, rfl⟩ := first
  exact later value

/-- The expression has a Java text. -/
def Emitted {ν : Notes} (tree : Expr ν) : Prop :=
  ∃ text, expression tree = .ok text

/-- A value has a text, and so has nothing in its place. -/
theorem initialValue_written {ν : Notes} {value : Option (Expr ν)}
    (emitted : ∀ tree ∈ value, Emitted tree) : ∃ text, initialValue value = .ok text := by
  cases value with
  | none => exact ⟨_, rfl⟩
  | some tree => exact bind_exists (emitted tree rfl) fun _ => ⟨_, rfl⟩

/-- A label has a text. -/
theorem caseLabel_written {ν : Notes} {value : Option (Expr ν)}
    (emitted : ∀ tree ∈ value, Emitted tree) : ∃ text, caseLabel value = .ok text := by
  cases value with
  | none => exact ⟨_, rfl⟩
  | some tree => exact bind_exists (emitted tree rfl) fun _ => ⟨_, rfl⟩

mutual

/-- A statement has a text when its expressions have and no case is misplaced in it. -/
theorem statement_written (depth : Nat) : ∀ tree : Stmt .checked,
    (∀ inner ∈ tree.nested, inner.isStray = false) → (∀ root ∈ tree.roots, Emitted root) →
      ∃ text, statement depth tree = .ok text
  | .expression inner, _, emitted =>
    bind_exists (emitted inner (by simp [Stmt.roots])) fun _ => ⟨_, rfl⟩
  | .declaration _ _ _ value, _, emitted =>
    bind_exists (initialValue_written (by simpa [Stmt.roots] using emitted)) fun _ => ⟨_, rfl⟩
  | .assignment receiver value, _, emitted =>
    bind_exists (emitted receiver (by simp [Stmt.roots])) fun _ =>
      bind_exists (emitted value (by simp [Stmt.roots])) fun _ => ⟨_, rfl⟩
  | .conditional condition thenBlock elseBlock, placed, emitted => by
    simp only [Stmt.nested, Stmt.roots, List.forall_mem_cons, List.forall_mem_append]
      at placed emitted
    exact bind_exists emitted.1 fun _ =>
      bind_exists (block_written depth thenBlock placed.2.1 emitted.2.1) fun _ =>
      bind_exists (block_written depth elseBlock placed.2.2 emitted.2.2) fun _ => ⟨_, rfl⟩
  | .switch subject cases, placed, emitted => by
    simp only [Stmt.nested, Stmt.roots, List.forall_mem_cons] at placed emitted
    exact bind_exists emitted.1 fun _ =>
      bind_exists (switchCases_written (depth + 1) cases placed.2 emitted.2) fun _ => ⟨_, rfl⟩
  | .loop condition body, placed, emitted => by
    simp only [Stmt.nested, Stmt.roots, List.forall_mem_cons] at placed emitted
    exact bind_exists emitted.1 fun _ =>
      bind_exists (block_written depth body placed.2 emitted.2) fun _ => ⟨_, rfl⟩
  | .returning value, _, emitted =>
    bind_exists (emitted value (by simp [Stmt.roots])) fun _ => ⟨_, rfl⟩
  | .stray _ _, placed, _ => by
    have outside := placed _ List.mem_cons_self
    cases outside

/-- So have statements each on a line of its own. -/
theorem statements_written (depth : Nat) : ∀ trees : List (Stmt .checked),
    (∀ inner ∈ Stmt.nestedOf trees, inner.isStray = false) →
      (∀ root ∈ Stmt.rootsOf trees, Emitted root) → ∃ text, statements depth trees = .ok text
  | [], _, _ => ⟨_, rfl⟩
  | first :: rest, placed, emitted => by
    simp only [Stmt.nestedOf, Stmt.rootsOf, List.forall_mem_append] at placed emitted
    exact bind_exists (statement_written depth first placed.1 emitted.1) fun _ =>
      bind_exists (statements_written depth rest placed.2 emitted.2) fun _ => ⟨_, rfl⟩

/-- So has a block. -/
theorem block_written (depth : Nat) : ∀ trees : List (Stmt .checked),
    (∀ inner ∈ Stmt.nestedOf trees, inner.isStray = false) →
      (∀ root ∈ Stmt.rootsOf trees, Emitted root) → ∃ text, block depth trees = .ok text
  | [], _, _ => ⟨_, rfl⟩
  | first :: rest, placed, emitted => by
    simp only [Stmt.nestedOf, Stmt.rootsOf, List.forall_mem_append] at placed emitted
    exact bind_exists (statement_written (depth + 1) first placed.1 emitted.1) fun _ =>
      bind_exists (statements_written (depth + 1) rest placed.2 emitted.2) fun _ => ⟨_, rfl⟩

/-- So have the cases of a switch. -/
theorem switchCases_written (depth : Nat) : ∀ trees : List (Case .checked),
    (∀ inner ∈ Case.nestedOf trees, inner.isStray = false) →
      (∀ root ∈ Case.rootsOf trees, Emitted root) → ∃ text, switchCases depth trees = .ok text
  | [], _, _ => ⟨_, rfl⟩
  | .mk label body :: rest, placed, emitted => by
    simp only [Case.nestedOf, Case.rootsOf, List.forall_mem_append] at placed emitted
    exact bind_exists (caseLabel_written (by simpa using emitted.1.1)) fun _ =>
      bind_exists (statements_written (depth + 1) body placed.1 emitted.1.2) fun _ =>
      bind_exists (switchCases_written depth rest placed.2 emitted.2) fun _ => ⟨_, rfl⟩

end

/-- Methods have a text when their bodies have. -/
theorem methods_written (definitions : List (FunctionDef .checked))
    (placed : ∀ definition ∈ definitions, ∀ inner ∈ Stmt.nestedOf definition.body,
      inner.isStray = false)
    (emitted : ∀ definition ∈ definitions, ∀ root ∈ Stmt.rootsOf definition.body, Emitted root) :
    ∃ text, methods definitions = .ok text := by
  induction definitions with
  | nil => exact ⟨_, rfl⟩
  | cons first rest inductionHypothesis =>
    obtain ⟨here, later⟩ := List.forall_mem_cons.mp placed
    obtain ⟨hereEmitted, laterEmitted⟩ := List.forall_mem_cons.mp emitted
    have body : ∃ text, method first = .ok text :=
      bind_exists (block_written 1 first.body here hereEmitted) fun _ => ⟨_, rfl⟩
    exact bind_exists body fun _ =>
      bind_exists (inductionHypothesis later laterEmitted) fun _ => ⟨_, rfl⟩

/-- Fields have a text when their values have. -/
theorem fields_written (definitions : List (GlobalDef .checked))
    (emitted : ∀ definition ∈ definitions, ∀ root ∈ definition.value, Emitted root) :
    ∃ text, fields definitions = .ok text := by
  induction definitions with
  | nil => exact ⟨_, rfl⟩
  | cons first rest inductionHypothesis =>
    obtain ⟨here, later⟩ := List.forall_mem_cons.mp emitted
    have line : ∃ text, field first = .ok text :=
      bind_exists (initialValue_written here) fun _ => ⟨_, rfl⟩
    exact bind_exists line fun _ =>
      bind_exists (inductionHypothesis later) fun _ => ⟨_, rfl⟩

/-- A program has a Java text, if its expressions have and no case in it stands outside of a
switch. -/
theorem program_written {tree : Program .checked}
    (placed : ∀ statement ∈ tree.statements, statement.isStray = false)
    (emitted : ∀ root ∈ tree.roots, Emitted root) :
    ∃ text, program tree = .ok text := by
  simp only [Program.roots, List.forall_mem_append, List.forall_mem_flatMap, Option.mem_toList]
    at emitted
  have methodsWritten := methods_written tree.functions (fun definition member inner nested =>
    placed inner (List.mem_flatMap.mpr ⟨definition, member, nested⟩)) emitted.2
  exact bind_exists (fields_written tree.globals emitted.1) fun _ =>
    bind_exists methodsWritten fun _ => ⟨_, rfl⟩

/-- The expressions of an accepted program have texts, since checking has seen their
literals. -/
theorem accepted_emitted {source : String} {parsed : Program .bare} {tree : Program .checked}
    {checker : Typing.Checker} (reads : parseProgram source = .ok parsed)
    (accepted : Typing.check parsed = .ok (tree, checker)) : ∀ root ∈ tree.roots, Emitted root := by
  intro root member
  obtain ⟨tokens, phrase⟩ := Grammar.parseProgram_derives reads
  obtain ⟨typed, _⟩ := Typing.check_sound phrase accepted
  obtain ⟨scopes, rootTyped⟩ := typed.roots root member
  exact exists_expression root (typed_legible rootTyped)

/-- Checking only writes notes on a program that was parsed; it writes one on every node, and
they fit; and the Java text and the document of the program are there. The document shows
every expression, and in it every node of a kind that carries a type has the text of one. -/
theorem accepted_written {source : String} {parsed : Program .bare} {tree : Program .checked}
    {checker : Typing.Checker} (reads : parseProgram source = .ok parsed)
    (accepted : Typing.check parsed = .ok (tree, checker)) :
    tree.erase = parsed ∧ tree.Annotated ∧
      (tree.toJson.Every Json.Resolved ∧
        ∀ inner, tree.Contains inner → inner.toJson.Within tree.toJson) ∧
      ∃ text, program tree = .ok text := by
  obtain ⟨tokens, phrase⟩ := Grammar.parseProgram_derives reads
  have annotated := (Typing.check_sound phrase accepted).1.annotated
  exact ⟨Typing.check_erase accepted, annotated,
    ⟨Program.toJson_resolved annotated.placed, fun inner contains => contains.toJson⟩,
    program_written annotated.placed (accepted_emitted reads accepted)⟩

/-- A text with an offset, a call, a list and a switch. -/
def choosing : String :=
  "VAL xs = [3]; FUN f(x): Integer DO RETURN xs[0]; END " ++
    "FUN main() DO LET a: Any; SWITCH f(a) CASE 3: a = f(xs); DEFAULT print(a); END RETURN 1; END"

/-- The global of the text. -/
def choosingList : Variable Unit :=
  ⟨"xs", .list .integer, false, ()⟩

/-- The variable of the text. -/
def choosingVariable : Variable Unit :=
  ⟨"a", .any, true, ()⟩

/-- The checked program. -/
def choosingTree : Program .checked where
  globals := [⟨"xs", none, false,
    some (.list (.list .integer) [.literal .integer (.integer 3)]), choosingList⟩]
  functions := [
    ⟨"f", ["x"], [none], some "Integer",
      [.returning (.element .integer choosingList "xs" (.literal .integer (.integer 0)))],
      ⟨[.any], .integer⟩⟩,
    ⟨"main", [], [], none, [
      .declaration choosingVariable "a" (some "Any") none,
      .switch (.call .integer ⟨[.any], .integer⟩ "f" [.access .any choosingVariable "a"]) [
        .mk (some (.literal .integer (.integer 3))) [.assignment (.access .any choosingVariable "a")
          (.call .integer ⟨[.any], .integer⟩ "f" [.access (.list .integer) choosingList "xs"])],
        .mk none [.expression (.call .nil ⟨[.any], .nil⟩ "print"
          [.access .any choosingVariable "a"])]],
      .returning (.literal .integer (.integer 1))], ⟨[], .integer⟩⟩]

/-- The program has all its notes and both its texts. -/
theorem choosing_written : ∃ checker,
    parseProgram choosing = .ok choosingTree.erase ∧
      Typing.check choosingTree.erase = .ok (choosingTree, checker) ∧
      choosingTree.Annotated ∧ choosingTree.toJson.Every Json.Resolved ∧
      ∃ text, program choosingTree = .ok text := by
  have reads : parseProgram choosing = .ok choosingTree.erase := by cbv
  obtain ⟨checker, accepted⟩ : ∃ checker,
      Typing.check choosingTree.erase = .ok (choosingTree, checker) :=
    ⟨⟨⟨#[{ parent := none, entries := [choosingList],
           functions := [Typing.printSignature, ⟨"f", [.any], some .integer, none⟩,
             ⟨"main", [], some .integer, none⟩] }]⟩, ⟨none, none⟩⟩, by cbv⟩
  obtain ⟨_, annotated, ⟨resolved, _⟩, written⟩ := accepted_written reads accepted
  exact ⟨checker, reads, accepted, annotated, resolved, written⟩

end Blockscript.Java
