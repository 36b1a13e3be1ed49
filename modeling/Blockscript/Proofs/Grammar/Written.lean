import Blockscript.Proofs.Grammar.Exactness
import Blockscript.Proofs.Typing.Occurrences

/-!
# What parsed expressions look like

A name in a parsed expression is a name of the language, and an operator stands above
operands that are as tight on its left and tighter on its right. Whatever is written
out of a parsed program relies on this and not on how it was parsed.
-/

namespace Blockscript

/-- Whether letters are a name. -/
def TokenKind.IsName (letters : List Char) : Prop :=
  ∃ first rest, letters = first :: rest ∧ startsName first = true ∧
    ∀ letter ∈ rest, continuesName letter = true

/-- A genuine identifier is a name. -/
theorem Token.Genuine.isName {token : Token} (genuine : token.Genuine)
    (kind : token.kind = .identifier) : TokenKind.IsName token.text.toList := by
  obtain ⟨letters, read⟩ := genuine
  rw [kind] at read
  cases letters with
  | nil => cases read
  | cons first rest =>
    simp only [TokenKind.lexeme?, TokenKind.identifierLexeme?] at read
    split at read
    · next starts =>
      refine ⟨first, _, (Option.some.inj read).symm, starts, ?_⟩
      intro letter member
      exact List.mem_takeWhile_imp member
    · cases read

namespace Expr

variable {ν : Notes}

/-- The operator of a binary expression. -/
def operator? : Expr ν → Option String
  | binary _ operator _ _ => some operator
  | _ => none

/-- Erasing the notes of an expression leaves the operator on top. -/
theorem operator?_erase (tree : Expr ν) : tree.erase.operator? = tree.operator? := by
  cases tree <;> rfl

end Expr

namespace Grammar

/-- The level of an expression with the given operator on top, or without one. -/
def tier (operator? : Option String) : Nat :=
  match operator? with
  | some operator => levels.findIdx (·.contains operator)
  | none => levels.length

/-- A binary expression has an operator and operands as the levels allow, and a name
is one. -/
def Written {ν : Notes} : Expr ν → Prop
  | .binary _ operator left right =>
    operator ∈ levels.flatten ∧ tier (some operator) ≤ tier left.operator? ∧
      tier (some operator) < tier right.operator?
  | .access _ _ name | .element _ _ name _ | .call _ _ name _ => TokenKind.IsName name.toList
  | .literal _ _ | .group _ _ | .list _ _ => True

/-- The notes do not matter to how an expression is written. -/
theorem Written.of_erase {ν : Notes} {tree : Expr ν} (written : Written tree.erase) :
    Written tree := by
  cases tree with
  | binary type operator left right =>
    simpa [Expr.erase, Written, Expr.operator?_erase] using written
  | _ => exact written

/-- The operators of a level have its number. -/
theorem tier_of_mem {front tighter : List (List String)} {loosest : List String}
    {operator : String} (split : front ++ loosest :: tighter = levels)
    (member : operator ∈ loosest) :
    operator ∈ levels.flatten ∧ tier (some operator) = front.length := by
  constructor
  · rw [← split]
    simp [member]
  · have apart : ∀ level ∈ front, operator ∉ level := by
      have disjoint : levels.Pairwise List.Disjoint := by
        simp [levels]
      rw [← split, List.pairwise_append] at disjoint
      intro level before
      exact fun again => disjoint.2.2 level before loosest (by simp) again member
    have passes : front.findIdx (·.contains operator) = front.length := by
      rw [List.findIdx_eq_length]
      intro level before
      simpa using apart level before
    rw [tier, ← split, List.findIdx_append, passes]
    simp [List.findIdx_cons, member]

/-- A literal is written as it stands. -/
theorem written_literal (value : Literal) : (Expr.literal () value : Expr .bare).Every Written :=
  Expr.every_literal.mpr trivial

mutual

/-- An expression of a level is written, and no operator on its top is looser than the
level. -/
theorem Phrase.Level.written : ∀ {operators : List (List String)} {segment : List Token}
    {tree : Expr .bare}, Level operators segment tree → ∀ {front : List (List String)},
    front ++ operators = levels → (∀ token ∈ segment, token.Genuine) →
      tree.Every Written ∧ front.length ≤ tier tree.operator?
  | _, _, _, .primary phrase, front, split, genuine => by
    obtain ⟨written, plain⟩ := phrase.written genuine
    rw [plain, tier, ← split]
    exact ⟨written, by simp⟩
  | _, _, _, @Phrase.Level.operand loosest _ _ _ phrase, front, split, genuine => by
    obtain ⟨written, tight⟩ := @Phrase.Level.written _ _ _ phrase (front ++ [loosest])
      (by simpa using split) genuine
    exact ⟨written, by simp at tight; omega⟩
  | _, _, _, @Phrase.Level.binary loosest _ _ _ _ _ _ left member right, front, split, genuine => by
    obtain ⟨leftWritten, leftTight⟩ := left.written split fun token inside =>
      genuine token (by simp [inside])
    obtain ⟨rightWritten, rightTight⟩ := @Phrase.Level.written _ _ _ right (front ++ [loosest])
      (by simpa using split) fun token inside => genuine token (by simp [inside])
    obtain ⟨known, here⟩ := tier_of_mem split member
    simp only [List.length_append, List.length_singleton] at rightTight
    refine ⟨Expr.every_binary.mpr ⟨⟨known, ?_, ?_⟩, leftWritten, rightWritten⟩, ?_⟩
    · omega
    · omega
    · rw [Expr.operator?]
      omega

/-- An operand can be written down, and has no operator on top. -/
theorem Phrase.Primary.written : ∀ {segment : List Token} {tree : Expr .bare},
    Primary segment tree → (∀ token ∈ segment, token.Genuine) →
      tree.Every Written ∧ tree.operator? = none
  | _, _, .nil _, _ => ⟨written_literal _, rfl⟩
  | _, _, .true _, _ => ⟨written_literal _, rfl⟩
  | _, _, .false _, _ => ⟨written_literal _, rfl⟩
  | _, _, .integer _ _, _ => ⟨written_literal _, rfl⟩
  | _, _, .decimal _ _, _ => ⟨written_literal _, rfl⟩
  | _, _, .character _, _ => ⟨written_literal _, rfl⟩
  | _, _, .string _, _ => ⟨written_literal _, rfl⟩
  | _, _, .group _ inner _, genuine => by
    obtain ⟨written, _⟩ := inner.written (List.nil_append _) fun token inside =>
      genuine token (by simp [inside])
    exact ⟨Expr.every_group.mpr ⟨trivial, written⟩, rfl⟩
  | _, _, .list _ elements _, genuine => by
    have written := elements.written fun token inside => genuine token (by simp [inside])
    exact ⟨Expr.every_list.mpr ⟨trivial, written⟩, rfl⟩
  | _, _, .access kind _, genuine =>
    ⟨Expr.every_access.mpr ((genuine _ (by simp)).isName kind), rfl⟩
  | _, _, .element kind _ _ offset _, genuine => by
    obtain ⟨written, _⟩ := offset.written (List.nil_append _) fun token inside =>
      genuine token (by simp [inside])
    exact ⟨Expr.every_element.mpr ⟨(genuine _ (by simp)).isName kind, written⟩, rfl⟩
  | _, _, .call kind _ _ arguments _, genuine => by
    have written := arguments.written fun token inside => genuine token (by simp [inside])
    exact ⟨Expr.every_call.mpr ⟨(genuine _ (by simp)).isName kind, written⟩, rfl⟩

/-- Each of the items can be written down. -/
theorem Phrase.Items.written : ∀ {segment : List Token} {trees : List (Expr .bare)},
    Items segment trees → (∀ token ∈ segment, token.Genuine) →
      ∀ tree ∈ trees, tree.Every Written
  | _, _, .last only, genuine => by
    obtain ⟨written, _⟩ := only.written (List.nil_append _) genuine
    simpa using written
  | _, _, .more first _ others, genuine => by
    obtain ⟨written, _⟩ := first.written (List.nil_append _) fun token inside =>
      genuine token (by simp [inside])
    have further := others.written fun token inside => genuine token (by simp [inside])
    simpa using ⟨written, further⟩

/-- Each of the arguments can be written down. -/
theorem Phrase.Arguments.written : ∀ {segment : List Token} {trees : List (Expr .bare)},
    Arguments segment trees → (∀ token ∈ segment, token.Genuine) →
      ∀ tree ∈ trees, tree.Every Written
  | _, _, .none, _ => by simp
  | _, _, .some items, genuine => items.written genuine

end

/-- An expression is written. -/
theorem Phrase.Level.every_written {segment : List Token} {tree : Expr .bare}
    (phrase : Expression segment tree) (genuine : ∀ token ∈ segment, token.Genuine) :
    tree.Every Written :=
  (phrase.written (List.nil_append _) genuine).1

/-- An optional part is written when the part is. -/
theorem Phrase.Optional.written {word : String} {segment : List Token} {value : Option (Expr .bare)}
    (phrase : Optional word Expression segment value) (genuine : ∀ token ∈ segment, token.Genuine) :
    ∀ tree ∈ value, tree.Every Written := by
  cases phrase with
  | absent => simp
  | present _ inner =>
    have written := inner.every_written fun token inside =>
      genuine token (by simp [inside])
    simpa using written

mutual

/-- The expressions of a statement can be written down. -/
theorem Phrase.Statement.written : ∀ {segment : List Token} {tree : Stmt .bare},
    Statement segment tree → (∀ token ∈ segment, token.Genuine) →
      ∀ root ∈ tree.roots, root.Every Written
  | _, _, .declaration _ _ _ value _, genuine => by
    have written := value.written fun token inside => genuine token (by simp [inside])
    simpa [Stmt.roots] using written
  | _, _, .switch _ subject cases _, genuine => by
    have written := subject.every_written fun token inside =>
      genuine token (by simp [inside])
    have further := cases.written fun token inside => genuine token (by simp [inside])
    simpa [Stmt.roots] using ⟨written, further⟩
  | _, _, .conditional _ condition _ body _, genuine => by
    have written := condition.every_written fun token inside =>
      genuine token (by simp [inside])
    have further := body.written fun token inside => genuine token (by simp [inside])
    simpa [Stmt.roots, Stmt.rootsOf] using ⟨written, further⟩
  | _, _, .alternative _ condition _ body _ other _, genuine => by
    have written := condition.every_written fun token inside =>
      genuine token (by simp [inside])
    have further := body.written fun token inside => genuine token (by simp [inside])
    have others := other.written fun token inside => genuine token (by simp [inside])
    simp only [Stmt.roots, List.mem_cons, List.mem_append]
    rintro root (rfl | member | member)
    · exact written
    · exact further root member
    · exact others root member
  | _, _, .loop _ condition _ body _, genuine => by
    have written := condition.every_written fun token inside =>
      genuine token (by simp [inside])
    have further := body.written fun token inside => genuine token (by simp [inside])
    simpa [Stmt.roots] using ⟨written, further⟩
  | _, _, .returning _ value _, genuine => by
    have written := value.every_written fun token inside =>
      genuine token (by simp [inside])
    simpa [Stmt.roots] using written
  | _, _, .expression inner _ _, genuine => by
    have written := inner.every_written fun token inside =>
      genuine token (by simp [inside])
    simpa [Stmt.roots] using written
  | _, _, .assignment receiver _ _ _ value _, genuine => by
    have written := receiver.every_written fun token inside =>
      genuine token (by simp [inside])
    have further := value.every_written fun token inside =>
      genuine token (by simp [inside])
    simpa [Stmt.roots] using ⟨written, further⟩

/-- The expressions of a block can be written down. -/
theorem Phrase.Block.written : ∀ {segment : List Token} {trees : List (Stmt .bare)},
    Block segment trees → (∀ token ∈ segment, token.Genuine) →
      ∀ root ∈ Stmt.rootsOf trees, root.Every Written
  | _, _, .empty, _ => by simp [Stmt.rootsOf]
  | _, _, .cons first _ others, genuine => by
    have written := first.written fun token inside => genuine token (by simp [inside])
    have further := others.written fun token inside => genuine token (by simp [inside])
    intro root member
    rcases List.mem_append.mp member with here | later
    · exact written root here
    · exact further root later

/-- The expressions of cases can be written down. -/
theorem Phrase.Cases.written : ∀ {segment : List Token} {trees : List (Case .bare)},
    Cases segment trees → (∀ token ∈ segment, token.Genuine) →
      ∀ root ∈ Case.rootsOf trees, root.Every Written
  | _, _, .labelled _ label _ body others, genuine => by
    have written := label.every_written fun token inside =>
      genuine token (by simp [inside])
    have inside := body.written fun token inside => genuine token (by simp [inside])
    have further := others.written fun token inside => genuine token (by simp [inside])
    simp only [Case.rootsOf, Option.toList_some, List.mem_append, List.mem_singleton]
    rintro root ((rfl | member) | member)
    · exact written
    · exact inside root member
    · exact further root member
  | _, _, .default _ _ body, genuine => by
    have written := body.written fun token inside => genuine token (by simp [inside])
    simpa [Case.rootsOf] using written
  | _, _, .bareDefault _ body, genuine => by
    have written := body.written fun token inside => genuine token (by simp [inside])
    simpa [Case.rootsOf] using written

end

/-- The value of a global can be written down. -/
theorem Phrase.Global.written {segment : List Token} {definition : GlobalDef .bare}
    (phrase : Global segment definition) (genuine : ∀ token ∈ segment, token.Genuine) :
    ∀ tree ∈ definition.value, tree.Every Written := by
  cases phrase with
  | list _ _ _ _ _ inside _ _ =>
    have written := inside.written fun token inside => genuine token (by simp [inside])
    rintro tree ⟨⟩
    exact Expr.every_list.mpr ⟨trivial, written⟩
  | mutable _ _ _ value _ =>
    exact value.written fun token inside => genuine token (by simp [inside])
  | immutable _ _ _ _ value _ =>
    have written := value.every_written fun token inside =>
      genuine token (by simp [inside])
    simpa using written

/-- The expressions of a function can be written down. -/
theorem Phrase.Function.written {segment : List Token} {definition : FunctionDef .bare}
    (phrase : Function segment definition) (genuine : ∀ token ∈ segment, token.Genuine) :
    ∀ root ∈ Stmt.rootsOf definition.body, root.Every Written := by
  cases phrase with
  | mk _ _ _ _ _ _ _ body _ =>
    exact body.written fun token inside => genuine token (by simp [inside])

/-- What holds of every phrase of a sequence. -/
theorem Phrase.Sequence.forall {α : Type} {phrase : List Token → α → Prop} {holds : α → Prop}
    (each : ∀ {segment value}, phrase segment value → (∀ token ∈ segment, token.Genuine) →
      holds value) {segment : List Token} {values : List α}
    (sequence : Sequence phrase segment values) (genuine : ∀ token ∈ segment, token.Genuine) :
    ∀ value ∈ values, holds value := by
  induction sequence with
  | empty => simp
  | cons first _ inductionHypothesis =>
    have here := each first fun token inside => genuine token (by simp [inside])
    have further := inductionHypothesis fun token inside => genuine token (by simp [inside])
    simpa using ⟨here, further⟩

/-- Every expression of a program that is read from a text is written. -/
theorem program_written {source : String} {program : Program .bare}
    (parsed : parseProgram source = .ok program) :
    ∀ root ∈ program.roots, root.Every Written := by
  obtain ⟨tokens, genuine, phrase⟩ := parseProgram_genuine parsed
  cases phrase with
  | mk globals functions =>
    have globalsWritten := globals.forall
      (fun phrase genuine => Phrase.Global.written phrase genuine)
      fun token inside => genuine token (by simp [inside])
    have functionsWritten := functions.forall
      (fun phrase genuine => Phrase.Function.written phrase genuine)
      fun token inside => genuine token (by simp [inside])
    intro root member
    rcases List.mem_append.mp member with inside | inside
    · obtain ⟨definition, among, here⟩ := List.mem_flatMap.mp inside
      exact globalsWritten definition among root (Option.mem_toList.mp here)
    · obtain ⟨definition, among, here⟩ := List.mem_flatMap.mp inside
      exact functionsWritten definition among root here

end Grammar

end Blockscript
