import Blockscript.Proofs.Decimal.Notation
import Blockscript.Proofs.Token.Scanning

/-!
# What lexing makes of a token

The grammar tells its words and marks by their text and the other tokens by
their class. That the two never collide is no matter of the grammar but of the
classes: outside of the operators no class has a member that begins like a mark,
and the classes of literals have none that begins like a word.
-/

namespace Blockscript

/-- The text of the token is what its class takes from the front of some text. -/
def Token.Genuine (token : Token) : Prop :=
  ∃ letters, token.kind.lexeme? letters = some token.text.toList

namespace Token

/-- The text of a token that lexing gives is a member of its class. -/
theorem Genuine.member {token : Token} (genuine : token.Genuine) :
    token.kind.Member token.text.toList := by
  obtain ⟨letters, read⟩ := genuine
  exact (TokenKind.lexeme?_member read).1

/-- Lexing a program text gives genuine tokens only. -/
theorem ofText_genuine {source : String} {tokens : List Token}
    (lexed : ofText source = .ok tokens) : ∀ token ∈ tokens, token.Genuine := by
  intro token member
  have cover := (scan_covers rfl).1 tokens lexed
  have read := (cover.munched token member).first? rfl
  exact ⟨_, (TokenKind.first?_asked read).1⟩

/-- A genuine token is none of the words that its class cannot begin like. -/
theorem Genuine.text_notMem {token : Token} {words : List String} (genuine : token.Genuine)
    (apart : (words.all fun word => word.toList.head?.all fun first =>
      !token.kind.opens first) = true) :
    token.text ∉ words := by
  intro member
  obtain ⟨first, rest, begins, opens⟩ := genuine.member.begins
  have closed := List.all_eq_true.mp apart token.text member
  simp [begins, opens] at closed

/-- The marks that the grammar asks for. -/
def marks : List String :=
  ["(", ")", "[", "]", ",", ":", ";", "=", "<", ">"]

/-- Only operators are marks. -/
theorem Genuine.text_notMem_marks {token : Token} (genuine : token.Genuine)
    (kind : token.kind ≠ .operator) : token.text ∉ marks := by
  apply genuine.text_notMem
  cases same : token.kind with
  | operator => exact absurd same kind
  | identifier => decide
  | integer => decide
  | decimal => decide
  | character => decide
  | string => decide

/-- A genuine decimal has a value. Its digits stand on both sides of the point,
and nothing follows them. -/
theorem Genuine.reads_decimal {token : Token} (genuine : token.Genuine)
    (kind : token.kind = .decimal) : ∃ number, Decimal.ofText? token.text = some number := by
  have member := genuine.member
  rw [kind] at member
  obtain ⟨negative, whole, fraction, written, number, _, digits⟩ :=
    Decimal.member_decimal_iff.mp member
  rw [Decimal.ofText?, written, Decimal.ofLetters?_point number digits]
  exact ⟨_, rfl⟩

end Token

end Blockscript
