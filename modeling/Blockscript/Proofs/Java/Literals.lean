import Blockscript.Proofs.Grammar.Completeness
import Blockscript.Proofs.Java.Wording
import Blockscript.Proofs.Token.Spacing

/-!
# Emitted literals are literals of the language

The emitter writes literals, the classes of tokens say which texts are literals, and the
grammar takes them apart. These agree: a text is written with escape sequences that may
stand between its quotes and that are decoded to the text, so a literal that is emitted is
one token, and this token is read as the literal. A decimal is emitted so unless it is so
small that it is written with a power of ten, which no token has. An integer with too many
digits is not emitted at all.
-/

namespace Blockscript

namespace Text

variable {quote letter escape : Char} {letters : List Char}

/-! ## Escape sequences -/

/-- The quotes of the language. -/
def quotes : List Char :=
  ['\'', '"']

/-- What is written behind a backslash is what stands for the character there. -/
theorem escapeLetter?_escaped (isQuote : quote ∈ quotes)
    (written : escapeLetter? quote letter = some escape) : escaped? escape = some letter := by
  unfold escapeLetter? at written
  split at written
  · cases written
    rfl
  · cases written
    rfl
  · cases written
    rfl
  · cases written
    rfl
  · cases written
    rfl
  · split at written
    · next same =>
      subst same
      cases written
      simp only [quotes, List.mem_cons, List.not_mem_nil, or_false] at isQuote
      rcases isQuote with rfl | rfl <;> rfl
    · cases written

/-- What is written as it is may stand so between its quotes. -/
theorem escapeLetter?_plain (written : escapeLetter? quote letter = none) :
    letter ∉ [quote, '\\', '\n', '\r'] := by
  obtain ⟨noQuote, noEscape⟩ := Java.escapeLetter?_none written
  simp only [List.mem_cons, List.not_mem_nil, or_false, not_or]
  refine ⟨noQuote, noEscape, ?_, ?_⟩
  · rintro rfl
    cases written
  · rintro rfl
    cases written

/-- A letter that has an escape is written as a backslash and the escape. -/
theorem encode_escape (written : escapeLetter? quote letter = some escape) :
    encode quote (letter :: letters) = '\\' :: escape :: encode quote letters := by
  simp [encode, written]

/-- A letter without an escape is written as it is. -/
theorem encode_plain (written : escapeLetter? quote letter = none) :
    encode quote (letter :: letters) = letter :: encode quote letters := by
  simp [encode, written]

/-- A text is decoded from what is written for it. -/
theorem decode_encode (isQuote : quote ∈ quotes) (letters : List Char) :
    decode (encode quote letters) = letters := by
  induction letters with
  | nil => rfl
  | cons letter letters inductionHypothesis =>
    cases written : escapeLetter? quote letter with
    | some escape =>
      rw [encode_escape written, decode, escapeLetter?_escaped isQuote written,
        inductionHypothesis]
    | none =>
      have other : letter ≠ '\\' := (Java.escapeLetter?_none written).2
      rw [encode_plain written]
      simp [decode, other, inductionHypothesis]

end Text

namespace Java

open TokenKind

variable {quote : Char} {kind : TokenKind} {value : Literal}

/-! ## Members of the classes -/

/-- What is written for a text may stand between double quotes. -/
theorem encode_quotable (letters : List Char) : Quotable (Text.encode '"' letters) := by
  induction letters with
  | nil => exact .empty
  | cons letter letters inductionHypothesis =>
    cases written : Text.escapeLetter? '"' letter with
    | some escape =>
      rw [Text.encode_escape written]
      have letter := Text.escapeLetter?_escaped (by decide) written
      exact .escape (by simp [Text.isEscapeLetter, letter]) inductionHypothesis
    | none =>
      rw [Text.encode_plain written]
      exact .plain (Text.escapeLetter?_plain written) inductionHypothesis

/-- A string literal is written as a string of the language. -/
theorem string_member (text : String) : Member .string (wording (.string text)).toList := by
  rw [wording, quoted, String.toList_ofList]
  exact .string (encode_quotable text.toList)

/-- A single character is emitted as a character literal. -/
theorem character_member (single : Char) :
    Member .character (wording (.character (String.singleton single))).toList := by
  rw [wording, quoted, String.toList_ofList, String.toList_singleton]
  cases written : Text.escapeLetter? '\'' single with
  | some escape =>
    rw [Text.encode_escape written]
    have letter := Text.escapeLetter?_escaped (by decide) written
    exact .escape (by simp [Text.isEscapeLetter, letter])
  | none =>
    rw [Text.encode_plain written]
    have plain := Text.escapeLetter?_plain written
    simp only [List.mem_cons, List.not_mem_nil, or_false, not_or] at plain
    exact .character (by simp [isPlain, plain])

/-- The text between the quotes is decoded to the text that was quoted. -/
theorem quotedText_quoted (isQuote : quote ∈ Text.quotes) (text : String) :
    Grammar.quotedText (quoted quote text) = text := by
  have inside : ((quoted quote text).toList.drop 1).dropLast = Text.encode quote text.toList := by
    simp [quoted]
  rw [Grammar.quotedText, inside, Text.decode_encode isQuote, String.ofList_toList]

/-! ## Emitted literals -/

/-- The token of a literal as it is called. -/
def literalToken (kind : TokenKind) (value : Literal) : Token :=
  ⟨kind, wording value, 0⟩

/-- A literal is emitted as one token of a class, and an operand of this token alone is the
literal. -/
def Survives (kind : TokenKind) (value : Literal) : Prop :=
  ∃ text, literal value = .ok text ∧ Token.ofText text = .ok [⟨kind, text, 0⟩] ∧
    (Grammar.primary [⟨kind, text, 0⟩]).Gives (.literal () value) []

/-- A literal whose text is there and belongs to a class survives if the class reads it so. -/
theorem survives (writable : Writable value) (member : kind.Member (wording value).toList)
    (read : Grammar.literal? (literalToken kind value) = some (.ok value)) : Survives kind value :=
  ⟨wording value, literal_written.mpr ⟨writable, rfl⟩, Token.ofText_member member,
    Grammar.primary_literal read⟩

/-- The token of a member of a class is genuine. -/
theorem literalToken_genuine (member : kind.Member (wording value).toList) :
    (literalToken kind value).Genuine :=
  ⟨(wording value).toList, member_iff_whole.mp member⟩

/-- A decimal that some token of the language denotes. -/
def Denotable (number : Decimal) : Prop :=
  ∃ token : Token, token.Genuine ∧ token.kind = .decimal ∧
    Grammar.literal? token = some (.ok (.decimal number))

/-- What a token denotes has digits behind its point. -/
theorem Denotable.fractional {number : Decimal} (denotable : Denotable number) :
    number.exponent < 0 := by
  obtain ⟨token, genuine, kind, read⟩ := denotable
  have denoted := (Grammar.literal?_decimal genuine kind).mp read
  obtain ⟨letters, taken⟩ := genuine
  rw [kind] at taken
  exact Decimal.exponent_neg (lexeme?_member taken).1 denoted

/-- Strings survive. -/
theorem string_survives (text : String) : Survives .string (.string text) := by
  have member := string_member text
  refine survives (by rintro _ ⟨⟩) member ?_
  rw [Grammar.literal?_of_class (literalToken_genuine member) (by simp [literalToken])]
  exact congrArg (fun text => some (Except.ok (Literal.string text)))
    (quotedText_quoted (by decide : '"' ∈ Text.quotes) text)

/-- Characters survive. -/
theorem character_survives (single : Char) :
    Survives .character (.character (String.singleton single)) := by
  have member := character_member single
  refine survives (by rintro _ ⟨⟩) member ?_
  rw [Grammar.literal?_of_class (literalToken_genuine member) (by simp [literalToken])]
  exact congrArg (fun text => some (Except.ok (Literal.character text)))
    (quotedText_quoted (by decide : '\'' ∈ Text.quotes) _)

/-- The digits of an integer are those in its text. -/
theorem integer_figures (number : Int) :
    (literalToken .integer (.integer number)).figures = digitCount number.natAbs := by
  have counted : (digitsOf number.natAbs).countP Char.isDigit = digitCount number.natAbs := by
    rw [List.countP_eq_length.mpr digitsOf_digits, length_digitsOf]
  rw [Token.figures, literalToken, wording, String.toList_ofList, integerText]
  split
  · rw [List.countP_cons, counted]
    rfl
  · exact counted

/-- Integers survive if they have no more digits than are written, and otherwise they are not
emitted. -/
theorem integer_survives_iff (number : Int) :
    Survives .integer (.integer number) ↔ number.natAbs < tenTo digitLimit := by
  rw [← digitCount_le_iff (by decide)]
  constructor
  · rintro ⟨text, emitted, _⟩
    exact (literal_written.mp emitted).1 number rfl
  · intro short
    have member : Member .integer (wording (.integer number)).toList := by
      rw [wording, String.toList_ofList]
      exact integerText_member number
    refine survives (by rintro _ ⟨⟩; exact short) member ?_
    rw [Grammar.literal?_integer (literalToken_genuine member) rfl, integer_figures, if_pos short]
    simp [literalToken, wording, integerOfLetters_integerText]

/-- Decimals with digits behind the point survive down to a millionth. -/
theorem decimal_survives {number : Decimal} (fractional : number.exponent < 0)
    (bounded : Decimal.leastPlain ≤ number.adjusted) : Survives .decimal (.decimal number) := by
  obtain ⟨written, read⟩ := Decimal.letters_read fractional bounded
  have member : Member .decimal (wording (.decimal number)).toList := by
    rw [wording, Decimal.text, String.toList_ofList]
    exact written
  refine survives (by rintro _ ⟨⟩) member ?_
  rw [Grammar.literal?_decimal (literalToken_genuine member) rfl]
  simp [literalToken, wording, Decimal.text, Decimal.ofText?, read]

/-- Literals survive being emitted, lexed and read. Every string, every character, every
integer with no more digits than are written, and every decimal that a token denotes and that
is not below a millionth in its order of magnitude is emitted as a single token of its class,
and the operand of this token is the literal. An integer with more digits is not emitted. A
text that is written for use between quotes is decoded to what it was. -/
theorem literals_survive_within_limit (text : String) (single : Char) (number : Int)
    (decimal : Decimal) (quote : Char) (letters : List Char) :
    Survives .string (.string text) ∧
    Survives .character (.character (String.singleton single)) ∧
    (Survives .integer (.integer number) ↔ number.natAbs < tenTo digitLimit) ∧
    (Denotable decimal → -6 ≤ decimal.adjusted → Survives .decimal (.decimal decimal)) ∧
    (quote ∈ Text.quotes → Text.decode (Text.encode quote letters) = letters) :=
  ⟨string_survives text, character_survives single, integer_survives_iff number,
    fun denotable bounded => decimal_survives denotable.fractional bounded,
    fun isQuote => Text.decode_encode isQuote letters⟩

/-- The smallest order of magnitude: a negative millionth with a zero at its end. -/
theorem millionth_survives :
    Denotable ⟨true, 10, -7⟩ ∧ -6 ≤ (⟨true, 10, -7⟩ : Decimal).adjusted ∧
      Survives .decimal (.decimal ⟨true, 10, -7⟩) ∧
      literal (.decimal ⟨true, 10, -7⟩) = .ok "-0.0000010" := by
  have genuine : (⟨.decimal, "-0.0000010", 0⟩ : Token).Genuine :=
    ⟨"-0.0000010".toList, by decide⟩
  have denotable : Denotable ⟨true, 10, -7⟩ :=
    ⟨_, genuine, rfl, (Grammar.literal?_decimal genuine rfl).mpr (by decide)⟩
  have bounded : -6 ≤ (⟨true, 10, -7⟩ : Decimal).adjusted := by decide
  have survive := literals_survive_within_limit "" 'a' 0 ⟨true, 10, -7⟩ '"' []
  exact ⟨denotable, bounded, survive.2.2.2.1 denotable bounded, by cbv⟩

/-- An integer with too many digits is not emitted. -/
theorem literal_overlong {number : Int} (long : ¬ digitCount number.natAbs ≤ digitLimit) :
    literal (.integer number) = .error .unwritable := by
  rw [literal, integer, integerText?, if_neg long]

/-- The first such integer is a power of ten. -/
theorem overlong_not_emitted :
    literal (.integer (tenTo digitLimit : Nat)) = .error .unwritable ∧
      ¬ Survives .integer (.integer (tenTo digitLimit : Nat)) := by
  have large : ¬ (tenTo digitLimit : Int).natAbs < tenTo digitLimit := by
    rw [Int.natAbs_natCast]
    exact Nat.lt_irrefl _
  refine ⟨literal_overlong fun short => large ?_, mt (integer_survives_iff _).mp large⟩
  exact (digitCount_le_iff (by decide)).mp short

end Java

end Blockscript
