import Blockscript.Proofs.Grammar.Derivation
import Blockscript.Proofs.Token.Genuine
import Blockscript.Proofs.Token.Spacing

/-!
# Numerals of the language

The numerals that lexing gives are plain: a sign, digits, and for a decimal a point. They
denote the number that their letters say, and the only thing that can be wrong with one is
that it is an integer of more digits than may be read. A token is legible if that is not so,
and the grammar takes every legible token for what it denotes.
-/

namespace Blockscript

open TokenKind (Member SignedNumber WholeNumber)

variable {limit : Nat} {negative : Bool} {digits letters : List Char} {token : Token}

/-! ## Integers -/

/-- The code point of a digit. -/
theorem digit_range {digit : Char} (isDigit : digit.isDigit = true) :
    48 ≤ digit.toNat ∧ digit.toNat ≤ 57 := by
  simpa [Char.isDigit, UInt32.le_iff_toNat_le] using isDigit

/-- A digit is written in ASCII already. -/
theorem plainLetter_digit {digit : Char} (isDigit : digit.isDigit = true) :
    Text.plainLetter digit = digit := by
  have inside := digit_range isDigit
  exact Text.plainLetter_of_ascii (by omega)

/-- No digit is a blank around a numeral. -/
theorem surroundsInteger_digit {digit : Char} (isDigit : digit.isDigit = true) :
    surroundsInteger digit = false := by
  have inside := digit_range isDigit
  have other : digit ≠ ' ' := by
    rintro rfl
    exact absurd inside.1 (by decide)
  simp only [surroundsInteger, other, decide_false, Bool.false_or, Bool.and_eq_false_iff,
    decide_eq_false_iff_not]
  right
  omega

/-- Digits without a mark between them are separated well. -/
theorem isSeparated_digits (some : digits ≠ []) (all : ∀ digit ∈ digits, digit.isDigit = true) :
    isSeparated digits = true := by
  induction digits with
  | nil => exact absurd rfl some
  | cons first rest inductionHypothesis =>
    obtain ⟨here, further⟩ := List.forall_mem_cons.mp all
    cases rest with
    | nil => exact here
    | cons second others =>
      have noMark : second ≠ '_' := by
        rintro rfl
        exact absurd (further '_' (by simp)) (by decide)
      simp [isSeparated, here, noMark, inductionHypothesis (by simp) further]

/-- Plain digits with a sign are read as the integer that they denote, if they are not too
many. -/
theorem readIntegerWithin_signed (number : WholeNumber digits)
    (written : token.text.toList = withSign negative digits) :
    readIntegerWithin limit token.text =
      if limit < digits.length then .error (.overlong digits.length)
      else .ok (integerOfLetters token.text.toList) := by
  have all := number.allDigits
  obtain ⟨first, rest, rfl, digit⟩ := number.head
  have ascii : (withSign negative (first :: rest)).map Text.plainLetter =
      withSign negative (first :: rest) := by
    have same : (first :: rest).map Text.plainLetter = first :: rest :=
      (List.map_congr_left fun letter member => plainLetter_digit (all letter member)).trans
        (List.map_id _)
    cases negative with
    | false => exact same
    | true => exact congrArg ('-' :: ·) same
  have trimmed : (withSign negative (first :: rest)).dropWhile surroundsInteger =
      withSign negative (first :: rest) := by
    cases negative with
    | false => simp [withSign, surroundsInteger_digit digit]
    | true => simp [withSign, surroundsInteger]
  have goesOn : ∀ letter ∈ first :: rest, continuesInteger letter = true :=
    fun letter member => by simp [continuesInteger, all letter member]
  have whole : (first :: rest).takeWhile continuesInteger = first :: rest :=
    List.takeWhile_eq_self_iff.mpr goesOn
  have nothing : (first :: rest).dropWhile continuesInteger = [] :=
    List.dropWhile_eq_nil_iff.mpr goesOn
  have counted : (first :: rest).filter Char.isDigit = first :: rest :=
    List.filter_eq_self.mpr all
  simp only [readIntegerWithin, integerOfLetters, written, ascii, trimmed,
    splitSign_withSign digit, whole, nothing, counted,
    isSeparated_digits (List.cons_ne_nil first rest) all, Bool.not_true, Bool.false_eq_true,
    ↓reduceIte, List.all_nil]

/-- How many digits stand in a token. -/
def Token.figures (token : Token) : Nat :=
  token.text.toList.countP Char.isDigit

/-- What the text of a genuine integer looks like. -/
theorem Token.Genuine.integer_text (genuine : token.Genuine) (kind : token.kind = .integer) :
    ∃ negative digits, token.text.toList = withSign negative digits ∧ WholeNumber digits ∧
      token.figures = digits.length := by
  have member := genuine.member
  rw [kind] at member
  obtain ⟨negative, digits, written, number⟩ : ∃ negative digits,
      token.text.toList = withSign negative digits ∧ WholeNumber digits := by
    generalize token.text.toList = text at member
    cases member with
    | integer number =>
      cases number with
      | plain number => exact ⟨false, _, rfl, number⟩
      | negative number => exact ⟨true, _, rfl, number⟩
  refine ⟨negative, digits, written, number, ?_⟩
  have counted : digits.countP Char.isDigit = digits.length :=
    List.countP_eq_length.mpr number.allDigits
  rw [Token.figures, written]
  cases negative with
  | false => exact counted
  | true => rw [withSign, if_pos rfl, List.countP_cons, counted]; rfl

/-- A genuine integer is read as the integer that it denotes, unless it has too many digits. -/
theorem Token.Genuine.reads_integer (genuine : token.Genuine) (kind : token.kind = .integer) :
    readIntegerWithin limit token.text =
      if limit < token.figures then .error (.overlong token.figures)
      else .ok (integerOfLetters token.text.toList) := by
  obtain ⟨negative, digits, written, number, counted⟩ := genuine.integer_text kind
  rw [readIntegerWithin_signed number written, counted]

/-- A genuine integer denotes the number that its letters say, and no other. -/
theorem Token.Genuine.denotes_iff (genuine : token.Genuine) (kind : token.kind = .integer)
    {number : Int} :
    Grammar.Phrase.Denotes token.text number ↔ integerOfLetters token.text.toList = number := by
  constructor
  · rintro ⟨limit, read⟩
    rw [genuine.reads_integer kind] at read
    split at read
    · cases read
    · exact Except.ok.inj read
  · rintro rfl
    refine ⟨token.figures, ?_⟩
    rw [genuine.reads_integer kind, if_neg (Nat.lt_irrefl _)]

/-! ## Decimals -/

/-- Digits, minus signs and points count in a numeral as they are. -/
theorem countsAsIs {letter : Char}
    (plain : letter.isDigit = true ∨ letter = '-' ∨ letter = '.') :
    Text.isBlank letter = false ∧ letter ≠ '_' ∧ Text.plainLetter letter = letter ∧
      letter ≠ 'E' ∧ letter ≠ 'e' := by
  rcases plain with digit | rfl | rfl
  · obtain ⟨low, high⟩ := digit_range digit
    have other {mark : Char} (noDigit : mark.isDigit = false) : letter ≠ mark := by
      rintro rfl
      rw [digit] at noDigit
      cases noDigit
    refine ⟨?_, other rfl, plainLetter_digit digit, other rfl, other rfl⟩
    simp only [Text.isBlank, Text.blankRanges, List.any_cons, List.any_nil, Bool.or_false,
      Bool.or_eq_false_iff, Bool.and_eq_false_iff, decide_eq_false_iff_not]
    omega
  · decide
  · decide

/-- The letters of a genuine decimal all count, and none of them is the mark of a power. -/
theorem Decimal.numeralLetters_eq (member : Member .decimal letters) :
    numeralLetters letters = letters ∧
      letters.any (fun letter => letter = 'E' || letter = 'e') = false := by
  obtain ⟨negative, whole, fraction, rfl, number, some, digits⟩ := member_decimal_iff.mp member
  have unsigned : ∀ letter ∈ whole ++ '.' :: fraction,
      letter.isDigit = true ∨ letter = '-' ∨ letter = '.' := by
    intro letter inside
    rcases List.mem_append.mp inside with front | back
    · exact .inl (number.allDigits letter front)
    · rcases List.mem_cons.mp back with point | behind
      · exact .inr (.inr point)
      · exact .inl (digits letter behind)
  have plain : ∀ letter ∈ withSign negative (whole ++ '.' :: fraction),
      letter.isDigit = true ∨ letter = '-' ∨ letter = '.' := by
    intro letter inside
    cases negative with
    | false => exact unsigned letter inside
    | true =>
      rcases List.mem_cons.mp inside with sign | further
      · exact .inr (.inl sign)
      · exact unsigned letter further
  generalize withSign negative (whole ++ '.' :: fraction) = text at plain
  have trimmed {letters : List Char} (among : ∀ letter ∈ letters, letter ∈ text) :
      letters.dropWhile Text.isBlank = letters := by
    cases letters with
    | nil => rfl
    | cons first rest => simp [(countsAsIs (plain first (among first (by simp)))).1]
  constructor
  · rw [numeralLetters, trimmed fun _ => id, trimmed fun _ => List.mem_reverse.mp,
      List.reverse_reverse, List.filter_eq_self.mpr fun letter inside => by
        simp [(countsAsIs (plain letter inside)).2.1]]
    exact (List.map_congr_left fun letter inside =>
      (countsAsIs (plain letter inside)).2.2.1).trans (List.map_id _)
  · rw [List.any_eq_false]
    intro letter inside
    obtain ⟨_, _, _, noMark, noOther⟩ := countsAsIs (plain letter inside)
    simp [noMark, noOther]

/-- A genuine decimal is read as the number that it denotes. -/
theorem Token.Genuine.read_decimal (genuine : token.Genuine) (kind : token.kind = .decimal) :
    ∃ number, Decimal.ofText? token.text = some number ∧ Decimal.read token.text = .ok number := by
  obtain ⟨number, denoted⟩ := genuine.reads_decimal kind
  have member := genuine.member
  rw [kind] at member
  obtain ⟨letters, noPower⟩ := Decimal.numeralLetters_eq member
  refine ⟨number, denoted, ?_⟩
  rw [Decimal.ofText?] at denoted
  simp only [Decimal.read, letters, denoted, noPower, Bool.false_and, Bool.false_eq_true,
    ↓reduceIte]

/-! ## Legible tokens -/

/-- An integer has no more digits than may be read. -/
def Token.Legible (token : Token) : Prop :=
  token.kind = .integer → token.figures ≤ digitLimit

instance (token : Token) : Decidable token.Legible :=
  inferInstanceAs (Decidable (token.kind = .integer → token.figures ≤ digitLimit))

/-- A token that lexing gives and that is legible. -/
structure Token.Readable (token : Token) : Prop where
  genuine : token.Genuine
  legible : token.Legible

/-- Readable tokens are tokens that lexing gives. -/
theorem genuine_of_readable {tokens : List Token} (readable : ∀ token ∈ tokens, token.Readable) :
    ∀ token ∈ tokens, token.Genuine :=
  fun token member => (readable token member).genuine

/-- The token is of a class of numbers, and its text gives none. -/
def Token.Spoiled (token : Token) (fault : NumeralFault) : Prop :=
  (token.kind = .integer ∧ readInteger token.text = .error fault) ∨
  (token.kind = .decimal ∧ Decimal.read token.text = .error fault)

namespace Grammar

open Phrase (literalWords)

/-- A token that is no word for a literal is read by its class. -/
theorem literal?_of_free (free : token.text ∉ literalWords) :
    literal? token =
      match token.kind with
      | .integer => some ((readInteger token.text).map .integer)
      | .decimal => some ((Decimal.read token.text).map .decimal)
      | .character => some (.ok (.character (quotedText token.text)))
      | .string => some (.ok (.string (quotedText token.text)))
      | .identifier | .operator => none := by
  simp only [literalWords, List.mem_cons, List.not_mem_nil, or_false, not_or] at free
  obtain ⟨nil, true, false⟩ := free
  cases same : token.kind <;> simp [literal?, nil, true, false, same]

/-- A mark is not a literal. -/
theorem literal?_mark (genuine : token.Genuine) (mark : token.text ∈ Token.marks) :
    literal? token = none := by
  have kind : token.kind = .operator := by
    by_contra other
    exact genuine.text_notMem_marks other mark
  have free : token.text ∉ literalWords := by
    intro member
    exact (by decide : ∀ word ∈ literalWords, word ∉ Token.marks) _ member mark
  rw [literal?_of_free free, kind]

/-- The classes of literals have no member that is a word, so their tokens are
read by their class. -/
theorem literal?_of_class (genuine : token.Genuine)
    (kind : token.kind ∈ [TokenKind.integer, .decimal, .character, .string]) :
    literal? token =
      match token.kind with
      | .integer => some ((readInteger token.text).map .integer)
      | .decimal => some ((Decimal.read token.text).map .decimal)
      | .character => some (.ok (.character (quotedText token.text)))
      | .string => some (.ok (.string (quotedText token.text)))
      | .identifier | .operator => none := by
  apply literal?_of_free
  apply genuine.text_notMem
  simp only [List.mem_cons, List.not_mem_nil, or_false] at kind
  rcases kind with kind | kind | kind | kind <;> rw [kind] <;> decide

/-- A genuine integer is the literal of the integer that it denotes, if it is legible. -/
theorem literal?_integer (genuine : token.Genuine) (kind : token.kind = .integer) :
    literal? token =
      if token.figures ≤ digitLimit then
        some (.ok (.integer (integerOfLetters token.text.toList)))
      else some (.error (.overlong token.figures)) := by
  rw [literal?_of_class genuine (by simp [kind]), kind]
  simp only [readInteger, genuine.reads_integer kind]
  by_cases short : token.figures ≤ digitLimit
  · rw [if_neg (Nat.not_lt.mpr short), if_pos short]
    rfl
  · rw [if_pos (Nat.not_le.mp short), if_neg short]
    rfl

/-- A genuine decimal is the literal of the number that it denotes. -/
theorem literal?_decimal {number : Decimal} (genuine : token.Genuine)
    (kind : token.kind = .decimal) :
    literal? token = some (.ok (.decimal number)) ↔ Decimal.ofText? token.text = some number := by
  obtain ⟨found, denoted, read⟩ := genuine.read_decimal kind
  rw [literal?_of_class genuine (by simp [kind]), kind, denoted]
  simp [read, Except.map]

/-- Only tokens of a class of numbers can give no number. -/
theorem spoiled_of_literal {fault : NumeralFault} (read : literal? token = some (.error fault)) :
    token.Spoiled fault := by
  unfold literal? at read
  split at read
  · cases read
  split at read
  · cases read
  split at read
  · cases read
  cases kind : token.kind with
  | integer =>
    cases number : readInteger token.text with
    | ok _ => simp [kind, number, Except.map] at read
    | error other =>
      simp only [kind, number, Except.map, Option.some.injEq, Except.error.injEq] at read
      exact .inl ⟨kind, read ▸ number⟩
  | decimal =>
    cases number : Decimal.read token.text with
    | ok _ => simp [kind, number, Except.map] at read
    | error other =>
      simp only [kind, number, Except.map, Option.some.injEq, Except.error.injEq] at read
      exact .inr ⟨kind, read ▸ number⟩
  | _ => simp [kind] at read

/-- The only numerals of the language that give no number are integers with too many digits. -/
theorem literal?_error_iff {fault : NumeralFault} (genuine : token.Genuine) :
    literal? token = some (.error fault) ↔
      ¬ token.Legible ∧ fault = .overlong token.figures := by
  constructor
  · intro spoiled
    rcases spoiled_of_literal spoiled with ⟨kind, _⟩ | ⟨kind, refused⟩
    · rw [literal?_integer genuine kind] at spoiled
      split at spoiled
      · cases spoiled
      · next long =>
        cases spoiled
        exact ⟨fun legible => long (legible kind), rfl⟩
    · obtain ⟨number, _, read⟩ := genuine.read_decimal kind
      rw [read] at refused
      cases refused
  · rintro ⟨illegible, rfl⟩
    obtain ⟨kind, long⟩ := Classical.not_imp.mp illegible
    rw [literal?_integer genuine kind, if_neg long]

/-- What is read as a literal is legible. -/
theorem legible_of_literal {literal : Literal} (genuine : token.Genuine)
    (read : literal? token = some (.ok literal)) : token.Legible := by
  by_contra illegible
  rw [(literal?_error_iff genuine).mpr ⟨illegible, rfl⟩] at read
  cases read

/-- An integer that a token denotes is the only one, and a legible token is read as it. -/
theorem literal?_readable {number : Int} (readable : token.Readable)
    (kind : token.kind = .integer) (denoted : Phrase.Denotes token.text number) :
    literal? token = some (.ok (.integer number)) := by
  rw [literal?_integer readable.genuine kind, if_pos (readable.legible kind),
    (readable.genuine.denotes_iff kind).mp denoted]

/-- The words that the grammar asks for by their text. -/
def knownWords : List String :=
  Token.marks ++ levels.flatten ++
    ["LIST", "VAR", "VAL", "FUN", "DO", "END", "LET", "SWITCH", "IF", "WHILE", "RETURN", "ELSE",
      "CASE", "DEFAULT"]

/-- A word of the grammar has no digits in it. -/
theorem legible_of_word (word : token.text ∈ knownWords) : token.Legible :=
  fun _ => (by decide : ∀ word ∈ knownWords, word.toList.countP Char.isDigit ≤ digitLimit) _ word

/-! ## Overlong integers -/

/-- So many ones. -/
def ones (count : Nat) : String :=
  String.ofList (List.replicate count '1')

/-- At least one of them is an integer. -/
theorem ones_member (more : Nat) : TokenKind.Member .integer (List.replicate (more + 1) '1') :=
  .integer (.plain (.digits (by decide) (by decide) fun digit member => by
    rw [List.eq_of_mem_replicate member]
    decide))

/-- Ones alone are one token. -/
theorem ones_lexed (more : Nat) :
    Token.ofText (ones (more + 1)) = .ok [⟨.integer, ones (more + 1), 0⟩] :=
  Token.ofText_member (by simpa [ones] using ones_member more)

/-- The ones are the digits of their token. -/
theorem ones_figures (count offset : Nat) :
    (⟨.integer, ones count, offset⟩ : Token).figures = count := by
  simp [Token.figures, ones, List.countP_replicate]

/-- More ones than may be read give no integer. -/
theorem ones_overlong (more : Nat) (long : digitLimit < more + 1) (offset : Nat) :
    literal? ⟨.integer, ones (more + 1), offset⟩ = some (.error (.overlong (more + 1))) := by
  have member : TokenKind.Member .integer (ones (more + 1)).toList := by
    simpa [ones] using ones_member more
  have genuine : (⟨.integer, ones (more + 1), offset⟩ : Token).Genuine :=
    ⟨_, TokenKind.member_iff_whole.mp member⟩
  have counted := ones_figures (more + 1) offset
  refine (literal?_error_iff genuine).mpr ⟨fun legible => ?_, by rw [counted]⟩
  have short := legible rfl
  omega

end Grammar

end Blockscript
