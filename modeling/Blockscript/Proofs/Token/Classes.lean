import Blockscript.Token.Lexer
import Mathlib

/-!
# The classes of tokens as languages

Which texts belong to a class, said of whole texts and without any way of reading them.
Against this stands what is read: a class takes its longest member from the front of a
text, or nothing when none of its members stands there.

The order of the classes is no rule of its own. Only numbers and operators have members
that begin alike, and wherever two of these classes have members at the front of a text
the one that is tried first has the longer one. So the first class that reads something
reads the longest member of any class, and no text belongs to two of them.
-/

namespace Blockscript.TokenKind

/-! ## Membership -/

/-- A zero, or digits of which the first is another one. -/
inductive WholeNumber : List Char → Prop where
  | zero : WholeNumber ['0']
  | digits {first : Char} {rest : List Char} :
      first.isDigit = true → first ≠ '0' → (∀ digit ∈ rest, digit.isDigit = true) →
      WholeNumber (first :: rest)

/-- A whole number, perhaps behind a minus sign. -/
inductive SignedNumber : List Char → Prop where
  | plain {letters : List Char} : WholeNumber letters → SignedNumber letters
  | negative {letters : List Char} : WholeNumber letters → SignedNumber ('-' :: letters)

/-- What may stand between double quotes: on one line, characters that need no escape
sequence, and escape sequences. -/
inductive Quotable : List Char → Prop where
  | empty : Quotable []
  | plain {single : Char} {rest : List Char} :
      single ∉ ['"', '\\', '\n', '\r'] → Quotable rest → Quotable (single :: rest)
  | escape {letter : Char} {rest : List Char} :
      Text.isEscapeLetter letter = true → Quotable rest → Quotable ('\\' :: letter :: rest)

/-- The operators of two characters. -/
def pairs : List (List Char) :=
  [['!', '='], ['=', '='], ['&', '&'], ['|', '|']]

/-- The texts of a class. -/
inductive Member : TokenKind → List Char → Prop where
  | identifier {first : Char} {rest : List Char} :
      startsName first = true → (∀ letter ∈ rest, continuesName letter = true) →
      Member .identifier (first :: rest)
  | integer {letters : List Char} : SignedNumber letters → Member .integer letters
  | decimal {whole : List Char} {first : Char} {rest : List Char} :
      SignedNumber whole → first.isDigit = true → (∀ digit ∈ rest, digit.isDigit = true) →
      Member .decimal (whole ++ '.' :: first :: rest)
  | character {single : Char} :
      isPlain single = true → Member .character ['\'', single, '\'']
  | escape {letter : Char} :
      Text.isEscapeLetter letter = true → Member .character ['\'', '\\', letter, '\'']
  | string {inside : List Char} :
      Quotable inside → Member .string ('"' :: inside ++ ['"'])
  | pair {letters : List Char} : letters ∈ pairs → Member .operator letters
  | operator {mark : Char} : isOperator mark = true → Member .operator [mark]

variable {kind other : TokenKind} {letters lexeme text rest : List Char}

/-- Whether a member of the class may begin with the character. -/
def opens : TokenKind → Char → Bool
  | identifier, first => startsName first
  | integer, first => first = '-' || first.isDigit
  | decimal, first => first = '-' || first.isDigit
  | character, first => first = '\''
  | string, first => first = '"'
  | operator, first => isOperator first

/-! ## Numbers -/

/-- What is read as a whole number is one, and stands at the front. -/
theorem wholeLexeme?_member (read : wholeLexeme? letters = some lexeme) :
    WholeNumber lexeme ∧ lexeme <+: letters := by
  cases letters with
  | nil => simp [wholeLexeme?] at read
  | cons first rest =>
    by_cases zero : first = '0'
    · rw [wholeLexeme?, if_pos zero] at read
      cases read
      subst zero
      exact ⟨.zero, rest, rfl⟩
    · rw [wholeLexeme?, if_neg zero] at read
      by_cases digit : first.isDigit
      · rw [if_pos digit] at read
        cases read
        refine ⟨.digits digit zero fun _ => List.mem_takeWhile_imp, ?_⟩
        exact List.cons_prefix_cons.mpr ⟨rfl, List.takeWhile_prefix _⟩
      · rw [if_neg digit] at read
        cases read

/-- A whole number goes on as long as there are digits, unless it is a zero. -/
theorem wholeLexeme?_append (number : WholeNumber text) (rest : List Char) :
    ∃ more, wholeLexeme? (text ++ rest) = some (text ++ more) ∧
      more <+: rest.takeWhile Char.isDigit := by
  cases number with
  | zero => exact ⟨[], by simp [wholeLexeme?], List.nil_prefix⟩
  | @digits first digits digit zero all =>
    refine ⟨rest.takeWhile Char.isDigit, ?_, List.prefix_rfl⟩
    rw [List.cons_append, wholeLexeme?, if_neg zero, if_pos digit,
      List.takeWhile_append_of_pos all, List.cons_append]

/-- A whole number begins with a digit. -/
theorem WholeNumber.head (number : WholeNumber text) :
    ∃ first rest, text = first :: rest ∧ first.isDigit = true := by
  cases number with
  | zero => exact ⟨_, _, rfl, by decide⟩
  | digits digit _ _ => exact ⟨_, _, rfl, digit⟩

/-- A whole number consists of digits. -/
theorem WholeNumber.allDigits (number : WholeNumber text) :
    ∀ digit ∈ text, digit.isDigit = true := by
  cases number with
  | zero => exact List.forall_mem_singleton.mpr (by decide)
  | digits first _ rest => exact List.forall_mem_cons.mpr ⟨first, rest⟩

/-- A number with a sign or without begins with the sign or a digit. -/
theorem SignedNumber.begins (number : SignedNumber text) :
    ∃ first rest, text = first :: rest ∧ (first = '-' || first.isDigit) = true := by
  cases number with
  | plain number =>
    obtain ⟨first, rest, rfl, digit⟩ := number.head
    exact ⟨first, rest, rfl, by simp [digit]⟩
  | negative _ => exact ⟨_, _, rfl, rfl⟩

/-- No number without a fraction has a point. -/
theorem SignedNumber.point_notMem (number : SignedNumber text) : '.' ∉ text := by
  have whole {digits : List Char} (number : WholeNumber digits) : '.' ∉ digits :=
    fun member => absurd (number.allDigits '.' member) (by decide)
  cases number with
  | plain number => exact whole number
  | negative number => simpa using whole number

/-- What is read as an integer is one, and stands at the front. -/
theorem integerLexeme?_member (read : integerLexeme? letters = some lexeme) :
    SignedNumber lexeme ∧ lexeme <+: letters := by
  unfold integerLexeme? at read
  split at read
  · obtain ⟨digits, whole, rfl⟩ := Option.map_eq_some_iff.mp read
    obtain ⟨number, front⟩ := wholeLexeme?_member whole
    exact ⟨.negative number, List.cons_prefix_cons.mpr ⟨rfl, front⟩⟩
  · obtain ⟨number, front⟩ := wholeLexeme?_member read
    exact ⟨.plain number, front⟩

/-- An integer at the front is read, with the digits that follow it. -/
theorem integerLexeme?_append (number : SignedNumber text) (rest : List Char) :
    ∃ more, integerLexeme? (text ++ rest) = some (text ++ more) ∧
      more <+: rest.takeWhile Char.isDigit := by
  cases number with
  | plain whole =>
    obtain ⟨more, read, digits⟩ := wholeLexeme?_append whole rest
    obtain ⟨first, others, rfl, digit⟩ := whole.head
    refine ⟨more, ?_, digits⟩
    unfold integerLexeme?
    split
    · next minus =>
      cases minus
      cases digit
    · exact read
  | negative whole =>
    obtain ⟨more, read, digits⟩ := wholeLexeme?_append whole rest
    exact ⟨more, by simp [integerLexeme?, read], digits⟩

/-- Before a point a number ends. -/
theorem integerLexeme?_point (number : SignedNumber text) (rest : List Char) :
    integerLexeme? (text ++ '.' :: rest) = some text := by
  obtain ⟨more, read, digits⟩ := integerLexeme?_append number ('.' :: rest)
  rw [List.takeWhile_cons_of_neg (by decide)] at digits
  rw [read, List.prefix_nil.mp digits, List.append_nil]

/-- A fraction is a point with digits behind it, one at least. -/
theorem fractionLexeme?_member (read : fractionLexeme? letters = some lexeme) :
    ∃ first rest, lexeme = '.' :: first :: rest ∧ first.isDigit = true ∧
      (∀ digit ∈ rest, digit.isDigit = true) ∧ lexeme <+: letters := by
  unfold fractionLexeme? at read
  split at read
  · split at read
    · next digit =>
      cases read
      refine ⟨_, _, rfl, digit, fun _ => List.mem_takeWhile_imp, ?_⟩
      simp only [List.cons_prefix_cons, true_and]
      exact List.takeWhile_prefix _
    · cases read
  · cases read

/-! ## Quotes -/

/-- A string literal ends at the first quote that no backslash stands before. -/
theorem stringTail?_member (read : stringTail? letters = some lexeme) :
    ∃ inside, lexeme = inside ++ ['"'] ∧ Quotable inside ∧ lexeme <+: letters := by
  fun_induction stringTail? letters generalizing lexeme with
  | case1 => cases read
  | case2 rest =>
    cases read
    exact ⟨[], rfl, .empty, rest, rfl⟩
  | case3 letter rest escape inductionHypothesis =>
    obtain ⟨tail, later, rfl⟩ := Option.map_eq_some_iff.mp read
    obtain ⟨inside, rfl, quotable, front⟩ := inductionHypothesis later
    exact ⟨'\\' :: letter :: inside, rfl, .escape escape quotable, by simpa using front⟩
  | case4 => cases read
  | case5 => cases read
  | case6 single rest quote backslash plain inductionHypothesis =>
    obtain ⟨tail, later, rfl⟩ := Option.map_eq_some_iff.mp read
    obtain ⟨inside, rfl, quotable, front⟩ := inductionHypothesis later
    refine ⟨single :: inside, rfl, .plain ?_ quotable, by simpa using front⟩
    have other : single ≠ '"' := quote
    simpa [other, and_assoc] using plain

/-- What may stand in a string is read up to the quote. -/
theorem stringTail?_append (quotable : Quotable text) (rest : List Char) :
    stringTail? (text ++ '"' :: rest) = some (text ++ ['"']) := by
  induction quotable with
  | empty => rfl
  | @plain single inside free _ inductionHypothesis =>
    simp only [List.mem_cons, List.not_mem_nil, or_false, not_or] at free
    obtain ⟨quote, backslash, feed, carriage⟩ := free
    simp [stringTail?, backslash, feed, carriage, inductionHypothesis]
  | escape letter _ inductionHypothesis =>
    simp [stringTail?, letter, inductionHypothesis]

/-! ## What a class reads -/

/-- A class reads its members only, from the front of a text. -/
theorem lexeme?_member (read : kind.lexeme? letters = some lexeme) :
    kind.Member lexeme ∧ lexeme <+: letters := by
  cases kind with
  | identifier =>
    cases letters with
    | nil => simp [lexeme?, identifierLexeme?] at read
    | cons first rest =>
      simp only [lexeme?, identifierLexeme?] at read
      split at read
      · next starts =>
        cases read
        refine ⟨.identifier starts fun _ => List.mem_takeWhile_imp, ?_⟩
        exact List.cons_prefix_cons.mpr ⟨rfl, List.takeWhile_prefix _⟩
      · cases read
  | integer =>
    obtain ⟨number, front⟩ := integerLexeme?_member read
    exact ⟨.integer number, front⟩
  | decimal =>
    obtain ⟨whole, ahead, back⟩ := Option.bind_eq_some_iff.mp read
    obtain ⟨fraction, behind, rfl⟩ := Option.map_eq_some_iff.mp back
    obtain ⟨number, rest, rfl⟩ := integerLexeme?_member ahead
    rw [List.drop_left] at behind
    obtain ⟨first, others, rfl, digit, digits, front⟩ := fractionLexeme?_member behind
    exact ⟨.decimal number digit digits, (List.prefix_append_right_inj whole).mpr front⟩
  | character =>
    simp only [lexeme?, characterLexeme?] at read
    split at read
    · split at read
      · next letter rest escape =>
        cases read
        exact ⟨.escape escape, rest, rfl⟩
      · cases read
    · split at read
      · next single rest _ plain =>
        cases read
        exact ⟨.character plain, rest, rfl⟩
      · cases read
    · cases read
  | string =>
    simp only [lexeme?, stringLexeme?] at read
    split at read
    · obtain ⟨tail, behind, rfl⟩ := Option.map_eq_some_iff.mp read
      obtain ⟨inside, rfl, quotable, front⟩ := stringTail?_member behind
      exact ⟨.string quotable, List.cons_prefix_cons.mpr ⟨rfl, front⟩⟩
    · cases read
  | operator =>
    simp only [lexeme?, operatorLexeme?] at read
    split at read
    · cases read
      exact ⟨.pair (by decide), _, rfl⟩
    · cases read
      exact ⟨.pair (by decide), _, rfl⟩
    · cases read
      exact ⟨.pair (by decide), _, rfl⟩
    · cases read
      exact ⟨.pair (by decide), _, rfl⟩
    · split at read
      · next mark rest _ _ _ _ allowed =>
        cases read
        exact ⟨.operator allowed, rest, rfl⟩
      · cases read
    · cases read

/-- A class that has a member at the front of a text reads one that goes on from it. -/
theorem Member.read (member : kind.Member text) (rest : List Char) :
    ∃ more, kind.lexeme? (text ++ rest) = some (text ++ more) := by
  cases member with
  | identifier starts all =>
    refine ⟨rest.takeWhile continuesName, ?_⟩
    simp [lexeme?, identifierLexeme?, starts, List.takeWhile_append_of_pos all]
  | integer number =>
    obtain ⟨more, read, _⟩ := integerLexeme?_append number rest
    exact ⟨more, read⟩
  | @decimal whole first digits number digit all =>
    refine ⟨rest.takeWhile Char.isDigit, ?_⟩
    have ahead := integerLexeme?_point number (first :: (digits ++ rest))
    have shape : whole ++ '.' :: first :: digits ++ rest =
        whole ++ '.' :: first :: (digits ++ rest) := by
      simp
    simp [lexeme?, decimalLexeme?, shape, ahead, fractionLexeme?, digit,
      List.takeWhile_append_of_pos all]
  | @character single plain =>
    refine ⟨[], ?_⟩
    have other : single ≠ '\\' := by
      rintro rfl
      cases plain
    simp [lexeme?, characterLexeme?, other, plain]
  | escape letter => exact ⟨[], by simp [lexeme?, characterLexeme?, letter]⟩
  | @string inside quotable =>
    refine ⟨[], ?_⟩
    simp [lexeme?, stringLexeme?, stringTail?_append quotable]
  | pair member =>
    refine ⟨[], ?_⟩
    simp only [pairs, List.mem_cons, List.not_mem_nil, or_false] at member
    rcases member with rfl | rfl | rfl | rfl <;> rfl
  | @operator mark allowed =>
    -- Behind an operator of one character there may be the second one of a pair.
    simp only [lexeme?, List.singleton_append, operatorLexeme?]
    split
    · next same =>
      cases same
      exact ⟨_, rfl⟩
    · next same =>
      cases same
      exact ⟨_, rfl⟩
    · next same =>
      cases same
      exact ⟨_, rfl⟩
    · next same =>
      cases same
      exact ⟨_, rfl⟩
    · next same =>
      cases same
      exact ⟨[], if_pos allowed⟩
    · next none => cases none

/-! ## Classes apart -/

/-- A member of a class begins as its class allows. -/
theorem Member.begins (member : kind.Member text) :
    ∃ first rest, text = first :: rest ∧ kind.opens first = true := by
  cases member with
  | identifier starts _ => exact ⟨_, _, rfl, starts⟩
  | integer number => exact number.begins
  | decimal number _ _ =>
    obtain ⟨first, rest, rfl, opens⟩ := number.begins
    exact ⟨first, _, rfl, opens⟩
  | character _ => exact ⟨_, _, rfl, rfl⟩
  | escape _ => exact ⟨_, _, rfl, rfl⟩
  | string _ => exact ⟨_, _, rfl, rfl⟩
  | pair member =>
    simp only [pairs, List.mem_cons, List.not_mem_nil, or_false] at member
    rcases member with rfl | rfl | rfl | rfl <;> exact ⟨_, _, rfl, by decide⟩
  | operator allowed => exact ⟨_, _, rfl, allowed⟩

/-- No class has the empty text. -/
theorem Member.ne_nil (member : kind.Member text) : text ≠ [] := by
  obtain ⟨first, rest, rfl, _⟩ := member.begins
  exact List.cons_ne_nil first rest

/-- A member of a class begins with a character that opens it. -/
theorem Member.opens {first : Char} (member : kind.Member (first :: rest)) :
    kind.opens first = true := by
  obtain ⟨_, _, ⟨⟩, opens⟩ := member.begins
  exact opens

/-- The classes that begin alike. -/
def alike : List TokenKind :=
  [integer, decimal, operator]

/-- No digit begins a name. -/
theorem startsName_digit {digit : Char} (isDigit : digit.isDigit = true) :
    startsName digit = false := by
  have other : digit ≠ '@' := by
    rintro rfl
    cases isDigit
  simp [startsName, other, Char.isDigit, Char.isAlpha, Char.isUpper, Char.isLower,
    UInt32.le_iff_toNat_le] at isDigit ⊢
  omega

/-- An operator is what is not blank and begins nothing else, underscores apart. -/
theorem isOperator_iff {mark : Char} : isOperator mark = true ↔
    Text.isBlank mark = false ∧ startsName mark = false ∧ mark.isDigit = false ∧
      mark ∉ ['\'', '"', '_'] := by
  simp only [isOperator, startsName, Char.isAlphanum, Bool.and_eq_true, Bool.not_eq_true',
    Bool.or_eq_false_iff, decide_eq_true_eq, decide_eq_false_iff_not, List.mem_cons,
    List.not_mem_nil, or_false, not_or]
  grind

/-- Nothing but a name begins like a name. -/
theorem opens_name {first : Char} (name : startsName first = true)
    (opens : kind.opens first = true) : kind = identifier := by
  have other (single : Char) (apart : startsName single = false) : first ≠ single := by
    rintro rfl
    rw [apart] at name
    cases name
  have digit : first.isDigit = false := by
    by_contra digit
    rw [startsName_digit (by simpa using digit)] at name
    cases name
  cases kind with
  | identifier => rfl
  | integer => simp [TokenKind.opens, digit, other '-' (by decide)] at opens
  | decimal => simp [TokenKind.opens, digit, other '-' (by decide)] at opens
  | character => simp [TokenKind.opens, other '\'' (by decide)] at opens
  | string => simp [TokenKind.opens, other '"' (by decide)] at opens
  | operator =>
    obtain ⟨_, apart, _⟩ := isOperator_iff.mp opens
    rw [apart] at name
    cases name

/-- No token begins with a blank character. -/
theorem opens_dark {first : Char} (opens : kind.opens first = true) :
    Text.isBlank first = false := by
  by_contra blank
  have ranges : ∃ range ∈ Text.blankRanges, range.1 ≤ first.toNat ∧ first.toNat ≤ range.2 := by
    simpa [Text.isBlank] using blank
  have sign : first ≠ '-' ∧ first ≠ '@' := by
    constructor
    · rintro rfl
      exact blank (by decide)
    · rintro rfl
      exact blank (by decide)
  have number : first.isDigit = false := by
    by_contra digit
    simp [Text.blankRanges, Char.isDigit, UInt32.le_iff_toNat_le] at digit ranges
    omega
  cases kind with
  | identifier =>
    simp [TokenKind.opens, startsName, sign, Char.isAlpha, Char.isUpper, Char.isLower,
      UInt32.le_iff_toNat_le, Text.blankRanges] at opens ranges
    omega
  | integer => simp [TokenKind.opens, number, sign] at opens
  | decimal => simp [TokenKind.opens, number, sign] at opens
  | character =>
    simp only [TokenKind.opens, decide_eq_true_eq] at opens
    exact blank (opens ▸ by decide)
  | string =>
    simp only [TokenKind.opens, decide_eq_true_eq] at opens
    exact blank (opens ▸ by decide)
  | operator => exact blank (isOperator_iff.mp opens).1

/-- Two classes that may begin with the same character are numbers or operators, or the
same class. -/
theorem opens_alike {first : Char} (one : kind.opens first = true)
    (two : other.opens first = true) : kind = other ∨ kind ∈ alike ∧ other ∈ alike := by
  by_cases name : startsName first = true
  · exact .inl ((opens_name name one).trans (opens_name name two).symm)
  · have single : isOperator '\'' = false := by decide
    have double : isOperator '"' = false := by decide
    cases kind <;> cases other <;> simp_all [alike, opens]

/-- Members of two classes begin alike only if these are numbers and operators. -/
theorem Member.alike (one : kind.Member text) (two : other.Member lexeme)
    (front : text <+: letters) (again : lexeme <+: letters) :
    kind = other ∨ kind ∈ alike ∧ other ∈ alike := by
  obtain ⟨first, rest, rfl⟩ := List.exists_cons_of_ne_nil one.ne_nil
  obtain ⟨begins, others, rfl⟩ := List.exists_cons_of_ne_nil two.ne_nil
  obtain ⟨_, rfl⟩ := front
  obtain ⟨rfl, _⟩ := List.cons_prefix_cons.mp again
  exact opens_alike one.opens two.opens

/-- An operator that begins like a number is a minus sign. -/
theorem Member.operator_sign (operator : TokenKind.operator.Member lexeme)
    (number : TokenKind.integer.Member text ∨ TokenKind.decimal.Member text)
    (front : text <+: letters) (again : lexeme <+: letters) : lexeme = ['-'] := by
  obtain ⟨first, rest, rfl⟩ := List.exists_cons_of_ne_nil operator.ne_nil
  have sign : first = '-' := by
    have opens : (first = '-' || first.isDigit) = true := by
      obtain ⟨tail, rfl⟩ := again
      rcases number with number | number
      · obtain ⟨begins, others, rfl⟩ := List.exists_cons_of_ne_nil number.ne_nil
        obtain ⟨rfl, _⟩ := List.cons_prefix_cons.mp front
        exact number.opens
      · obtain ⟨begins, others, rfl⟩ := List.exists_cons_of_ne_nil number.ne_nil
        obtain ⟨rfl, _⟩ := List.cons_prefix_cons.mp front
        exact number.opens
    obtain ⟨_, _, digit, _⟩ := isOperator_iff.mp operator.opens
    simpa [digit] using opens
  subst sign
  cases operator with
  | pair member => simp [pairs] at member
  | operator _ => rfl

/-- A text belongs to one class at most. -/
theorem Member.unique (one : kind.Member text) (two : other.Member text) : kind = other := by
  have number (integer : TokenKind.integer.Member text) (decimal : TokenKind.decimal.Member text) :
      False := by
    cases integer with
    | integer whole =>
      cases decimal with
      | decimal _ _ _ => exact whole.point_notMem (by simp)
  have sign (operator : TokenKind.operator.Member text)
      (number : TokenKind.integer.Member text ∨ TokenKind.decimal.Member text) : False := by
    obtain rfl := operator.operator_sign number List.prefix_rfl List.prefix_rfl
    rcases number with integer | decimal
    · obtain ⟨more, read⟩ := integer.read []
      cases read
    · obtain ⟨more, read⟩ := decimal.read []
      cases read
  rcases one.alike two List.prefix_rfl List.prefix_rfl with same | ⟨first, second⟩
  · exact same
  · simp only [TokenKind.alike, List.mem_cons, List.not_mem_nil, or_false] at first second
    rcases first with rfl | rfl | rfl <;> rcases second with rfl | rfl | rfl
    · rfl
    · exact (number one two).elim
    · exact (sign two (.inl one)).elim
    · exact (number two one).elim
    · rfl
    · exact (sign two (.inr one)).elim
    · exact (sign one (.inl two)).elim
    · exact (sign one (.inr two)).elim
    · rfl

/-! ## The first class that reads something -/

/-- A class is asked only when those before it have read nothing. -/
theorem first?_asked (read : first? letters = some (kind, lexeme)) :
    kind.lexeme? letters = some lexeme ∧
      (kind ≠ .decimal → decimalLexeme? letters = none) ∧
      (kind ∉ [TokenKind.decimal, .integer] → integerLexeme? letters = none) := by
  refine ⟨?_, ?_, ?_⟩
  · obtain ⟨_, _, found⟩ := List.exists_of_findSome?_eq_some read
    obtain ⟨_, read, same⟩ := Option.map_eq_some_iff.mp found
    cases same
    exact read
  · intro later
    by_contra some
    obtain ⟨number, decimal⟩ := Option.ne_none_iff_exists'.mp some
    simp only [first?, byPrecedence, List.findSome?_cons, lexeme?, decimal, Option.map_some,
      Option.some.injEq, Prod.mk.injEq] at read
    exact later read.1.symm
  · intro later
    by_contra some
    obtain ⟨number, integer⟩ := Option.ne_none_iff_exists'.mp some
    cases decimal : decimalLexeme? letters <;>
      simp only [first?, byPrecedence, List.findSome?_cons, lexeme?, decimal, integer,
        Option.map_some, Option.map_none, Option.some.injEq, Prod.mk.injEq] at read
    · exact later (by simp [← read.1])
    · exact later (by simp [← read.1])

/-- A class that has a member at the front of a text reads one at least as long. -/
theorem Member.read_prefix (member : kind.Member text) (front : text <+: letters) :
    ∃ lexeme, kind.lexeme? letters = some lexeme ∧ text.length ≤ lexeme.length := by
  obtain ⟨rest, rfl⟩ := front
  obtain ⟨more, read⟩ := member.read rest
  exact ⟨_, read, by simp⟩

/-- A decimal is longer than the integer it begins with. -/
theorem integer_le_decimal {number : List Char} (decimal : decimalLexeme? letters = some lexeme)
    (integer : integerLexeme? letters = some number) : number.length ≤ lexeme.length := by
  obtain ⟨whole, ahead, back⟩ := Option.bind_eq_some_iff.mp decimal
  obtain ⟨fraction, _, rfl⟩ := Option.map_eq_some_iff.mp back
  cases ahead.symm.trans integer
  simp

/-- What is read is the longest member of any class at the front of the text. -/
theorem first?_longest (read : first? letters = some (kind, lexeme)) (member : other.Member text)
    (front : text <+: letters) : text.length ≤ lexeme.length := by
  obtain ⟨taken, noDecimal, noInteger⟩ := first?_asked read
  obtain ⟨longer, again, below⟩ := member.read_prefix front
  obtain ⟨one, ahead⟩ := lexeme?_member taken
  have sign (operator : TokenKind.operator.Member text)
      (number : TokenKind.integer.Member lexeme ∨ TokenKind.decimal.Member lexeme) :
      text.length ≤ lexeme.length := by
    rw [operator.operator_sign number ahead front]
    exact List.length_pos_iff.mpr one.ne_nil
  rcases one.alike member ahead front with rfl | ⟨first, second⟩
  · cases taken.symm.trans again
    exact below
  · simp only [TokenKind.alike, List.mem_cons, List.not_mem_nil, or_false] at first second
    -- A class that comes before has nothing here, and what comes behind a number is shorter.
    rcases first with rfl | rfl | rfl <;> rcases second with rfl | rfl | rfl
    · cases taken.symm.trans again
      exact below
    · cases (noDecimal (by decide)).symm.trans again
    · exact sign member (.inl one)
    · exact below.trans (integer_le_decimal taken again)
    · cases taken.symm.trans again
      exact below
    · exact sign member (.inr one)
    · cases (noInteger (by decide)).symm.trans again
    · cases (noDecimal (by decide)).symm.trans again
    · cases taken.symm.trans again
      exact below

/-- Nothing is read exactly where no member of any class stands. -/
theorem first?_eq_none_iff : first? letters = none ↔
    ∀ kind text, Member kind text → ¬ text <+: letters := by
  have every : ∀ kind, kind ∈ byPrecedence := by
    intro kind
    cases kind <;> decide
  simp only [first?, List.findSome?_eq_none_iff, Option.map_eq_none_iff]
  constructor
  · intro none kind text member front
    obtain ⟨lexeme, read, _⟩ := member.read_prefix front
    cases (none kind (every kind)).symm.trans read
  · intro free kind _
    by_contra some
    obtain ⟨lexeme, read⟩ := Option.ne_none_iff_exists'.mp some
    obtain ⟨member, front⟩ := lexeme?_member read
    exact free kind lexeme member front

/-- The characters that are not blank and begin no token by themselves. -/
def stuck : List Char :=
  ['\'', '"', '_']

/-- Where nothing is read there stands a blank character, a quote or an underscore. -/
theorem first?_stuck {first : Char} (dark : Text.isBlank first = false)
    (none : first? (first :: rest) = none) : first ∈ stuck := by
  have free := first?_eq_none_iff.mp none
  have single : ∀ kind : TokenKind, ¬ kind.Member [first] :=
    fun kind member => free kind [first] member ⟨rest, rfl⟩
  have name : startsName first = false := by
    by_contra name
    exact single .identifier (.identifier (by simpa using name) (by simp))
  have digit : first.isDigit = false := by
    by_contra digit
    by_cases zero : first = '0'
    · exact single .integer (zero ▸ .integer (.plain .zero))
    · exact single .integer (.integer (.plain (.digits (by simpa using digit) zero (by simp))))
  by_contra other
  exact single .operator (.operator (isOperator_iff.mpr ⟨dark, name, digit, other⟩))

end Blockscript.TokenKind
