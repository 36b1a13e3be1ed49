import Blockscript.Proofs.Grammar.Written
import Blockscript.Proofs.Java.Reading
import Blockscript.Proofs.Java.Texts
import Blockscript.Proofs.Token.Classes

/-!
# The words of an emitted expression

How Java takes the text of an expression apart. Blanks and marks end a word, quotes
enclose one, and a mark right behind a name opens something of that name. A hyphen
behind a name is a minus sign, since no name of Java has one in it; elsewhere it belongs
to a number.

An expression is emitted as the words of its tree, as long as its names have no hyphen.
-/

namespace Blockscript.Java

/-! ## From a text to words -/

/-- Whether the letters begin a name. -/
def beginsName (letters : List Char) : Bool :=
  letters.head?.any TokenKind.startsName

/-- The word of letters that stand together. -/
def Word.ofLetters (letters : List Char) : Word :=
  if String.ofList letters ∈ levels.flatten then .operator (String.ofList letters)
  else .operand (String.ofList letters)

/-- The word that letters are when they end, if there are any. -/
def pending (letters : List Char) : List Word :=
  if letters.isEmpty then [] else [.ofLetters letters]

/-- The words that a mark behind letters completes, if it is one that ends them. -/
def completed? (letters : List Char) : Char → Option (List Word)
  | ' ' => some (pending letters)
  | ',' => some (pending letters ++ [.comma])
  | ')' => some (pending letters ++ [.closing ')'])
  | ']' => some (pending letters ++ [.closing ']'])
  | '\x7d' => some (pending letters ++ [.closing '\x7d'])
  | '\x7b' => some (pending letters ++ [.opening .braces])
  | '(' =>
    some [.opening (if letters.isEmpty then .group else .call (String.ofList letters))]
  | '[' => some [.opening (.index (String.ofList letters))]
  | '-' => if beginsName letters then some (pending letters ++ [.operator "-"]) else none
  | _ => none

/-- Whether a character begins and ends a literal. -/
def isQuote (mark : Char) : Bool :=
  mark = '"' || mark = '\''

/-- Where a text has been taken apart to: the letters since the last word, or those of
a literal since its quote, perhaps behind a backslash. -/
inductive Place where
  | outside (letters : List Char)
  | quoted (quote : Char) (letters : List Char)
  | escaped (quote : Char) (letters : List Char)

/-- The words of a text from a place in it on. -/
def scan : Place → List Char → Option (List Word)
  | .outside letters, [] => some (pending letters)
  | .outside letters, mark :: rest =>
    if isQuote mark then
      (scan (.quoted mark [mark]) rest).map (pending letters ++ ·)
    else
      match completed? letters mark with
      | some words => (scan (.outside []) rest).map (words ++ ·)
      | none => scan (.outside (letters ++ [mark])) rest
  | .quoted quote letters, mark :: rest =>
    if mark = quote then
      (scan (.outside []) rest).map (.operand (String.ofList (letters ++ [mark])) :: ·)
    else if mark = '\\' then
      scan (.escaped quote (letters ++ [mark])) rest
    else
      scan (.quoted quote (letters ++ [mark])) rest
  | .escaped quote letters, mark :: rest => scan (.quoted quote (letters ++ [mark])) rest
  | .quoted _ _, [] => none
  | .escaped _ _, [] => none

/-- The tree that Java reads a text as. -/
def read (text : String) : Option Tree :=
  (scan (.outside []) text.toList).bind readWords

/-! ## Letters that stay together -/

/-- The characters that end a word or enclose one. -/
def marks : List Char :=
  [' ', ',', '(', ')', '[', ']', '\x7b', '\x7d', '"', '\'']

/-- Letters that are one word: none of them is a mark, and a name has no hyphen. -/
structure Solid (letters : List Char) : Prop where
  nonempty : letters ≠ []
  unmarked : ∀ letter ∈ letters, letter ∉ marks
  whole : beginsName letters = true → '-' ∉ letters

variable {letters rest : List Char} {behind : List Word}

/-- A letter that is no mark completes nothing, unless it is the hyphen behind a name. -/
theorem completed?_none {letter : Char} (unmarked : letter ∉ marks)
    (whole : beginsName letters = true → letter ≠ '-') : completed? letters letter = none := by
  unfold completed?
  split
  case h_9 => exact if_neg fun name => whole name rfl
  case h_10 => rfl
  all_goals exact absurd (by decide) unmarked

/-- A letter that is no mark is no quote. -/
theorem isQuote_eq_false {letter : Char} (unmarked : letter ∉ marks) : isQuote letter = false := by
  simp only [marks, List.mem_cons, not_or] at unmarked
  simp [isQuote, unmarked]

/-- Letters that stay together go to the letters before them. -/
theorem scan_letters {before : List Char} (unmarked : ∀ letter ∈ letters, letter ∉ marks)
    (whole : beginsName (before ++ letters) = true → '-' ∉ letters) :
    scan (.outside before) (letters ++ rest) = scan (.outside (before ++ letters)) rest := by
  induction letters generalizing before with
  | nil => simp
  | cons letter letters inductionHypothesis =>
    have plain := unmarked letter (by simp)
    have goesOn : completed? before letter = none := by
      apply completed?_none plain
      rintro name rfl
      refine whole ?_ (by simp)
      cases before with
      | nil => cases name
      | cons first others => exact name
    have together : before ++ letter :: letters = before ++ [letter] ++ letters := by simp
    rw [List.cons_append, scan, isQuote_eq_false plain, if_neg Bool.false_ne_true, goesOn]
    rw [together] at whole ⊢
    exact inductionHypothesis (fun other member => unmarked other (by simp [member]))
      fun name member => whole name (by simp [member])

/-- Letters that stay together are gathered without any word being completed. -/
theorem Solid.stays (solid : Solid letters) :
    scan (.outside []) (letters ++ rest) = scan (.outside letters) rest :=
  scan_letters solid.unmarked solid.whole

/-- The characters that stand behind a complete expression. -/
def stops : List Char :=
  [' ', ',', ')', ']', '\x7d']

/-- What comes next ends a word before it. -/
def Stops (rest : List Char) : Prop :=
  ∀ mark ∈ rest.head?, mark ∈ stops

/-- Before what ends a word, letters are a word. -/
theorem scan_pending (stops : Stops rest) (scanned : scan (.outside []) rest = some behind) :
    scan (.outside letters) rest = some (pending letters ++ behind) := by
  cases rest with
  | nil =>
    cases scanned
    rw [scan, pending]
    simp [pending]
  | cons mark rest =>
    have ends := stops mark rfl
    simp only [Java.stops, List.mem_cons, List.not_mem_nil, or_false] at ends
    rcases ends with rfl | rfl | rfl | rfl | rfl
    all_goals
      obtain ⟨words, further, rfl⟩ := Option.map_eq_some_iff.mp scanned
      simp [scan, isQuote, completed?, further, pending]

/-! ## Texts that spell words -/

/-- A text is taken apart into words, whatever comes next and ends it. -/
def Spells (text : String) (words : List Word) : Prop :=
  ∀ rest behind, Stops rest → scan (.outside []) rest = some behind →
    scan (.outside []) (text.toList ++ rest) = some (words ++ behind)

/-- A text opens something. -/
def Opens (text : String) (opening : Opening) : Prop :=
  ∀ rest behind, scan (.outside []) rest = some behind →
    scan (.outside []) (text.toList ++ rest) = some (.opening opening :: behind)

/-- Letters that stay together spell an operand, if they are no operator. -/
theorem Solid.spells {text : String} (solid : Solid text.toList) (operand : text ∉ levels.flatten) :
    Spells text [.operand text] := by
  intro rest behind stops scanned
  rw [solid.stays, scan_pending stops scanned]
  simp [pending, solid.nonempty, Word.ofLetters, operand]

/-- An operator has none of the characters of names and numbers. -/
theorem notMem_levels {text : String} {letter : Char} (member : letter ∈ text.toList)
    (alphanumeric : letter.isAlphanum = true ∨ letter = '@') : text ∉ levels.flatten := by
  intro operator
  have marked : ∀ operator ∈ levels.flatten, ∀ letter ∈ operator.toList,
      letter.isAlphanum = false ∧ letter ≠ '@' := by
    simp [levels]
  obtain ⟨plain, other⟩ := marked text operator letter member
  rcases alphanumeric with alphanumeric | same
  · rw [plain] at alphanumeric
    cases alphanumeric
  · exact other same

/-- A letter that continues a name is no mark. -/
theorem notMem_marks {letter : Char} (continues : TokenKind.continuesName letter = true) :
    letter ∉ marks := by
  intro mark
  have outside : ∀ mark ∈ marks, TokenKind.continuesName mark = false := by
    simp [marks, TokenKind.continuesName]
  rw [outside letter mark] at continues
  cases continues

/-- A letter that begins a name is no mark. -/
theorem startsName_unmarked {letter : Char} (starts : TokenKind.startsName letter = true) :
    letter ∉ marks := by
  intro mark
  have outside : ∀ mark ∈ marks, TokenKind.startsName mark = false := by
    simp [marks, TokenKind.startsName]
  rw [outside letter mark] at starts
  cases starts

/-- A name without a hyphen stays together. -/
theorem solid_name {name : String} (isName : TokenKind.IsName name.toList)
    (unhyphenated : '-' ∉ name.toList) : Solid name.toList := by
  refine ⟨?_, ?_, fun _ => unhyphenated⟩
  · obtain ⟨first, rest, same, _⟩ := isName
    simp [same]
  · obtain ⟨first, rest, same, starts, continues⟩ := isName
    rw [same]
    intro letter member
    rcases List.mem_cons.mp member with rfl | later
    · exact startsName_unmarked starts
    · exact notMem_marks (continues letter later)

/-- A name is no operator. -/
theorem name_notMem_levels {name : String} (isName : TokenKind.IsName name.toList) :
    name ∉ levels.flatten := by
  obtain ⟨first, rest, same, starts, _⟩ := isName
  apply @notMem_levels name first
  · simp [same]
  · simp only [TokenKind.startsName, Bool.or_eq_true, decide_eq_true_eq] at starts
    rcases starts with letter | sign
    · exact .inl (by simp [Char.isAlphanum, letter])
    · exact .inr sign

/-- A name without a hyphen spells an operand. -/
theorem spells_name {name : String} (isName : TokenKind.IsName name.toList)
    (unhyphenated : '-' ∉ name.toList) : Spells name [.operand name] :=
  (solid_name isName unhyphenated).spells (name_notMem_levels isName)

/-! ## Numbers -/

/-- The letters of a number: digits and what may stand between them, a digit or a minus
sign in front. -/
structure Numeral (letters : List Char) : Prop where
  begins : ∃ first rest, letters = first :: rest ∧ (first.isDigit = true ∨ first = '-')
  inside : ∀ letter ∈ letters, letter.isDigit = true ∨ letter ∈ ['.', 'E', '+', '-']
  digit : ∃ letter ∈ letters, letter.isDigit = true

/-- The letters of a number stay together. -/
theorem Numeral.solid (numeral : Numeral letters) : Solid letters := by
  obtain ⟨first, rest, rfl, starts⟩ := numeral.begins
  refine ⟨by simp, ?_, ?_⟩
  · intro letter member mark
    have outside : ∀ mark ∈ marks, mark.isDigit = false ∧ mark ∉ ['.', 'E', '+', '-'] := by
      simp [marks]
    obtain ⟨noDigit, noMark⟩ := outside letter mark
    rcases numeral.inside letter member with digit | other
    · rw [noDigit] at digit
      cases digit
    · exact noMark other
  · intro name
    have letter : TokenKind.startsName first = true := name
    rcases starts with digit | rfl
    · rw [TokenKind.startsName_digit digit] at letter
      cases letter
    · exact absurd letter (by decide)

/-- A number spells an operand. -/
theorem Numeral.spells {text : String} (numeral : Numeral text.toList) :
    Spells text [.operand text] := by
  obtain ⟨letter, member, digit⟩ := numeral.digit
  exact numeral.solid.spells (notMem_levels member (.inl (by simp [Char.isAlphanum, digit])))

/-- Digits, with more behind them. -/
theorem Numeral.digits {digits behind : List Char} (nonempty : digits ≠ [])
    (all : ∀ digit ∈ digits, digit.isDigit = true)
    (others : ∀ letter ∈ behind, letter.isDigit = true ∨ letter ∈ ['.', 'E', '+', '-']) :
    Numeral (digits ++ behind) := by
  obtain ⟨first, rest, rfl⟩ := List.exists_cons_of_ne_nil nonempty
  have digit := all first (by simp)
  refine ⟨⟨first, rest ++ behind, rfl, .inl digit⟩, ?_, ⟨first, by simp, digit⟩⟩
  intro letter member
  rcases List.mem_append.mp member with front | back
  · exact .inl (all letter front)
  · exact others letter back

/-- A minus sign in front of a number. -/
theorem Numeral.negated (numeral : Numeral letters) : Numeral ('-' :: letters) := by
  obtain ⟨letter, member, digit⟩ := numeral.digit
  refine ⟨⟨'-', letters, rfl, .inr rfl⟩, ?_, ⟨letter, by simp [member], digit⟩⟩
  intro other among
  rcases List.mem_cons.mp among with rfl | further
  · exact .inr (by simp)
  · exact numeral.inside other further

/-- The text of an integer is a number. -/
theorem numeral_integerText (number : Int) : Numeral (integerText number) := by
  have digits : Numeral (digitsOf number.natAbs) := by
    simpa using Numeral.digits digitsOf_ne_nil digitsOf_digits (by simp : ∀ letter ∈ [], _)
  unfold integerText
  split
  · exact digits.negated
  · exact digits

/-- Digits with a point among them, and what may stand behind them, are a number. -/
theorem withPoint_numeral {digits behind : List Char} (nonempty : digits ≠ [])
    (all : ∀ digit ∈ digits, digit.isDigit = true)
    (others : ∀ letter ∈ behind, letter.isDigit = true ∨ letter ∈ ['.', 'E', '+', '-'])
    (place : Int) : Numeral (Decimal.withPoint digits place ++ behind) := by
  unfold Decimal.withPoint
  split
  · change Numeral (['0'] ++ ('.' :: (List.replicate (-place).toNat '0' ++ digits) ++ behind))
    refine Numeral.digits (by simp) (by simp) ?_
    intro letter member
    simp only [List.mem_append, List.mem_cons, List.mem_replicate] at member
    rcases member with (rfl | ⟨_, rfl⟩ | digit) | later
    · exact .inr (by simp)
    · exact .inl rfl
    · exact .inl (all letter digit)
    · exact others letter later
  · next positive =>
    split
    · next inside =>
      rw [List.append_assoc]
      refine Numeral.digits ?_ (fun digit member => all digit (List.mem_of_mem_take member)) ?_
      · intro empty
        rcases List.take_eq_nil_iff.mp empty with none | none
        · omega
        · exact nonempty none
      · intro letter member
        simp only [List.cons_append, List.mem_cons, List.mem_append] at member
        rcases member with rfl | digit | later
        · exact .inr (by simp)
        · exact .inl (all letter (List.mem_of_mem_drop digit))
        · exact others letter later
    · exact Numeral.digits nonempty all others

/-- The letters of a decimal are a number. -/
theorem numeral_decimal (number : Decimal) : Numeral number.letters := by
  have exponent : ∀ exponent : Int, ∀ letter ∈ Decimal.exponentText exponent,
      letter.isDigit = true ∨ letter ∈ ['.', 'E', '+', '-'] := by
    intro exponent letter member
    simp only [Decimal.exponentText, List.mem_cons] at member
    rcases member with rfl | sign | digit
    · exact .inr (by simp)
    · right
      split at sign
      · simp [sign]
      · simp [sign]
    · exact .inl (digitsOf_digits letter digit)
  have plain : ∀ place, Numeral (Decimal.withPoint (digitsOf number.coefficient) place) := by
    intro place
    simpa using withPoint_numeral digitsOf_ne_nil digitsOf_digits (by simp : ∀ letter ∈ [], _) place
  have unsigned : Numeral (if number.exponent ≤ 0 &&
      Decimal.leastPlain ≤ number.exponent + (digitsOf number.coefficient).length - 1 then
        Decimal.withPoint (digitsOf number.coefficient)
          (number.exponent + (digitsOf number.coefficient).length)
      else
        Decimal.withPoint (digitsOf number.coefficient) 1 ++
          Decimal.exponentText (number.exponent + (digitsOf number.coefficient).length - 1)) := by
    split
    · exact plain _
    · exact withPoint_numeral digitsOf_ne_nil digitsOf_digits (exponent _) 1
  simp only [Decimal.letters]
  by_cases negative : number.negative
  · rw [if_pos negative]
    exact unsigned.negated
  · rw [if_neg negative]
    exact unsigned

/-! ## Literals in quotes -/

/-- A character that is written as it is neither ends the literal nor escapes. -/
theorem escapeLetter?_none {quote letter : Char} (none : Text.escapeLetter? quote letter = none) :
    letter ≠ quote ∧ letter ≠ '\\' := by
  constructor
  · rintro rfl
    unfold Text.escapeLetter? at none
    split at none <;> simp at none
  · rintro rfl
    cases none

/-- An encoded text is read up to the quote behind it. -/
theorem scan_encode {quote : Char} (isQuote : isQuote quote = true) {before : List Char}
    (scanned : scan (.outside []) rest = some behind) :
    scan (.quoted quote before) (Text.encode quote letters ++ quote :: rest) =
      some (.operand (String.ofList (before ++ Text.encode quote letters ++ [quote])) ::
        behind) := by
  have backslash : '\\' ≠ quote := by
    rintro rfl
    cases isQuote
  induction letters generalizing before with
  | nil => simp [Text.encode, scan, scanned]
  | cons letter letters inductionHypothesis =>
    cases escape : Text.escapeLetter? quote letter with
    | some escaped =>
      have encoded : Text.encode quote (letter :: letters) =
          '\\' :: escaped :: Text.encode quote letters := by
        simp [Text.encode, escape]
      rw [encoded, List.cons_append, scan, if_neg backslash, if_pos rfl, List.cons_append, scan,
        inductionHypothesis]
      simp
    | none =>
      obtain ⟨noQuote, noEscape⟩ := escapeLetter?_none escape
      have encoded : Text.encode quote (letter :: letters) =
          letter :: Text.encode quote letters := by
        simp [Text.encode, escape]
      rw [encoded, List.cons_append, scan, if_neg noQuote, if_neg noEscape, inductionHypothesis]
      simp

/-- A quoted text spells one operand, whatever it holds. -/
theorem spells_quoted {quote : Char} (isQuote : isQuote quote = true) (text : String) :
    Spells (quoted quote text) [.operand (quoted quote text)] := by
  intro rest behind _ scanned
  rw [quoted, String.toList_ofList, List.cons_append, scan, if_pos isQuote, List.append_assoc]
  rw [List.singleton_append, scan_encode isQuote scanned]
  simp [pending]

/-- A literal is one operand. -/
theorem spells_literal (value : Literal) : Spells (wording value) [.operand (wording value)] := by
  have word {text : String} (name : TokenKind.IsName text.toList) (whole : '-' ∉ text.toList) :
      Spells text [.operand text] :=
    spells_name name whole
  cases value with
  | nil =>
    exact word ⟨'n', ['u', 'l', 'l'], rfl, rfl, by simp [TokenKind.continuesName]⟩ (by decide)
  | boolean truth =>
    cases truth with
    | true =>
      exact word ⟨'t', ['r', 'u', 'e'], rfl, rfl, by simp [TokenKind.continuesName]⟩ (by decide)
    | false =>
      exact word ⟨'f', ['a', 'l', 's', 'e'], rfl, rfl, by simp [TokenKind.continuesName]⟩
        (by decide)
  | integer number =>
    refine Numeral.spells ?_
    rw [wording, String.toList_ofList]
    exact numeral_integerText number
  | decimal number =>
    refine Numeral.spells ?_
    rw [wording, Decimal.text, String.toList_ofList]
    exact numeral_decimal number
  | character text => exact spells_quoted rfl text
  | string text => exact spells_quoted rfl text

/-! ## Compound expressions -/

/-- An operator between blanks is a word. -/
theorem scan_operator {operator : String} (member : operator ∈ levels.flatten)
    (scanned : scan (.outside []) rest = some behind) :
    scan (.outside []) (' ' :: (operator.toList ++ ' ' :: rest)) =
      some (.operator operator :: behind) := by
  have shape : ∀ operator ∈ levels.flatten, operator.toList ≠ [] ∧
      (∀ letter ∈ operator.toList, letter ∉ marks) ∧ beginsName operator.toList = false := by
    simp [levels, marks, beginsName, TokenKind.startsName]
  obtain ⟨nonempty, unmarked, noName⟩ := shape operator member
  have solid : Solid operator.toList := ⟨nonempty, unmarked, by simp [noName]⟩
  have blank : scan (.outside []) (' ' :: rest) = some behind := by
    simp [scan, isQuote, completed?, scanned, pending]
  rw [scan]
  simp only [isQuote, completed?]
  rw [solid.stays, scan_pending (by simp [Stops, stops]) blank]
  simp [pending, solid.nonempty, Word.ofLetters, member]

/-- Operands with an operator between them. -/
theorem Spells.operation {left right operator : String} {front back : List Word}
    (leftSpells : Spells left front) (member : operator ∈ levels.flatten)
    (rightSpells : Spells right back) :
    Spells (left ++ " " ++ operator ++ " " ++ right) (front ++ .operator operator :: back) := by
  intro rest behind stops scanned
  have further := scan_operator member (rightSpells rest behind stops scanned)
  have whole := leftSpells _ _ (by simp [Stops, Java.stops]) further
  simpa using whole

/-- Two operands with a comma between them. -/
theorem Spells.pair {left right : String} {front back : List Word} (leftSpells : Spells left front)
    (rightSpells : Spells right back) :
    Spells (left ++ ", " ++ right) (front ++ .comma :: back) := by
  intro rest behind stops scanned
  have further : scan (.outside []) (',' :: ' ' :: (right.toList ++ rest)) =
      some (.comma :: back ++ behind) := by
    simp [scan, isQuote, completed?, pending, rightSpells rest behind stops scanned]
  have whole := leftSpells _ _ (by simp [Stops, Java.stops]) further
  simpa using whole

/-- Something that is opened, and closed by its mark. -/
theorem Spells.enclosed {text inner mark : String} {opening : Opening} {words : List Word}
    (opens : Opens text opening) (spells : Spells inner words)
    (closed : mark = String.singleton opening.closing) :
    Spells (text ++ inner ++ mark) (.opening opening :: words ++ [.closing opening.closing]) := by
  subst closed
  intro rest behind _ scanned
  have closes : scan (.outside []) (opening.closing :: rest) =
      some (.closing opening.closing :: behind) := by
    cases opening <;> simp [Opening.closing, scan, isQuote, completed?, scanned, pending]
  have stops : Stops (opening.closing :: rest) := by
    cases opening <;> simp [Stops, Java.stops, Opening.closing]
  simpa using opens _ _ (spells _ _ stops closes)

/-- A mark of its own opens a group. -/
theorem opens_group : Opens "(" .group := by
  intro rest behind scanned
  simp [scan, isQuote, completed?, scanned]

/-- An opening brace opens a list. -/
theorem opens_braces : Opens "\x7b" .braces := by
  intro rest behind scanned
  simp [scan, isQuote, completed?, scanned, pending]

/-- A name before a mark opens something of that name. -/
theorem Solid.opens_call {name : String} (solid : Solid name.toList) :
    Opens (name ++ "(") (.call name) := by
  intro rest behind scanned
  rw [String.toList_append, List.append_assoc, solid.stays]
  simp [scan, isQuote, completed?, scanned, solid.nonempty]

/-- A name with a bracket behind it opens an index. -/
theorem Solid.opens_index {name : String} (solid : Solid name.toList) :
    Opens (name ++ "[") (.index name) := by
  intro rest behind scanned
  rw [String.toList_append, List.append_assoc, solid.stays]
  simp [scan, isQuote, completed?, scanned]

/-! ## Expressions -/

mutual

/-- The operator tree of an expression. A power is a call. -/
def shape {ν : Notes} : Expr ν → Tree
  | .literal _ value => .operand (wording value)
  | .group _ inner => .enclosed .group [shape inner]
  | .binary _ operator left right =>
    if operator = "^" then .enclosed (.call "Math.pow") [shape left, shape right]
    else .operation operator (shape left) (shape right)
  | .access _ _ name => .operand name
  | .element _ _ name offset => .enclosed (.index name) [shape offset]
  | .call _ _ name arguments =>
    .enclosed (.call (functionName name arguments.length)) (shapes arguments)
  | .list _ elements => .enclosed .braces (shapes elements)

/-- The operator trees of expressions. -/
def shapes {ν : Notes} : List (Expr ν) → List Tree
  | [] => []
  | first :: rest => shape first :: shapes rest

end

/-- The operators of the language are those of Java and the power. -/
theorem mem_levels {operator : String} (member : operator ∈ Grammar.levels.flatten)
    (noPower : operator ≠ "^") : operator ∈ levels.flatten := by
  have all : ∀ operator ∈ Grammar.levels.flatten, operator = "^" ∨ operator ∈ levels.flatten := by
    decide
  exact (all operator member).resolve_left noPower

/-- The name of the power function opens its call. -/
theorem opens_power : Opens "Math.pow(" (.call "Math.pow") := by
  have solid : Solid "Math.pow".toList := ⟨by simp, by simp [marks], by simp⟩
  exact solid.opens_call

/-- A name with a hyphen in it. -/
def Hyphenated {ν : Notes} : Expr ν → Prop
  | .access _ _ name | .element _ _ name _ | .call _ _ name _ => '-' ∈ name.toList
  | .literal _ _ | .group _ _ | .binary _ _ _ _ | .list _ _ => False

variable {ν : Notes}

/-- The letters of the name of a function stay together. -/
theorem solid_functionName {name : String} {arity : Nat} (isName : TokenKind.IsName name.toList)
    (unhyphenated : '-' ∉ name.toList) : Solid (functionName name arity).toList := by
  unfold functionName
  split
  · refine ⟨by simp, ?_, ?_⟩
    · simp [marks]
    · simp
  · exact solid_name isName unhyphenated

/-- The text of the expression, if it has one, is that of the words of its tree. -/
def Spelled (tree : Expr ν) : Prop :=
  ∀ text, expression tree = .ok text → Spells text (shape tree).words

/-- Further expressions are spelled with a comma before each. -/
theorem spells_further {trees : List (Expr ν)} (each : ∀ tree ∈ trees, Spelled tree)
    {text : String} (written : furtherExpressions trees = .ok text) :
    Spells text (Tree.further (shapes trees)) ∧
      ∀ rest, Stops rest → Stops (text.toList ++ rest) := by
  induction trees generalizing text with
  | nil =>
    rw [furtherExpressions] at written
    cases written
    exact ⟨fun rest behind _ scanned => scanned, fun rest stops => stops⟩
  | cons first others inductionHypothesis =>
    obtain ⟨firstText, firstWritten, othersText, othersWritten, rfl⟩ := further_written.mp written
    obtain ⟨spells, ends⟩ :=
      inductionHypothesis (fun tree member => each tree (by simp [member])) othersWritten
    refine ⟨fun rest behind stops scanned => ?_, fun rest _ => by simp [Stops, stops]⟩
    have further := each first (by simp) firstText firstWritten _ _ (ends rest stops)
      (spells rest behind stops scanned)
    simp [shapes, Tree.further, scan, isQuote, completed?, pending, further]

/-- Expressions are spelled with commas between them. -/
theorem spells_expressions {trees : List (Expr ν)} (each : ∀ tree ∈ trees, Spelled tree)
    {text : String} (written : expressions trees = .ok text) :
    Spells text (Tree.separated (shapes trees)) := by
  intro rest behind stops scanned
  cases trees with
  | nil =>
    rw [expressions] at written
    cases written
    exact scanned
  | cons first others =>
    obtain ⟨firstText, firstWritten, othersText, othersWritten, rfl⟩ :=
      expressions_written.mp written
    obtain ⟨spells, ends⟩ :=
      spells_further (fun tree member => each tree (by simp [member])) othersWritten
    have whole := each first (by simp) firstText firstWritten _ _ (ends rest stops)
      (spells rest behind stops scanned)
    simpa [shapes, Tree.separated] using whole

/-- An expression is emitted as the words of its tree, if its names have no hyphen. -/
theorem spelled_expression (tree : Expr ν) (written : tree.Every Grammar.Written)
    (whole : tree.Every fun inner => ¬ Hyphenated inner) : Spelled tree := by
  induction tree using Expr.induction_parts with
  | step tree inductionHypothesis =>
    have parts : ∀ inner ∈ tree.parts, Spelled inner :=
      fun inner member => inductionHypothesis inner member (written.part member) (whole.part member)
    have here := written.here
    have unhyphenated := whole.here
    intro text emitted
    cases tree with
    | literal type value =>
      rw [expression] at emitted
      obtain ⟨_, rfl⟩ := literal_written.mp emitted
      simpa [shape, Tree.words] using spells_literal value
    | group type inner =>
      obtain ⟨innerText, innerEmitted, rfl⟩ := group_written.mp emitted
      have enclosed : Spells ("(" ++ innerText ++ ")") _ :=
        .enclosed opens_group (parts inner (by simp [Expr.parts]) innerText innerEmitted) rfl
      simpa [shape, Tree.words, Tree.separated, Tree.further] using enclosed
    | binary type operator left right =>
      obtain ⟨leftText, leftEmitted, rightText, rightEmitted, rfl⟩ := binary_written.mp emitted
      have leftSpells := parts left (by simp [Expr.parts]) leftText leftEmitted
      have rightSpells := parts right (by simp [Expr.parts]) rightText rightEmitted
      by_cases power : operator = "^"
      · have enclosed : Spells ("Math.pow(" ++ (leftText ++ ", " ++ rightText) ++ ")") _ :=
          .enclosed opens_power (leftSpells.pair rightSpells) rfl
        simpa [shape, power, Tree.words, Tree.separated, Tree.further,
          String.append_assoc] using enclosed
      · have operation := leftSpells.operation (mem_levels here.1 power) rightSpells
        simpa [shape, power, Tree.words] using operation
    | access type entry name =>
      rw [expression] at emitted
      cases emitted
      simpa [shape, Tree.words] using spells_name here unhyphenated
    | element type entry name offset =>
      obtain ⟨offsetText, offsetEmitted, rfl⟩ := element_written.mp emitted
      have enclosed : Spells (name ++ "[" ++ offsetText ++ "]") _ :=
        .enclosed (solid_name here unhyphenated).opens_index
          (parts offset (by simp [Expr.parts]) offsetText offsetEmitted) rfl
      simpa [shape, Tree.words, Tree.separated, Tree.further] using enclosed
    | call type routine name arguments =>
      obtain ⟨argumentsText, argumentsEmitted, rfl⟩ := call_written.mp emitted
      have opens := (@solid_functionName name arguments.length here unhyphenated).opens_call
      exact Spells.enclosed opens (spells_expressions parts argumentsEmitted) rfl
    | list type elements =>
      obtain ⟨elementsText, elementsEmitted, rfl⟩ := list_written.mp emitted
      exact Spells.enclosed opens_braces (spells_expressions parts elementsEmitted) rfl

/-! ## No word is a name with a hyphen -/

/-- Letters that are no name with a hyphen in it. -/
def Whole (letters : List Char) : Prop :=
  beginsName letters = true → '-' ∉ letters

/-- A word whose name, if it has one, has no hyphen in it. -/
def Word.Whole : Word → Prop
  | operand text | opening (.index text) | opening (.call text) => Java.Whole text.toList
  | operator _ | opening .group | opening .braces | comma | closing _ => True

/-- The word that is completed last is whole when its letters are. -/
theorem pending_whole (whole : Whole letters) : ∀ word ∈ pending letters, word.Whole := by
  intro word member
  unfold pending at member
  split at member
  · cases member
  · rw [List.mem_singleton.mp member, Word.ofLetters]
    split
    · trivial
    · simpa [Word.Whole] using whole

/-- One more whole word leaves all of them whole. -/
theorem pending_whole_append {word : Word} (whole : Whole letters) (last : word.Whole) :
    ∀ other ∈ pending letters ++ [word], other.Whole := by
  intro other member
  rcases List.mem_append.mp member with before | here
  · exact pending_whole whole other before
  · rw [List.mem_singleton.mp here]
    exact last

/-- The words that a mark completes are whole. -/
theorem completed?_whole {mark : Char} {words : List Word} (whole : Whole letters)
    (completed : completed? letters mark = some words) : ∀ word ∈ words, word.Whole := by
  unfold completed? at completed
  split at completed
  case h_1 =>
    cases completed
    exact pending_whole whole
  case h_7 =>
    cases completed
    cases letters with
    | nil => simp [Word.Whole]
    | cons first others => simpa [Word.Whole] using whole
  case h_8 =>
    cases completed
    simpa [Word.Whole] using whole
  case h_9 =>
    split at completed
    · cases completed
      exact pending_whole_append whole trivial
    · cases completed
  case h_10 => cases completed
  all_goals
    cases completed
    exact pending_whole_append whole trivial

/-- A hyphen behind a name is a minus sign, so a letter that is none keeps a name whole. -/
theorem completed?_longer {mark : Char} (whole : Whole letters)
    (none : completed? letters mark = none) : Whole (letters ++ [mark]) := by
  intro name hyphen
  cases letters with
  | nil =>
    obtain rfl := List.mem_singleton.mp hyphen
    cases name
  | cons first others =>
    rcases List.mem_append.mp hyphen with before | here
    · exact whole name before
    · obtain rfl := List.mem_singleton.mp here
      have minus : completed? (first :: others) '-' =
          some (pending (first :: others) ++ [.operator "-"]) :=
        if_pos name
      rw [minus] at none
      cases none

/-- The letters at a place are no name with a hyphen in it. -/
def Place.Whole : Place → Prop
  | outside letters => Java.Whole letters
  | quoted _ letters | escaped _ letters => letters ≠ [] ∧ beginsName letters = false

/-- No word of a text is a name with a hyphen in it. -/
theorem scan_whole {place : Place} {words : List Word} (whole : place.Whole)
    (scanned : scan place rest = some words) : ∀ word ∈ words, word.Whole := by
  have longer {letters : List Char} {mark : Char}
      (quoted : letters ≠ [] ∧ beginsName letters = false) :
      letters ++ [mark] ≠ [] ∧ beginsName (letters ++ [mark]) = false := by
    cases letters with
    | nil => exact absurd rfl quoted.1
    | cons first others => exact ⟨by simp, quoted.2⟩
  have nothing : Java.Whole [] := by
    intro name
    cases name
  fun_induction scan place rest generalizing words with
  | case1 letters =>
    cases scanned
    exact pending_whole whole
  | case2 letters mark rest quote inductionHypothesis =>
    obtain ⟨further, later, rfl⟩ := Option.map_eq_some_iff.mp scanned
    have noName : beginsName [mark] = false := by
      rcases (by simpa [isQuote] using quote : mark = '"' ∨ mark = '\'') with rfl | rfl
      · rfl
      · rfl
    intro word member
    rcases List.mem_append.mp member with before | behind
    · exact pending_whole whole word before
    · exact inductionHypothesis ⟨by simp, noName⟩ later word behind
  | case3 letters mark rest noQuote completed same inductionHypothesis =>
    obtain ⟨further, later, rfl⟩ := Option.map_eq_some_iff.mp scanned
    intro word member
    rcases List.mem_append.mp member with before | behind
    · exact completed?_whole whole same word before
    · exact inductionHypothesis nothing later word behind
  | case4 letters mark rest noQuote none inductionHypothesis =>
    exact inductionHypothesis (completed?_longer whole none) scanned
  | case5 letters mark rest inductionHypothesis =>
    obtain ⟨further, later, rfl⟩ := Option.map_eq_some_iff.mp scanned
    intro word member
    rcases List.mem_cons.mp member with rfl | behind
    · intro name
      rw [String.toList_ofList, (longer whole).2] at name
      cases name
    · exact inductionHypothesis nothing later word behind
  | case6 quote letters rest other inductionHypothesis =>
    exact inductionHypothesis (longer whole) scanned
  | case7 quote letters mark rest other plain inductionHypothesis =>
    exact inductionHypothesis (longer whole) scanned
  | case8 quote letters mark rest inductionHypothesis =>
    exact inductionHypothesis (longer whole) scanned
  | case9 => cases scanned
  | case10 => cases scanned

end Blockscript.Java
