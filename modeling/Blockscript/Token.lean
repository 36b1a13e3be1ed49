import Blockscript.Text.Blank
import Blockscript.Text.Escape

/-!
# Tokens and their classes

A token is a piece of the program text of one of six classes. Each class is
given by a function that takes the longest prefix of a text belonging to the
class. The classes are tried in a fixed order; only two pairs can start alike,
and there the order lets a decimal win over an integer, and a negative number
over the operator `-`.

Keywords are no class of their own. They are identifiers, and the grammar tells
them from names by their text.
-/

namespace Blockscript

/-- The classes of tokens. -/
inductive TokenKind where
  | identifier
  | integer
  | decimal
  | character
  | string
  | operator
deriving DecidableEq, Inhabited

/-- A piece of a program text, as written there, and where it starts. -/
structure Token where
  kind : TokenKind
  text : String
  offset : Nat
deriving DecidableEq, Inhabited

/-- The offset of the first character behind a token. -/
def Token.stop (token : Token) : Nat :=
  token.offset + token.text.length

namespace TokenKind

/-- The name of a class. -/
def name : TokenKind → String
  | identifier => "IDENTIFIER"
  | integer => "INTEGER"
  | decimal => "DECIMAL"
  | character => "CHARACTER"
  | string => "STRING"
  | operator => "OPERATOR"

/-- Whether a name may start with the character. -/
def startsName (letter : Char) : Bool :=
  letter.isAlpha || letter = '@'

/-- Whether a name may go on with the character. -/
def continuesName (letter : Char) : Bool :=
  letter.isAlphanum || letter = '_' || letter = '-'

/-- A name: a letter or `@`, then letters, digits, underscores and hyphens. -/
def identifierLexeme? : List Char → Option (List Char)
  | [] => none
  | first :: rest => if startsName first then some (first :: rest.takeWhile continuesName) else none

/-- The digits of a whole number. A zero stands alone. -/
def wholeLexeme? : List Char → Option (List Char)
  | [] => none
  | first :: rest =>
    if first = '0' then some ['0']
    else if first.isDigit then some (first :: rest.takeWhile Char.isDigit)
    else none

/-- A whole number with an optional minus sign. -/
def integerLexeme? : List Char → Option (List Char)
  | '-' :: rest => (wholeLexeme? rest).map ('-' :: ·)
  | letters => wholeLexeme? letters

/-- A point and at least one digit. -/
def fractionLexeme? : List Char → Option (List Char)
  | '.' :: digit :: rest =>
    if digit.isDigit then some ('.' :: digit :: rest.takeWhile Char.isDigit) else none
  | _ => none

/-- An integer and a fraction. -/
def decimalLexeme? (letters : List Char) : Option (List Char) :=
  (integerLexeme? letters).bind fun whole =>
    (fractionLexeme? (letters.drop whole.length)).map (whole ++ ·)

/-- Whether a character stands for itself in a character literal. -/
def isPlain (single : Char) : Bool :=
  single ≠ '\'' && single ≠ '\\' && single ≠ '\n' && single ≠ '\r'

/-- A character between single quotes, or an escape sequence in its place. -/
def characterLexeme? : List Char → Option (List Char)
  | '\'' :: '\\' :: letter :: '\'' :: _ =>
    if Text.isEscapeLetter letter then some ['\'', '\\', letter, '\''] else none
  | '\'' :: single :: '\'' :: _ =>
    if isPlain single then some ['\'', single, '\''] else none
  | _ => none

/-- The rest of a string literal up to and including its closing quote. -/
def stringTail? : List Char → Option (List Char)
  | [] => none
  | '"' :: _ => some ['"']
  | '\\' :: letter :: rest =>
    if Text.isEscapeLetter letter then (stringTail? rest).map ('\\' :: letter :: ·) else none
  | single :: rest =>
    if single = '\\' || single = '\n' || single = '\r' then none
    else (stringTail? rest).map (single :: ·)

/-- Characters and escape sequences between double quotes, on one line. -/
def stringLexeme? : List Char → Option (List Char)
  | '"' :: rest => (stringTail? rest).map ('"' :: ·)
  | _ => none

/-- Whether a character is an operator by itself: everything that is not blank,
no ASCII letter or digit, and not `_`, `@` or a quote. -/
def isOperator (mark : Char) : Bool :=
  !Text.isBlank mark && !mark.isAlphanum &&
    mark ≠ '_' && mark ≠ '@' && mark ≠ '\'' && mark ≠ '"'

/-- One of the four operators of two characters, or an operator character. -/
def operatorLexeme? : List Char → Option (List Char)
  | '!' :: '=' :: _ => some ['!', '=']
  | '=' :: '=' :: _ => some ['=', '=']
  | '&' :: '&' :: _ => some ['&', '&']
  | '|' :: '|' :: _ => some ['|', '|']
  | single :: _ => if isOperator single then some [single] else none
  | [] => none

/-- The longest prefix of a text that belongs to a class. -/
def lexeme? : TokenKind → List Char → Option (List Char)
  | identifier => identifierLexeme?
  | integer => integerLexeme?
  | decimal => decimalLexeme?
  | character => characterLexeme?
  | string => stringLexeme?
  | operator => operatorLexeme?

/-- The classes in the order in which they are tried. -/
def byPrecedence : List TokenKind :=
  [decimal, integer, identifier, character, string, operator]

/-- The class and the letters of the token at the start of a text. -/
def first? (letters : List Char) : Option (TokenKind × List Char) :=
  byPrecedence.findSome? fun kind => (kind.lexeme? letters).map (kind, ·)

/-- A whole number that is read has letters. -/
theorem wholeLexeme?_ne_nil {letters : List Char} : wholeLexeme? letters ≠ some [] := by
  cases letters with
  | nil => simp [wholeLexeme?]
  | cons first rest =>
    simp only [wholeLexeme?]
    split
    · simp
    · split <;> simp

/-- An integer that is read has letters. -/
theorem integerLexeme?_ne_nil {letters : List Char} : integerLexeme? letters ≠ some [] := by
  unfold integerLexeme?
  split
  · simp
  · exact wholeLexeme?_ne_nil

/-- No class contains the empty text. -/
theorem lexeme?_ne_nil {kind : TokenKind} {letters : List Char} :
    kind.lexeme? letters ≠ some [] := by
  cases kind with
  | identifier => cases letters <;> simp [lexeme?, identifierLexeme?]
  | integer => exact integerLexeme?_ne_nil
  | decimal =>
    simp only [lexeme?, decimalLexeme?, ne_eq, Option.bind_eq_some_iff, Option.map_eq_some_iff,
      List.append_eq_nil_iff, not_exists, not_and]
    intro whole read _ _ empty
    exact absurd (empty ▸ read) integerLexeme?_ne_nil
  | character =>
    simp only [lexeme?, characterLexeme?]
    split <;> simp
  | string =>
    simp only [lexeme?, stringLexeme?]
    split <;> simp
  | operator =>
    simp only [lexeme?, operatorLexeme?]
    split <;> simp

/-- A token is never empty. -/
theorem first?_ne_nil {letters lexeme : List Char} {kind : TokenKind}
    (read : first? letters = some (kind, lexeme)) : lexeme ≠ [] := by
  intro empty
  obtain ⟨_, _, found⟩ := List.exists_of_findSome?_eq_some read
  obtain ⟨_, read, same⟩ := Option.map_eq_some_iff.mp found
  cases same
  exact lexeme?_ne_nil (empty ▸ read)

end TokenKind

end Blockscript
