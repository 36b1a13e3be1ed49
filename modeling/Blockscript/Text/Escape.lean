/-!
# Escape sequences

A backslash and one of seven letters stand for one character. `decode` reads
such sequences and leaves everything else as it is, so a backslash before any
other character stays a backslash. `encode` writes a text for use between two
quotes of one kind: only that quote is escaped, the other one needs no escape.
-/

namespace Blockscript.Text

/-- The character that a letter stands for behind a backslash. -/
def escaped? : Char → Option Char
  | 'b' => some '\x08'
  | 'n' => some '\n'
  | 'r' => some '\r'
  | 't' => some '\t'
  | '\'' => some '\''
  | '"' => some '"'
  | '\\' => some '\\'
  | _ => none

/-- Whether a letter may follow a backslash. -/
def isEscapeLetter (letter : Char) : Bool :=
  (escaped? letter).isSome

/-- Replaces the escape sequences of a text. A backslash is itself one of the
letters, so the letter behind a stray backslash never starts a sequence. -/
def decode : List Char → List Char
  | [] => []
  | '\\' :: letter :: rest =>
    match escaped? letter with
    | some character => character :: decode rest
    | none => '\\' :: letter :: decode rest
  | character :: rest => character :: decode rest

/-- The letter that is written behind a backslash for a character, between the
given quotes. Characters without one are written as they are. -/
def escapeLetter? (quote : Char) : Char → Option Char
  | '\x08' => some 'b'
  | '\n' => some 'n'
  | '\r' => some 'r'
  | '\t' => some 't'
  | '\\' => some '\\'
  | character => if character = quote then some character else none

/-- Writes a text for use between the given quotes. -/
def encode (quote : Char) (letters : List Char) : List Char :=
  letters.flatMap fun character =>
    match escapeLetter? quote character with
    | some letter => ['\\', letter]
    | none => [character]

end Blockscript.Text
