import Blockscript.SyntaxError
import Blockscript.Token

/-!
# From text to tokens

Blank characters separate tokens and are dropped. Everything else has to be
covered by tokens, each the first one its place admits. A place where no token
starts is an error; for a quoted literal the error points at the character that
spoils it, which is found by reading the literal a second time.
-/

namespace Blockscript.Token

/-- The fault in a string literal that does not read, from a place inside it:
the end of the line, a letter that is no escape letter, or a missing quote. -/
def stringFault (offset : Nat) : List Char → SyntaxError
  | [] => ⟨.unterminatedString, offset⟩
  | '"' :: _ => ⟨.unterminatedString, offset⟩
  | '\\' :: [] => ⟨.invalidEscape, offset + 1⟩
  | '\\' :: letter :: rest =>
    if Text.isEscapeLetter letter then stringFault (offset + 2) rest
    else ⟨.invalidEscape, offset + 1⟩
  | character :: rest =>
    if character = '\n' || character = '\r' then ⟨.multilineString, offset⟩
    else stringFault (offset + 1) rest

/-- The fault in a character literal that does not read, from the place behind
its opening quote. A literal with a good start is blamed where its closing quote
should stand, even when the text ends before that place. -/
def characterFault (offset : Nat) : List Char → SyntaxError
  | '\\' :: letter :: _ =>
    if Text.isEscapeLetter letter then ⟨.invalidCharacter, offset + 2⟩
    else ⟨.invalidEscape, offset + 1⟩
  | ['\\'] => ⟨.invalidEscape, offset + 1⟩
  | _ => ⟨.invalidCharacter, offset + 1⟩

/-- The error at a place where no token starts. -/
def faultAt (offset : Nat) (first : Char) (rest : List Char) : SyntaxError :=
  if first = '"' then stringFault (offset + 1) rest
  else if first = '\'' then characterFault (offset + 1) rest
  else ⟨.unexpectedCharacter first, offset⟩

/-- Reads tokens from a place in a text to its end. -/
def scan (offset : Nat) (letters : List Char) : Except SyntaxError (List Token) :=
  match letters with
  | [] => .ok []
  | first :: rest =>
    if Text.isBlank first then
      scan (offset + 1) rest
    else
      match _read : TokenKind.first? (first :: rest) with
      | none => .error (faultAt offset first rest)
      | some (kind, lexeme) =>
        (scan (offset + lexeme.length) ((first :: rest).drop lexeme.length)).map
          (⟨kind, String.ofList lexeme, offset⟩ :: ·)
termination_by letters.length
decreasing_by
  · simp
  · have := List.length_pos_iff.mpr (TokenKind.first?_ne_nil _read)
    simp only [List.length_drop, List.length_cons]
    omega

/-- Reads the tokens of a program text. -/
def ofText (source : String) : Except SyntaxError (List Token) :=
  scan 0 source.toList

end Blockscript.Token
