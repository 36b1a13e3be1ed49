/-!
# Errors in the written program

A program text can fail in two ways: a character starts no token, or a token
stands where the grammar wants something else. Either way the failure is a cause
and the offset it points at, counted in characters from the start of the text.
-/

namespace Blockscript

/-- What the grammar wants where a token does not fit. -/
inductive Expected where
  /-- One particular keyword or punctuation mark. -/
  | word (text : String)
  | typeName
  | variableName
  | listName
  | functionName
  | parameterName
  /-- A further global or function, or the end of the program. -/
  | definition
  /-- A keyword that starts a global. -/
  | globalKeyword
  | listElement
  /-- The value of an immutable global. -/
  | immutableValue
  /-- Another item of a sequence, or the mark that closes it. -/
  | commaOr (closing : String)
  | caseOrDefault
  | closingParenthesis
  | closingBracket
  | expression
deriving DecidableEq, Inhabited

/-- A word between single quotes. -/
def quotedWord (word : String) : String :=
  "'" ++ word ++ "'"

/-- The name of what is expected. -/
def Expected.text : Expected → String
  | word text => quotedWord text
  | typeName => "a type name"
  | variableName => "a variable name"
  | listName => "a list name"
  | functionName => "a function name"
  | parameterName => "a parameter name"
  | definition => "a global or function definition"
  | globalKeyword => "LIST, VAR or VAL"
  | listElement => "at least one list element"
  | immutableValue => quotedWord "=" ++ " (immutable globals require a value)"
  | commaOr closing => quotedWord "," ++ " or " ++ quotedWord closing
  | caseOrDefault => "CASE or DEFAULT"
  | closingParenthesis => "closing parenthesis"
  | closingBracket => "closing bracket"
  | expression => "an expression"

/-- Why a text is no program. -/
inductive SyntaxFault where
  | multilineString
  | unterminatedString
  | invalidEscape
  | invalidCharacter
  | unexpectedCharacter (character : Char)
  | expected (what : Expected)
deriving DecidableEq, Inhabited

/-- The wording of a fault. -/
def SyntaxFault.message : SyntaxFault → String
  | multilineString => "String literal cannot span multiple lines"
  | unterminatedString => "Unterminated string literal"
  | invalidEscape => "Invalid escape sequence"
  | invalidCharacter => "Invalid character literal"
  | unexpectedCharacter character =>
    "Unexpected character " ++ quotedWord (String.singleton character)
  | expected what => "Expected " ++ what.text

/-- A fault and the place in the text where it shows. -/
structure SyntaxError where
  fault : SyntaxFault
  offset : Nat
deriving DecidableEq, Inhabited

/-- The wording of an error, without its place. -/
def SyntaxError.message (error : SyntaxError) : String :=
  error.fault.message

end Blockscript
