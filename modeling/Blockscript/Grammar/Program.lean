import Blockscript.Grammar.Statement
import Blockscript.Token.Lexer

/-!
# The grammar of programs

A program is its globals, then its functions, then nothing. Every global ends
with a semicolon. A list global gives the type of its elements, not of the list,
and needs at least one element; an immutable global needs a value.
-/

namespace Blockscript.Grammar

/-- A list global behind its first word. -/
def listGlobal (tokens : List Token) : Reading true (GlobalDef .bare) tokens :=
  (identifier .listName tokens).andThen fun name rest _ =>
  (optionalType rest).andThen fun element rest _ =>
  (word "=" rest).andThen fun _ rest _ =>
  (word "[" rest).andThen fun _ rest _ =>
    if startsWith "]" rest then
      refuse .listElement rest
    else
      (items "]" rest).map fun elements =>
        { name := name
          typeName := element.map fun type => "List<" ++ type ++ ">"
          mutable := true
          value := some (.list () elements)
          entry := () }

/-- A mutable global behind its first word. -/
def mutableGlobal (tokens : List Token) : Reading true (GlobalDef .bare) tokens :=
  (identifier .variableName tokens).andThen fun name rest _ =>
  (optionalType rest).andThen fun type rest _ =>
  (optional "=" expression rest).map fun value =>
    ⟨name, type, true, value, ()⟩

/-- An immutable global behind its first word. -/
def immutableGlobal (tokens : List Token) : Reading true (GlobalDef .bare) tokens :=
  (identifier .variableName tokens).andThen fun name rest _ =>
  (optionalType rest).andThen fun type rest _ =>
  (wordAs .immutableValue "=" rest).andThen fun _ rest _ =>
  (expression rest).map fun value =>
    ⟨name, type, false, some value, ()⟩

/-- A global with its semicolon. -/
def globalDef (tokens : List Token) : Reading true (GlobalDef .bare) tokens :=
  match tokens with
  | [] => refuse .globalKeyword []
  | token :: rest =>
    let closed (reading : Reading true (GlobalDef .bare) rest) :
        Reading true (GlobalDef .bare) (token :: rest) :=
      (reading.andThen fun definition rest _ => (word ";" rest).giving definition).behind token
    if token.text = "LIST" then closed (listGlobal rest)
    else if token.text = "VAR" then closed (mutableGlobal rest)
    else if token.text = "VAL" then closed (immutableGlobal rest)
    else refuse .globalKeyword (token :: rest)

/-- A parameter with its optional type. -/
def parameter (tokens : List Token) : Reading true (String × Option String) tokens :=
  (identifier .parameterName tokens).andThen fun name rest _ =>
  (optionalType rest).map fun type => (name, type)

mutual

/-- At least one parameter, with commas between them, up to the closing
parenthesis. -/
def parameters (tokens : List Token) : Reading true (List (String × Option String)) tokens :=
  (parameter tokens).andThen fun first rest _ => (moreParameters rest).map (first :: ·)
termination_by (tokens.length, 1)

/-- The closing parenthesis, or a comma and further parameters. -/
def moreParameters (tokens : List Token) : Reading true (List (String × Option String)) tokens :=
  match tokens with
  | [] => refuse (.commaOr ")") []
  | token :: rest =>
    if token.text = ")" then (nothing [] rest).behind token
    else if token.text = "," then (parameters rest).behind token
    else refuse (.commaOr ")") (token :: rest)
termination_by (tokens.length, 0)

end

/-- The parameters of a function behind the opening parenthesis. There may be
none at all. -/
def parameterList (tokens : List Token) : Reading true (List (String × Option String)) tokens :=
  match tokens with
  | [] => parameters []
  | token :: rest =>
    if token.text = ")" then (nothing [] rest).behind token else parameters (token :: rest)

/-- A function. -/
def functionDef (tokens : List Token) : Reading true (FunctionDef .bare) tokens :=
  (word "FUN" tokens).andThen fun _ rest _ =>
  (identifier .functionName rest).andThen fun name rest _ =>
  (word "(" rest).andThen fun _ rest _ =>
  (parameterList rest).andThen fun parameters rest _ =>
  (optionalType rest).andThen fun result rest _ =>
  (word "DO" rest).andThen fun _ rest _ =>
  (block rest).andThen fun body rest _ =>
  (word "END" rest).giving
    ⟨name, parameters.map (·.1), parameters.map (·.2), result, body, ()⟩

/-- The words that start a global. -/
def globalStarts : List String :=
  ["LIST", "VAR", "VAL"]

/-- The globals of a program, up to the first other token. -/
def globals (tokens : List Token) : Reading false (List (GlobalDef .bare)) tokens :=
  match tokens with
  | [] => nothing [] []
  | token :: rest =>
    if globalStarts.contains token.text then
      ((globalDef (token :: rest)).andThen fun first after _ =>
        (globals after).map (first :: ·)).lax
    else
      nothing [] (token :: rest)
termination_by tokens.length
decreasing_by exact Left.lt ‹_›

/-- The functions of a program, up to the first other token. -/
def functions (tokens : List Token) : Reading false (List (FunctionDef .bare)) tokens :=
  match tokens with
  | [] => nothing [] []
  | token :: rest =>
    if token.text = "FUN" then
      ((functionDef (token :: rest)).andThen fun first after _ =>
        (functions after).map (first :: ·)).lax
    else
      nothing [] (token :: rest)
termination_by tokens.length
decreasing_by exact Left.lt ‹_›

/-- The end of the tokens. -/
def endOfTokens (tokens : List Token) : Reading false Unit tokens :=
  match tokens with
  | [] => nothing () []
  | token :: rest => refuse .definition (token :: rest)

/-- A program with nothing behind it. -/
def program (tokens : List Token) : Reading false (Program .bare) tokens :=
  (globals tokens).andThen fun globals rest _ =>
  (functions rest).andThen fun functions rest _ =>
  (endOfTokens rest).giving ⟨globals, functions⟩

end Blockscript.Grammar

namespace Blockscript

/-- The program that a text is. -/
def parseProgram (source : String) : Except ReadFault (Program .bare) := do
  let tokens ← (Token.ofText source).mapError .ungrammatical
  let (program, _) ← Grammar.finish (Grammar.program tokens)
  return program

end Blockscript
