import Blockscript.Grammar.Reading
import Blockscript.Tree

/-!
# The grammar of expressions

Binary operators come in four levels, from the loosest to the tightest. The
operators of a level associate to the left, and its operands are expressions of
the next level; behind the last level stand the primary expressions. The power
operator is on the level of multiplication and associates to the left like the
others.
-/

namespace Blockscript.Grammar

/-- The binary operators by level, loosest first. -/
def levels : List (List String) :=
  [["&&", "||"], ["<", ">", "==", "!="], ["+", "-"], ["*", "/", "^"]]

/-- The text between the quotes of a literal, without its escape sequences. -/
def quotedText (text : String) : String :=
  String.ofList (Text.decode (text.toList.drop 1).dropLast)

/-- The literal that a token is, or why the number that it should be is none. The
words for nil and the truth values are literals wherever an operand may stand. -/
def literal? (token : Token) : Option (Except NumeralFault Literal) :=
  if token.text = "NIL" then some (.ok .nil)
  else if token.text = "TRUE" then some (.ok (.boolean true))
  else if token.text = "FALSE" then some (.ok (.boolean false))
  else
    match token.kind with
    | .integer => some ((readInteger token.text).map .integer)
    | .decimal => some ((Decimal.read token.text).map .decimal)
    | .character => some (.ok (.character (quotedText token.text)))
    | .string => some (.ok (.string (quotedText token.text)))
    | .identifier | .operator => none

mutual

/-- An expression of the first of the given levels. -/
def level (operators : List (List String)) (tokens : List Token) :
    Reading true (Expr .bare) tokens :=
  match operators with
  | [] => primary tokens
  | loosest :: tighter =>
    (level tighter tokens).andThen fun left rest _ => chain loosest tighter left rest
termination_by (tokens.length, operators.length + 1)

/-- The operators and operands of one level behind a left operand. -/
def chain (operators : List String) (tighter : List (List String)) (left : Expr .bare)
    (tokens : List Token) : Reading false (Expr .bare) tokens :=
  match tokens with
  | [] => nothing left []
  | token :: rest =>
    if operators.contains token.text then
      (((level tighter rest).andThen fun right after _ =>
        chain operators tighter (.binary () token.text left right) after).behind token).lax
    else
      nothing left (token :: rest)
termination_by (tokens.length, 0)
decreasing_by
  · exact .left _ _ (by simp)
  · exact .left _ _ (Nat.lt_succ_of_lt (Left.lt ‹_›))

/-- A primary expression: a literal, a grouped expression, a list, a call, or a
variable with or without an offset. -/
def primary (tokens : List Token) : Reading true (Expr .bare) tokens :=
  match tokens with
  | [] => refuse .expression []
  | token :: rest =>
    match literal? token with
    | some (.ok literal) => (nothing (.literal () literal) rest).behind token
    | some (.error fault) => spoil fault (token :: rest)
    | none =>
      if token.text = "(" then
        ((level levels rest).andThen fun inner after _ =>
          (wordAs .closingParenthesis ")" after).giving (.group () inner)).behind token
      else if token.text = "[" then
        ((arguments "]" rest).map (.list ())).behind token
      else if token.kind = .identifier then
        (afterName token.text rest).behind token
      else
        refuse .expression (token :: rest)
termination_by (tokens.length, 0)

/-- What may follow a name: an offset in brackets, arguments in parentheses, or
nothing. -/
def afterName (name : String) (tokens : List Token) : Reading false (Expr .bare) tokens :=
  match tokens with
  | [] => nothing (.access () () name) []
  | token :: rest =>
    if token.text = "[" then
      (((level levels rest).andThen fun offset after _ =>
        (wordAs .closingBracket "]" after).giving (.element () () name offset)).behind token).lax
    else if token.text = "(" then
      (((arguments ")" rest).map (.call () () name)).behind token).lax
    else
      nothing (.access () () name) (token :: rest)
termination_by (tokens.length, 0)

/-- Expressions with commas between them, up to the closing mark. There may be
none at all. -/
def arguments (closing : String) (tokens : List Token) :
    Reading true (List (Expr .bare)) tokens :=
  match tokens with
  | [] => items closing []
  | token :: rest =>
    if token.text = closing then (nothing [] rest).behind token
    else items closing (token :: rest)
termination_by (tokens.length, levels.length + 3)

/-- At least one expression, with commas between them, up to the closing mark. -/
def items (closing : String) (tokens : List Token) : Reading true (List (Expr .bare)) tokens :=
  (level levels tokens).andThen fun first rest _ =>
    (moreItems closing rest).map (first :: ·)
termination_by (tokens.length, levels.length + 2)

/-- The closing mark, or a comma and further expressions. -/
def moreItems (closing : String) (tokens : List Token) : Reading true (List (Expr .bare)) tokens :=
  match tokens with
  | [] => refuse (.commaOr closing) []
  | token :: rest =>
    if token.text = closing then (nothing [] rest).behind token
    else if token.text = "," then (items closing rest).behind token
    else refuse (.commaOr closing) (token :: rest)
termination_by (tokens.length, 0)

end

/-- An expression. -/
def expression (tokens : List Token) : Reading true (Expr .bare) tokens :=
  level levels tokens

end Blockscript.Grammar
