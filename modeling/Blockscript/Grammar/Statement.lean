import Blockscript.Grammar.Expression

/-!
# The grammar of types and statements

A statement is told by its first word; any other start makes it an assignment or
the evaluation of an expression. The equals sign is an assignment only behind an
expression that is nothing but a variable or a list element.

A block has no end mark of its own. It ends before the first statement that
would start with one of the closing words, and whatever contains the block asks
for the word that it needs.
-/

namespace Blockscript.Grammar

/-- The words that no statement of a block starts with. -/
def blockEnds : List String :=
  ["END", "ELSE", "CASE", "DEFAULT"]

/-- The name of a type, with the names of its arguments in angle brackets. -/
def typeName (tokens : List Token) : Reading true String tokens :=
  (identifier .typeName tokens).andThen fun name rest _ =>
    match rest with
    | [] => nothing name []
    | token :: inner =>
      if token.text = "<" then
        (((typeName inner).andThen fun argument after _ =>
          (word ">" after).giving (name ++ "<" ++ argument ++ ">")).behind token).lax
      else
        nothing name (token :: inner)
termination_by tokens.length
decreasing_by
  have := Left.lt ‹_›
  simp only [List.length_cons] at this
  omega

/-- A colon and the name of a type, or nothing. -/
def optionalType (tokens : List Token) : Reading false (Option String) tokens :=
  optional ":" typeName tokens

/-- A declaration behind its first word. -/
def declaration (tokens : List Token) : Reading true (Stmt .bare) tokens :=
  (identifier .variableName tokens).andThen fun name rest _ =>
  (optionalType rest).andThen fun type rest _ =>
  (optional "=" expression rest).andThen fun value rest _ =>
  (word ";" rest).giving (.declaration () name type value)

/-- A return behind its first word. -/
def returning (tokens : List Token) : Reading true (Stmt .bare) tokens :=
  (expression tokens).andThen fun value rest _ =>
  (word ";" rest).giving (.returning value)

/-- A statement that starts with an expression. -/
def simple (tokens : List Token) : Reading true (Stmt .bare) tokens :=
  (expression tokens).andThen fun target rest _ =>
    if target.isPlace then
      (optional "=" expression rest).andThen fun value rest _ =>
      (word ";" rest).giving
        (match value with
        | some value => .assignment target value
        | none => .expression target)
    else
      (word ";" rest).giving (.expression target)

mutual

/-- A statement. -/
def statement (tokens : List Token) : Reading true (Stmt .bare) tokens :=
  match tokens with
  | [] => simple []
  | token :: rest =>
    if token.text = "LET" then (declaration rest).behind token
    else if token.text = "SWITCH" then (switch rest).behind token
    else if token.text = "IF" then (conditional rest).behind token
    else if token.text = "WHILE" then (loop rest).behind token
    else if token.text = "RETURN" then (returning rest).behind token
    else simple (token :: rest)
termination_by (tokens.length, 1)

/-- Statements up to a word that ends a block, or up to the end. -/
def block (tokens : List Token) : Reading false (List (Stmt .bare)) tokens :=
  match tokens with
  | [] => nothing [] []
  | token :: rest =>
    if blockEnds.contains token.text then
      nothing [] (token :: rest)
    else
      ((statement (token :: rest)).andThen fun first after _ =>
        (block after).map (first :: ·)).lax
termination_by (tokens.length, 2)

/-- A conditional behind its first word. -/
def conditional (tokens : List Token) : Reading true (Stmt .bare) tokens :=
  (expression tokens).andThen fun condition rest _ =>
  (word "DO" rest).andThen fun _ rest _ =>
  (block rest).andThen fun thenBlock rest _ =>
  (otherwise rest).andThen fun elseBlock rest _ =>
  (word "END" rest).giving (.conditional condition thenBlock elseBlock)
termination_by (tokens.length, 0)
decreasing_by
  all_goals
    simp only [Left] at *
    exact .left _ _ (by omega)

/-- The second block of a conditional, which is empty when it is left out. -/
def otherwise (tokens : List Token) : Reading false (List (Stmt .bare)) tokens :=
  match tokens with
  | [] => nothing [] []
  | token :: rest =>
    if token.text = "ELSE" then ((block rest).behind token).lax else nothing [] (token :: rest)
termination_by (tokens.length, 0)

/-- A loop behind its first word. -/
def loop (tokens : List Token) : Reading true (Stmt .bare) tokens :=
  (expression tokens).andThen fun condition rest _ =>
  (word "DO" rest).andThen fun _ rest _ =>
  (block rest).andThen fun body rest _ =>
  (word "END" rest).giving (.loop condition body)
termination_by (tokens.length, 0)
decreasing_by
  all_goals
    simp only [Left] at *
    exact .left _ _ (by omega)

/-- A switch behind its first word. -/
def switch (tokens : List Token) : Reading true (Stmt .bare) tokens :=
  (expression tokens).andThen fun subject rest _ =>
  (cases rest).andThen fun cases rest _ =>
  (word "END" rest).giving (.switch subject cases)
termination_by (tokens.length, 0)
decreasing_by
  all_goals
    simp only [Left] at *
    exact .left _ _ (by omega)

/-- Any number of labelled cases and the default, which comes last. -/
def cases (tokens : List Token) : Reading true (List (Case .bare)) tokens :=
  if startsWith "CASE" tokens then
    (case tokens).andThen fun first rest _ => (cases rest).map (first :: ·)
  else if startsWith "DEFAULT" tokens then
    (case tokens).map ([·])
  else
    refuse .caseOrDefault tokens
termination_by (tokens.length, 1)

/-- A case of a switch. Behind the word for the default a colon may be left out. -/
def case (tokens : List Token) : Reading true (Case .bare) tokens :=
  match tokens with
  | [] => refuse (.word "DEFAULT") []
  | token :: rest =>
    if token.text = "CASE" then (labelled rest).behind token
    else if token.text = "DEFAULT" then (unlabelled rest).behind token
    else refuse (.word "DEFAULT") (token :: rest)
termination_by (tokens.length, 0)

/-- A case behind its first word. -/
def labelled (tokens : List Token) : Reading true (Case .bare) tokens :=
  (expression tokens).andThen fun label rest _ =>
  (word ":" rest).andThen fun _ rest _ =>
  (block rest).map (.mk (some label))
termination_by (tokens.length, 0)
decreasing_by
  all_goals
    simp only [Left] at *
    exact .left _ _ (by omega)

/-- A default case behind its first word. -/
def unlabelled (tokens : List Token) : Reading false (Case .bare) tokens :=
  (optional ":" (nothing ()) tokens).andThen fun _ rest _ =>
  (block rest).map (.mk none)
termination_by (tokens.length, 3)
decreasing_by
  rcases Nat.lt_or_eq_of_le (Left.le ‹_›) with shorter | same
  · exact .left _ _ shorter
  · rw [same]
    exact .right _ (by decide)

end

end Blockscript.Grammar
