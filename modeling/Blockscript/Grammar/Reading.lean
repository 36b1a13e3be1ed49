import Blockscript.Numeral
import Blockscript.SyntaxError
import Blockscript.Token

/-!
# Reading tokens

A rule of the grammar reads some tokens from the front of a list and gives a
result and the tokens that are left. The result also says that the rest is not
longer than the list, and for a rule that always consumes a token that it is
shorter. Rules are combined in order, and a combination consumes a token as soon
as one of its parts does. This is what the loops of the grammar end by.

No rule goes back. The first token that does not fit ends the reading, and the
mismatch keeps the tokens from there on; so the place of an error is known
without counting. A token that should be a number and gives none ends the reading
in the same way, but it is no error of the grammar: it is told by the numeral,
and without its place.
-/

namespace Blockscript

/-- Why a text gives no tree. -/
inductive ReadFault where
  | ungrammatical (error : SyntaxError)
  | numeral (fault : NumeralFault)
deriving DecidableEq, Inhabited

end Blockscript

namespace Blockscript.Grammar

/-- Why a token does not fit: something else is wanted there, or the token gives
no number. -/
inductive Cause where
  | expected (what : Expected)
  | numeral (fault : NumeralFault)
deriving DecidableEq, Inhabited

/-- A token that does not fit, or a missing one: the cause, and the tokens from
there on. -/
structure Mismatch where
  cause : Cause
  rest : List Token
deriving Inhabited

/-- Whether `rest` may be left of `tokens` by a rule that always consumes a
token, or by one that need not. -/
abbrev Left (consumes : Bool) (rest tokens : List Token) : Prop :=
  match consumes with
  | true => rest.length < tokens.length
  | false => rest.length ≤ tokens.length

/-- What a rule has read. -/
structure Read (consumes : Bool) (α : Type) (tokens : List Token) where
  value : α
  rest : List Token
  left : Left consumes rest tokens

/-- The outcome of a rule. -/
abbrev Reading (consumes : Bool) (α : Type) (tokens : List Token) :=
  Except Mismatch (Read consumes α tokens)

/-- What is left behind a reading that consumes is shorter. -/
theorem Left.lt {rest tokens : List Token} (left : Left true rest tokens) :
    rest.length < tokens.length :=
  left

/-- What is left behind a reading is never longer. -/
theorem Left.le {consumes : Bool} {rest tokens : List Token} (left : Left consumes rest tokens) :
    rest.length ≤ tokens.length := by
  cases consumes <;> simp only [Left] at left <;> omega

/-- Two readings behind one another consume when one of them does. -/
theorem Left.trans {first second : Bool} {last middle tokens : List Token}
    (later : Left second last middle) (earlier : Left first middle tokens) :
    Left (first || second) last tokens := by
  cases first <;> cases second <;> simp [Left] at * <;> omega

/-- The rule that reads nothing. -/
def nothing {α : Type} (value : α) (tokens : List Token) : Reading false α tokens :=
  .ok ⟨value, tokens, by simp [Left]⟩

/-- The rule that accepts nothing. -/
def refuse {consumes : Bool} {α : Type} (expected : Expected) (tokens : List Token) :
    Reading consumes α tokens :=
  .error ⟨.expected expected, tokens⟩

/-- The rule that stops at a token that gives no number. -/
def spoil {consumes : Bool} {α : Type} (fault : NumeralFault) (tokens : List Token) :
    Reading consumes α tokens :=
  .error ⟨.numeral fault, tokens⟩

/-- One rule after another. The second one learns how much the first has left. -/
def Reading.andThen {first second : Bool} {α β : Type} {tokens : List Token}
    (reading : Reading first α tokens)
    (next : (value : α) → (rest : List Token) → Left first rest tokens →
      Reading second β rest) :
    Reading (first || second) β tokens :=
  match reading with
  | .error mismatch => .error mismatch
  | .ok ⟨value, rest, left⟩ =>
    match next value rest left with
    | .error mismatch => .error mismatch
    | .ok ⟨result, last, later⟩ => .ok ⟨result, last, later.trans left⟩

/-- A rule with its result put into another form. -/
def Reading.map {consumes : Bool} {α β : Type} {tokens : List Token} (form : α → β)
    (reading : Reading consumes α tokens) : Reading consumes β tokens :=
  match reading with
  | .error mismatch => .error mismatch
  | .ok ⟨value, rest, left⟩ => .ok ⟨form value, rest, left⟩

/-- A rule with another result. -/
def Reading.giving {consumes : Bool} {α β : Type} {tokens : List Token}
    (reading : Reading consumes α tokens) (result : β) : Reading consumes β tokens :=
  reading.map fun _ => result

/-- A rule of which it is forgotten that it consumes a token. -/
def Reading.lax {consumes : Bool} {α : Type} {tokens : List Token}
    (reading : Reading consumes α tokens) : Reading false α tokens :=
  match reading with
  | .error mismatch => .error mismatch
  | .ok ⟨value, rest, left⟩ => .ok ⟨value, rest, by simpa [Left] using left.le⟩

/-- A rule behind a token that has been looked at. -/
def Reading.behind {consumes : Bool} {α : Type} {rest : List Token}
    (reading : Reading consumes α rest) (token : Token) : Reading true α (token :: rest) :=
  match reading with
  | .error mismatch => .error mismatch
  | .ok ⟨value, last, left⟩ =>
    .ok ⟨value, last, by simpa [Left] using Nat.lt_succ_of_le left.le⟩

/-- Whether the next token has the given text. -/
def startsWith (text : String) : List Token → Bool
  | [] => false
  | token :: _ => token.text = text

/-- Reads a token with the given text, which is asked for by its own name. -/
def wordAs (expected : Expected) (text : String) (tokens : List Token) : Reading true Unit tokens :=
  match tokens with
  | [] => refuse expected []
  | token :: rest =>
    if token.text = text then (nothing () rest).behind token else refuse expected (token :: rest)

/-- Reads a token with the given text. -/
def word (text : String) (tokens : List Token) : Reading true Unit tokens :=
  wordAs (.word text) text tokens

/-- Reads an identifier. Keywords are identifiers too. -/
def identifier (expected : Expected) (tokens : List Token) : Reading true String tokens :=
  match tokens with
  | [] => refuse expected []
  | token :: rest =>
    if token.kind = .identifier then (nothing token.text rest).behind token
    else refuse expected (token :: rest)

/-- Reads a token with the given text if it is there, and then what has to
follow it. -/
def optional {consumes : Bool} {α : Type} (text : String)
    (rule : (tokens : List Token) → Reading consumes α tokens) (tokens : List Token) :
    Reading false (Option α) tokens :=
  match tokens with
  | [] => nothing none []
  | token :: rest =>
    if token.text = text then (((rule rest).map some).behind token).lax
    else nothing none (token :: rest)

/-- The place of a mismatch in a token list: the first token left, or the end of
the last token when none is left. -/
def Mismatch.offset (tokens : List Token) (mismatch : Mismatch) : Nat :=
  match mismatch.rest with
  | token :: _ => token.offset
  | [] => (tokens.getLast?.map Token.stop).getD 0

/-- What a mismatch in a token list is told as. Only errors of the grammar have a
place. -/
def Mismatch.toFault (tokens : List Token) (mismatch : Mismatch) : ReadFault :=
  match mismatch.cause with
  | .expected what => .ungrammatical ⟨.expected what, mismatch.offset tokens⟩
  | .numeral fault => .numeral fault

/-- The result of a rule applied to a whole token list, and how many tokens it
has read. What follows them is not looked at. -/
def finish {consumes : Bool} {α : Type} {tokens : List Token}
    (reading : Reading consumes α tokens) : Except ReadFault (α × Nat) :=
  match reading with
  | .error mismatch => .error (mismatch.toFault tokens)
  | .ok ⟨value, rest, _⟩ => .ok (value, tokens.length - rest.length)

end Blockscript.Grammar
