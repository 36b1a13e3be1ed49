import Blockscript.Proofs.Grammar.Attempt
import Blockscript.Proofs.Grammar.Completeness
import Blockscript.Proofs.Grammar.Locality

/-!
# Attempts follow readings

An attempt whose calls all come to an end, comes to an end itself, and has the outcome of the
rule as a function of the tokens. Its calls are on fewer tokens than it was given, but for a
few rules that call others before any token is taken away. Those calls go down a short ladder
of rules, and so a budget that is linear in the number of tokens is never used up.
-/

namespace Blockscript.Grammar

variable {first second consumes : Bool} {α β : Type} {tokens rest : List Token} {token : Token}

/-! ## Attempts that follow readings -/

/-- The outcome of a rule, apart from how much it leaves. -/
def Reading.plain (reading : Reading consumes α tokens) : Except Mismatch (α × List Token) :=
  match reading with
  | .error mismatch => .error mismatch
  | .ok ⟨value, rest, _⟩ => .ok (value, rest)

/-- The attempt is not broken off, and has the outcome of the reading. -/
def Attempt.Follows (attempt : Attempt α) (reading : Reading consumes α tokens) : Prop :=
  attempt.run tokens = some reading.plain

/-- What it is to follow, as a rule to rewrite with. -/
theorem Attempt.follows_iff {attempt : Attempt α} {reading : Reading consumes α tokens} :
    attempt.Follows reading ↔ attempt.run tokens = some reading.plain :=
  Iff.rfl

namespace Attempt

variable {attempt : Attempt α} {reading : Reading first α tokens}

/-- Giving a value is what the rule does that reads nothing. -/
theorem follows_pure (value : α) : Follows (pure value) (nothing value tokens) :=
  rfl

/-- Refusing is what the rule does that refuses. -/
theorem follows_refused (expected : Expected) :
    Follows (refused expected) (refuse expected tokens : Reading consumes α tokens) :=
  rfl

/-- Stopping at a numeral is what the rule does that stops there. -/
theorem follows_spoiled (fault : NumeralFault) :
    Follows (spoiled fault) (spoil fault tokens : Reading consumes α tokens) :=
  rfl

/-- A run of two attempts in order is a run of the first one, and on what it leaves one of the
second. -/
theorem run_bind {after : α → Attempt β} :
    (attempt >>= after).run tokens = Option.bind (attempt.run tokens)
      (ExceptT.bindCont fun read : α × List Token => (after read.1).run read.2) :=
  rfl

/-- One after another. -/
theorem Follows.bind {after : α → Attempt β}
    {next : (value : α) → (rest : List Token) → Left first rest tokens → Reading second β rest}
    (earlier : Follows attempt reading)
    (later : ∀ value rest left, Follows (after value) (next value rest left)) :
    Follows (attempt >>= after) (reading.andThen next) := by
  rw [follows_iff, run_bind, earlier]
  unfold Reading.andThen
  cases reading with
  | error mismatch => rfl
  | ok read =>
    obtain ⟨value, rest, left⟩ := read
    refine (later value rest left).trans ?_
    simp only
    cases next value rest left with
    | error mismatch => rfl
    | ok read => rfl

/-- The value in another form. -/
theorem Follows.map {form : α → β} (follows : Follows attempt reading) :
    Follows (attempt >>= fun value => pure (form value)) (reading.map form) := by
  rw [follows_iff, run_bind, follows]
  cases reading with
  | error mismatch => rfl
  | ok read => rfl

/-- Another value in place of the one that was read. -/
theorem Follows.giving {result : β} (follows : Follows attempt reading) :
    Follows (attempt >>= fun _ => pure result) (reading.giving result) :=
  follows.map

/-- To promise less about what is left changes nothing about the outcome. -/
@[simp] theorem plain_lax : reading.lax.plain = reading.plain := by
  cases reading with
  | error mismatch => rfl
  | ok read => rfl

/-- A token that stands before changes nothing about the outcome. -/
@[simp] theorem plain_behind {reading : Reading consumes α rest} :
    (reading.behind token).plain = reading.plain := by
  cases reading with
  | error mismatch => rfl
  | ok read => rfl

/-- To look at the next token takes nothing away. -/
@[simp] theorem run_next? {after : Option Token → Attempt α} :
    (next? >>= after).run tokens = (after tokens.head?).run tokens :=
  rfl

/-- To skip a token goes on behind it. -/
@[simp] theorem run_skip {after : Unit → Attempt α} :
    (skip >>= after).run (token :: rest) = (after ()).run rest :=
  rfl

/-- To look for a word takes nothing away. -/
@[simp] theorem run_sees {text : String} {after : Bool → Attempt α} :
    (sees text >>= after).run tokens = (after (startsWith text tokens)).run tokens :=
  rfl

/-- To accept a word goes on behind it if it is there, and with every token otherwise. -/
@[simp] theorem run_accepts_cons {text : String} {after : Bool → Attempt α} :
    (accepts text >>= after).run (token :: rest) =
      if token.text = text then (after true).run rest else (after false).run (token :: rest) := by
  rw [accepts, bind_assoc, run_sees, startsWith]
  by_cases same : token.text = text
  · simp only [same, decide_true, ↓reduceIte]
    rfl
  · simp only [same, decide_false, Bool.false_eq_true, ↓reduceIte]
    rfl

/-- To expect a word goes on behind it if it is there, and refuses otherwise. -/
theorem run_expectAs_cons {expected : Expected} {text : String} {after : Unit → Attempt α} :
    (expectAs expected text >>= after).run (token :: rest) =
      if token.text = text then (after ()).run rest
      else (refused expected : Attempt α).run (token :: rest) := by
  rw [expectAs, bind_assoc, run_accepts_cons]
  by_cases same : token.text = text
  · simp only [same, ↓reduceIte]
    rfl
  · simp only [same, Bool.false_eq_true, ↓reduceIte]
    rfl

/-- Expecting a word, under whichever name, is what the rule of the word does. -/
theorem follows_expectAs (expected : Expected) (text : String) (tokens : List Token) :
    Follows (expectAs expected text) (wordAs expected text tokens) := by
  rw [follows_iff, expectAs]
  cases tokens with
  | nil => rfl
  | cons token rest =>
    rw [run_accepts_cons, wordAs]
    by_cases same : token.text = text
    · simp only [same, ↓reduceIte, plain_behind]
      rfl
    · simp only [same, Bool.false_eq_true, ↓reduceIte]
      rfl

/-- Expecting a word is what its rule does. -/
theorem follows_expect (text : String) (tokens : List Token) :
    Follows (expect text) (word text tokens) :=
  follows_expectAs _ text tokens

/-- Taking a name is what the rule of names does. -/
theorem follows_takeName (expected : Expected) (tokens : List Token) :
    Follows (takeName expected) (identifier expected tokens) := by
  rw [follows_iff, takeName, run_next?]
  cases tokens with
  | nil => rfl
  | cons token rest =>
    by_cases kind : token.kind = .identifier
    · simp only [List.head?_cons, identifier, kind, ↓reduceIte, plain_behind]
      rfl
    · simp only [List.head?_cons, identifier, kind, ↓reduceIte]
      rfl

/-- A part that is there if its word is. -/
theorem follows_optional {text : String} {rule : (tokens : List Token) → Reading first α tokens}
    (inside : ∀ token rest, tokens = token :: rest → Follows attempt (rule rest)) :
    Follows (Attempt.optional text attempt) (Grammar.optional text rule tokens) := by
  rw [follows_iff, Attempt.optional]
  cases tokens with
  | nil => rfl
  | cons token rest =>
    rw [run_accepts_cons, Grammar.optional]
    by_cases same : token.text = text
    · simp only [same, ↓reduceIte, plain_lax, plain_behind]
      exact (inside token rest rfl).map
    · simp only [same, Bool.false_eq_true, ↓reduceIte]
      rfl

end Attempt

/-! ## What rules call -/

namespace Rule

/-- How many calls a rule may make before a token is taken away. -/
def rank : {consumes : Bool} → {α : Type} → Rule consumes α → Nat
  | _, _, level depth => levels.length - depth + 1
  | _, _, items _ | _, _, returning | _, _, simple | _, _, conditional | _, _, loop
  | _, _, switch | _, _, labelled => levels.length + 2
  | _, _, arguments _ | _, _, statement => levels.length + 3
  | _, _, block => levels.length + 4
  | _, _, unlabelled => levels.length + 5
  | _, _, parameterList | _, _, program => 2
  | _, _, cases | _, _, parameters | _, _, globals | _, _, functions => 1
  | _, _, _ => 0

/-- The ladder of rules has ten steps. -/
theorem rank_lt (rule : Rule consumes α) : rule.rank < 10 := by
  cases rule with
  | level depth => simp only [rank, levels, List.length_cons, List.length_nil]; omega
  | _ => simp [rank, levels]

end Rule

namespace Attempt

variable {call : {consumes : Bool} → {α : Type} → Rule consumes α → Attempt α}

/-- The calls end like readings: those of any rule on fewer tokens, and on no more tokens
those of the rules that come sooner to taking a token away. -/
structure Reliable (call : {consumes : Bool} → {α : Type} → Rule consumes α → Attempt α)
    (rank : Nat) (tokens : List Token) : Prop where
  fewer {consumes : Bool} {α : Type} (rule : Rule consumes α) {rest : List Token} :
    rule.rank < rank → rest.length ≤ tokens.length → (call rule).Follows (rule.reading rest)
  shorter {consumes : Bool} {α : Type} (rule : Rule consumes α) {rest : List Token} :
    rest.length < tokens.length → (call rule).Follows (rule.reading rest)

/-- A call to a rule that is lower on the ladder is reliable on the same tokens. -/
theorem Reliable.lower {rank : Nat} (reliable : Reliable call rank tokens)
    (rule : Rule consumes α) (sooner : rule.rank < rank) :
    (call rule).Follows (rule.reading tokens) :=
  reliable.fewer rule sooner le_rfl

/-! ### Expressions -/

/-- A level of operators calls the tighter level, which is lower on the ladder, and then its
chain. -/
theorem level_follows {depth : Nat} (reliable : Reliable call (Rule.level depth).rank tokens) :
    (level call depth).Follows (Grammar.level (levels.drop depth) tokens) := by
  rw [level]
  by_cases inside : depth < levels.length
  · have split : levels.drop depth = Rule.operatorsAt depth :: levels.drop (depth + 1) := by
      rw [List.drop_eq_getElem_cons inside, Rule.operatorsAt, List.getElem?_eq_getElem inside]
      rfl
    have lower : (Rule.level (depth + 1)).rank < (Rule.level depth).rank := by
      change levels.length - (depth + 1) + 1 < levels.length - depth + 1
      omega
    rw [if_pos inside, split, Grammar.level]
    exact (reliable.lower (.level (depth + 1)) lower).bind fun left rest shorter =>
      reliable.shorter (.chain depth left) shorter
  · rw [if_neg inside, List.drop_eq_nil_of_le (Nat.le_of_not_lt inside), Grammar.level]
    exact reliable.lower .primary (Nat.succ_pos _)

/-- A chain calls what stands behind an operator, on fewer tokens. -/
theorem chain_follows {depth : Nat} {left : Expr .bare} (reliable : Reliable call 0 tokens) :
    (chain call depth left).Follows
      (Grammar.chain (Rule.operatorsAt depth) (levels.drop (depth + 1)) left tokens) := by
  rw [follows_iff, chain, run_next?]
  cases tokens with
  | nil =>
    rw [Grammar.chain]
    exact follows_pure _
  | cons token tail =>
    rw [Grammar.chain]
    by_cases operator : (Rule.operatorsAt depth).contains token.text = true
    · simp only [List.head?_cons, operator, ↓reduceIte, run_skip, plain_lax, plain_behind]
      refine (reliable.shorter (.level (depth + 1)) (by simp)).bind fun right rest shorter => ?_
      exact reliable.shorter (.chain depth (.binary () token.text left right))
        (Nat.lt_succ_of_lt shorter)
    · simp only [List.head?_cons, operator, Bool.false_eq_true, ↓reduceIte]
      exact follows_pure _

/-- An operand calls only behind its first token. -/
theorem primary_follows (reliable : Reliable call 0 tokens) :
    (primary call).Follows (Grammar.primary tokens) := by
  rw [follows_iff, primary, run_next?]
  cases tokens with
  | nil =>
    rw [Grammar.primary]
    exact follows_refused _
  | cons token tail =>
    rw [Grammar.primary]
    cases read : literal? token with
    | some outcome =>
      cases outcome with
      | ok literal =>
        simp only [List.head?_cons, read, run_skip, plain_behind]
        exact follows_pure _
      | error fault =>
        simp only [List.head?_cons, read]
        exact follows_spoiled fault
    | none =>
      by_cases group : token.text = "("
      · simp only [List.head?_cons, read, group, ↓reduceIte, run_skip, plain_behind]
        refine (reliable.shorter (.level 0) (by simp)).bind fun inner rest _ => ?_
        exact (follows_expectAs .closingParenthesis ")" rest).giving
      by_cases list : token.text = "["
      · simp only [List.head?_cons, read, list, String.reduceEq, ↓reduceIte, run_skip, plain_behind]
        exact (reliable.shorter (.arguments "]") (by simp)).map
      by_cases name : token.kind = .identifier
      · simp only [List.head?_cons, read, group, list, name, ↓reduceIte, run_skip, plain_behind]
        exact reliable.shorter (.afterName token.text) (by simp)
      · simp only [List.head?_cons, read, group, list, name, ↓reduceIte]
        exact follows_refused _

/-- What stands behind a name calls only behind a parenthesis or a bracket. -/
theorem afterName_follows {name : String} (reliable : Reliable call 0 tokens) :
    (afterName call name).Follows (Grammar.afterName name tokens) := by
  rw [follows_iff, afterName]
  cases tokens with
  | nil =>
    rw [Grammar.afterName]
    exact follows_pure _
  | cons token tail =>
    rw [run_accepts_cons, Grammar.afterName]
    by_cases offset : token.text = "["
    · simp only [offset, ↓reduceIte, plain_lax, plain_behind]
      refine (reliable.shorter (.level 0) (by simp)).bind fun inner rest _ => ?_
      exact (follows_expectAs .closingBracket "]" rest).giving
    by_cases applied : token.text = "("
    · simp only [applied, String.reduceEq, Bool.false_eq_true, ↓reduceIte, run_accepts_cons,
        plain_lax, plain_behind]
      exact (reliable.shorter (.arguments ")") (by simp)).map
    · simp only [offset, applied, Bool.false_eq_true, ↓reduceIte, run_accepts_cons]
      exact follows_pure _

/-- Arguments call items on the same tokens, unless they are closed at once. -/
theorem arguments_follows {closing : String}
    (reliable : Reliable call (Rule.arguments closing).rank tokens) :
    (arguments call closing).Follows (Grammar.arguments closing tokens) := by
  have inside := reliable.lower (.items closing) (Nat.lt_succ_self _)
  rw [follows_iff, arguments]
  cases tokens with
  | nil =>
    rw [Grammar.arguments]
    exact inside
  | cons token tail =>
    rw [run_accepts_cons, Grammar.arguments]
    by_cases closed : token.text = closing
    · simp only [closed, ↓reduceIte, plain_behind]
      exact follows_pure _
    · simp only [closed, Bool.false_eq_true, ↓reduceIte]
      exact inside

/-- Items call an expression on the same tokens, and further items behind it. -/
theorem items_follows {closing : String}
    (reliable : Reliable call (Rule.items closing).rank tokens) :
    (items call closing).Follows (Grammar.items closing tokens) := by
  have sooner : (Rule.level 0).rank < levels.length + 2 := by decide
  rw [items, Grammar.items]
  refine (reliable.lower (.level 0) sooner).bind fun first rest shorter => ?_
  exact (reliable.shorter (.moreItems closing) shorter).map

/-- Further items call items behind a comma. -/
theorem moreItems_follows {closing : String} (reliable : Reliable call 0 tokens) :
    (moreItems call closing).Follows (Grammar.moreItems closing tokens) := by
  rw [follows_iff, moreItems]
  cases tokens with
  | nil =>
    rw [Grammar.moreItems]
    exact follows_refused _
  | cons token tail =>
    rw [run_accepts_cons, Grammar.moreItems]
    by_cases closed : token.text = closing
    · simp only [closed, ↓reduceIte, plain_behind]
      exact follows_pure _
    by_cases comma : token.text = ","
    · have other : ¬ "," = closing := comma ▸ closed
      simp only [comma, other, Bool.false_eq_true, ↓reduceIte, run_accepts_cons, plain_behind]
      exact reliable.shorter (.items closing) (by simp)
    · simp only [closed, comma, Bool.false_eq_true, ↓reduceIte, run_accepts_cons]
      exact follows_refused _

/-! ### Types and statements -/

/-- A type name calls another one behind its first two tokens. -/
theorem typeName_follows (reliable : Reliable call 0 tokens) :
    (typeName call).Follows (Grammar.typeName tokens) := by
  rw [typeName, typeName_eq]
  refine (follows_takeName .typeName tokens).bind fun name rest shorter => ?_
  cases rest with
  | nil =>
    rw [afterType]
    exact follows_pure _
  | cons token tail =>
    rw [follows_iff, run_accepts_cons, afterType]
    by_cases opening : token.text = "<"
    · simp only [opening, ↓reduceIte, plain_lax, plain_behind]
      refine (reliable.shorter .typeName (Nat.lt_of_succ_lt shorter)).bind ?_
      intro argument after _
      exact (follows_expect ">" after).giving
    · simp only [opening, Bool.false_eq_true, ↓reduceIte]
      exact follows_pure _

/-- An optional type calls a type name behind its colon. -/
theorem optionalType_follows (reliable : Reliable call 0 tokens) :
    (optionalType call).Follows (Grammar.optionalType tokens) := by
  rw [optionalType, Grammar.optionalType]
  refine follows_optional fun token rest same => ?_
  exact reliable.shorter .typeName (by simp [same])

/-- A value behind an equals sign, on no more tokens. -/
theorem optionalValue_follows {rank : Nat} (reliable : Reliable call rank tokens)
    (fewer : rest.length ≤ tokens.length) :
    (Attempt.optional "=" (call (.level 0))).Follows (Grammar.optional "=" expression rest) := by
  refine follows_optional fun token inner same => ?_
  refine reliable.shorter (.level 0) ?_
  rw [same, List.length_cons] at fewer
  omega

/-- A declaration calls only behind its name. -/
theorem declaration_follows (reliable : Reliable call 0 tokens) :
    (declaration call).Follows (Grammar.declaration tokens) := by
  rw [declaration, Grammar.declaration]
  refine (follows_takeName .variableName tokens).bind fun name rest named => ?_
  refine (reliable.shorter .optionalType named).bind fun type rest typed => ?_
  refine (optionalValue_follows reliable (typed.trans named).le).bind fun value rest _ => ?_
  exact (follows_expect ";" rest).giving

/-- A return calls an expression on the same tokens. -/
theorem returning_follows (reliable : Reliable call Rule.returning.rank tokens) :
    (returning call).Follows (Grammar.returning tokens) := by
  rw [returning, Grammar.returning]
  refine (reliable.lower (.level 0) (by decide)).bind fun value rest _ => ?_
  exact (follows_expect ";" rest).giving

/-- A simple statement calls an expression on the same tokens, and another one behind the equals
sign. -/
theorem simple_follows (reliable : Reliable call Rule.simple.rank tokens) :
    (simple call).Follows (Grammar.simple tokens) := by
  rw [simple, Grammar.simple]
  refine (reliable.lower (.level 0) (by decide)).bind fun target rest shorter => ?_
  by_cases place : target.isPlace = true
  · simp only [place, ↓reduceIte]
    refine (optionalValue_follows reliable shorter.le).bind fun value rest _ => ?_
    exact (follows_expect ";" rest).giving
  · simp only [place, Bool.false_eq_true, ↓reduceIte]
    exact (follows_expect ";" rest).giving

/-- A statement calls the simple one on the same tokens, and the others behind their first word.
-/
theorem statement_follows (reliable : Reliable call Rule.statement.rank tokens) :
    (statement call).Follows (Grammar.statement tokens) := by
  have other := reliable.lower .simple (by decide)
  rw [follows_iff, statement]
  cases tokens with
  | nil =>
    rw [Grammar.statement]
    exact other
  | cons token tail =>
    rw [run_accepts_cons, Grammar.statement]
    have shorter : tail.length < (token :: tail).length := by simp
    by_cases declares : token.text = "LET"
    · simp only [declares, ↓reduceIte, plain_behind]
      exact reliable.shorter .declaration shorter
    by_cases switches : token.text = "SWITCH"
    · simp only [switches, String.reduceEq, Bool.false_eq_true, ↓reduceIte, run_accepts_cons,
        plain_behind]
      exact reliable.shorter .switch shorter
    by_cases decides : token.text = "IF"
    · simp only [decides, String.reduceEq, Bool.false_eq_true, ↓reduceIte, run_accepts_cons,
        plain_behind]
      exact reliable.shorter .conditional shorter
    by_cases repeats : token.text = "WHILE"
    · simp only [repeats, String.reduceEq, Bool.false_eq_true, ↓reduceIte, run_accepts_cons,
        plain_behind]
      exact reliable.shorter .loop shorter
    by_cases returns : token.text = "RETURN"
    · simp only [returns, String.reduceEq, Bool.false_eq_true, ↓reduceIte, run_accepts_cons,
        plain_behind]
      exact reliable.shorter .returning shorter
    · simp only [declares, switches, decides, repeats, returns, Bool.false_eq_true, ↓reduceIte,
        run_accepts_cons]
      exact other

/-- A block calls a statement on the same tokens, and the rest of the block behind it. -/
theorem block_follows (reliable : Reliable call Rule.block.rank tokens) :
    (block call).Follows (Grammar.block tokens) := by
  have first := reliable.lower .statement (by decide)
  rw [follows_iff, block, run_next?]
  cases tokens with
  | nil =>
    rw [Grammar.block]
    exact follows_pure _
  | cons token tail =>
    rw [Grammar.block]
    by_cases ends : blockEnds.contains token.text = true
    · simp only [List.head?_cons, ends, ↓reduceIte]
      exact follows_pure _
    · simp only [List.head?_cons, ends, Bool.false_eq_true, ↓reduceIte, plain_lax]
      exact first.bind fun statement rest shorter => (reliable.shorter .block shorter).map

/-- A conditional calls an expression on the same tokens, and all else behind it. -/
theorem conditional_follows (reliable : Reliable call Rule.conditional.rank tokens) :
    (conditional call).Follows (Grammar.conditional tokens) := by
  rw [conditional, Grammar.conditional]
  refine (reliable.lower (.level 0) (by decide)).bind fun condition rest tested => ?_
  refine (follows_expect "DO" rest).bind fun _ rest begun => ?_
  refine (reliable.shorter .block (begun.trans tested).lt).bind fun thenBlock rest done => ?_
  have behind := (done.trans (begun.trans tested)).lt
  refine (reliable.shorter .otherwise behind).bind fun elseBlock rest _ => ?_
  exact (follows_expect "END" rest).giving

/-- The other branch calls only behind its ELSE. -/
theorem otherwise_follows (reliable : Reliable call 0 tokens) :
    (otherwise call).Follows (Grammar.otherwise tokens) := by
  rw [follows_iff, otherwise]
  cases tokens with
  | nil =>
    rw [Grammar.otherwise]
    exact follows_pure _
  | cons token tail =>
    rw [run_accepts_cons, Grammar.otherwise]
    by_cases divides : token.text = "ELSE"
    · simp only [divides, ↓reduceIte, plain_lax, plain_behind]
      exact reliable.shorter .block (by simp)
    · simp only [divides, Bool.false_eq_true, ↓reduceIte]
      exact follows_pure _

/-- A loop calls an expression on the same tokens, and its block behind it. -/
theorem loop_follows (reliable : Reliable call Rule.loop.rank tokens) :
    (loop call).Follows (Grammar.loop tokens) := by
  rw [loop, Grammar.loop]
  refine (reliable.lower (.level 0) (by decide)).bind fun condition rest tested => ?_
  refine (follows_expect "DO" rest).bind fun _ rest begun => ?_
  refine (reliable.shorter .block (begun.trans tested).lt).bind fun body rest _ => ?_
  exact (follows_expect "END" rest).giving

/-- A switch calls an expression on the same tokens, and its cases behind it. -/
theorem switch_follows (reliable : Reliable call Rule.switch.rank tokens) :
    (switch call).Follows (Grammar.switch tokens) := by
  rw [switch, Grammar.switch]
  refine (reliable.lower (.level 0) (by decide)).bind fun subject rest shorter => ?_
  refine (reliable.shorter .cases shorter).bind fun cases rest _ => ?_
  exact (follows_expect "END" rest).giving

/-- Cases call the first one on the same tokens, and the others behind it. -/
theorem cases_follows (reliable : Reliable call Rule.cases.rank tokens) :
    (cases call).Follows (Grammar.cases tokens) := by
  have first := reliable.lower .case (by decide)
  rw [follows_iff, cases, run_sees, Grammar.cases]
  by_cases label : startsWith "CASE" tokens = true
  · simp only [label, ↓reduceIte]
    exact first.bind fun case rest shorter => (reliable.shorter .cases shorter).map
  by_cases default : startsWith "DEFAULT" tokens = true
  · simp only [label, default, Bool.false_eq_true, ↓reduceIte, run_sees]
    exact first.map
  · simp only [label, default, Bool.false_eq_true, ↓reduceIte, run_sees]
    exact follows_refused _

/-- A case calls only behind its first word. -/
theorem case_follows (reliable : Reliable call 0 tokens) :
    (case call).Follows (Grammar.case tokens) := by
  rw [follows_iff, case]
  cases tokens with
  | nil =>
    rw [Grammar.case]
    rfl
  | cons token tail =>
    rw [run_accepts_cons, Grammar.case]
    by_cases label : token.text = "CASE"
    · simp only [label, ↓reduceIte, plain_behind]
      exact reliable.shorter .labelled (by simp)
    by_cases default : token.text = "DEFAULT"
    · simp only [default, String.reduceEq, Bool.false_eq_true, ↓reduceIte, expect,
        run_expectAs_cons, plain_behind]
      exact reliable.shorter .unlabelled (by simp)
    · simp only [label, default, Bool.false_eq_true, ↓reduceIte, expect, run_expectAs_cons]
      exact follows_refused _

/-- A labelled case calls an expression on the same tokens, and its block behind it. -/
theorem labelled_follows (reliable : Reliable call Rule.labelled.rank tokens) :
    (labelled call).Follows (Grammar.labelled tokens) := by
  rw [labelled, Grammar.labelled]
  refine (reliable.lower (.level 0) (by decide)).bind fun label rest tested => ?_
  refine (follows_expect ":" rest).bind fun _ rest begun => ?_
  exact (reliable.shorter .block (begun.trans tested).lt).map

/-- The last case calls its block on the same tokens, or behind its colon. -/
theorem unlabelled_follows (reliable : Reliable call Rule.unlabelled.rank tokens) :
    (unlabelled call).Follows (Grammar.unlabelled tokens) := by
  rw [unlabelled, Grammar.unlabelled]
  refine (follows_optional fun _ inner _ => follows_pure ()).bind fun _ rest fewer => ?_
  exact (reliable.fewer .block (by decide) fewer.le).map

/-! ### Programs -/

/-- A global list calls only behind its name. -/
theorem listGlobal_follows (reliable : Reliable call 0 tokens) :
    (listGlobal call).Follows (Grammar.listGlobal tokens) := by
  rw [listGlobal, Grammar.listGlobal]
  refine (follows_takeName .listName tokens).bind fun name rest named => ?_
  refine (reliable.shorter .optionalType named).bind fun element rest typed => ?_
  refine (follows_expect "=" rest).bind fun _ rest assigned => ?_
  refine (follows_expect "[" rest).bind fun _ rest opened => ?_
  have behind := (opened.trans (assigned.trans (typed.trans named))).lt
  rw [follows_iff, run_sees]
  by_cases empty : startsWith "]" rest = true
  · simp only [empty, ↓reduceIte]
    exact follows_refused _
  · simp only [empty, Bool.false_eq_true, ↓reduceIte]
    exact (reliable.shorter (.items "]") behind).map

/-- A global variable calls only behind its name. -/
theorem mutableGlobal_follows (reliable : Reliable call 0 tokens) :
    (mutableGlobal call).Follows (Grammar.mutableGlobal tokens) := by
  rw [mutableGlobal, Grammar.mutableGlobal]
  refine (follows_takeName .variableName tokens).bind fun name rest named => ?_
  refine (reliable.shorter .optionalType named).bind fun type rest typed => ?_
  exact (optionalValue_follows reliable (typed.trans named).le).map

/-- A global constant calls only behind its name. -/
theorem immutableGlobal_follows (reliable : Reliable call 0 tokens) :
    (immutableGlobal call).Follows (Grammar.immutableGlobal tokens) := by
  rw [immutableGlobal, Grammar.immutableGlobal]
  refine (follows_takeName .variableName tokens).bind fun name rest named => ?_
  refine (reliable.shorter .optionalType named).bind fun type rest typed => ?_
  refine (follows_expectAs .immutableValue "=" rest).bind fun _ rest assigned => ?_
  exact (reliable.shorter (.level 0) (assigned.trans (typed.trans named)).lt).map

/-- A global calls only behind its first word. -/
theorem globalDef_follows (reliable : Reliable call 0 tokens) :
    (globalDef call).Follows (Grammar.globalDef tokens) := by
  rw [follows_iff, globalDef]
  cases tokens with
  | nil =>
    rw [Grammar.globalDef]
    rfl
  | cons token tail =>
    have closed {rule : Rule true (GlobalDef .bare)} :
        Follows (call rule >>= fun definition => expect ";" >>= fun _ => pure definition)
          ((rule.reading tail).andThen fun definition rest _ =>
            (word ";" rest).giving definition) :=
      (reliable.shorter rule (by simp)).bind fun definition rest _ =>
        (follows_expect ";" rest).giving
    rw [openGlobal, bind_assoc, run_accepts_cons, Grammar.globalDef]
    by_cases list : token.text = "LIST"
    · simp only [list, ↓reduceIte, plain_behind]
      exact closed
    by_cases mutable : token.text = "VAR"
    · simp only [mutable, String.reduceEq, Bool.false_eq_true, ↓reduceIte, bind_assoc,
        run_accepts_cons, plain_behind]
      exact closed
    by_cases immutable : token.text = "VAL"
    · simp only [immutable, String.reduceEq, Bool.false_eq_true, ↓reduceIte, bind_assoc,
        run_accepts_cons, plain_behind]
      exact closed
    · simp only [list, mutable, immutable, Bool.false_eq_true, ↓reduceIte, bind_assoc,
        run_accepts_cons]
      rfl

/-- A parameter calls only behind its name. -/
theorem parameter_follows (reliable : Reliable call 0 tokens) :
    (parameter call).Follows (Grammar.parameter tokens) := by
  rw [parameter, Grammar.parameter]
  refine (follows_takeName .parameterName tokens).bind fun name rest named => ?_
  exact (reliable.shorter .optionalType named).map

/-- Parameters call the first one on the same tokens, and the others behind it. -/
theorem parameters_follows (reliable : Reliable call Rule.parameters.rank tokens) :
    (parameters call).Follows (Grammar.parameters tokens) := by
  rw [parameters, Grammar.parameters]
  refine (reliable.lower .parameter (by decide)).bind fun first rest shorter => ?_
  exact (reliable.shorter .moreParameters shorter).map

/-- Further parameters call parameters behind a comma. -/
theorem moreParameters_follows (reliable : Reliable call 0 tokens) :
    (moreParameters call).Follows (Grammar.moreParameters tokens) := by
  rw [follows_iff, moreParameters]
  cases tokens with
  | nil =>
    rw [Grammar.moreParameters]
    exact follows_refused _
  | cons token tail =>
    rw [run_accepts_cons, Grammar.moreParameters]
    by_cases closed : token.text = ")"
    · simp only [closed, ↓reduceIte, plain_behind]
      exact follows_pure _
    by_cases comma : token.text = ","
    · simp only [comma, String.reduceEq, Bool.false_eq_true, ↓reduceIte, run_accepts_cons,
        plain_behind]
      exact reliable.shorter .parameters (by simp)
    · simp only [closed, comma, Bool.false_eq_true, ↓reduceIte, run_accepts_cons]
      exact follows_refused _

/-- A parameter list calls parameters on the same tokens, unless it is closed at once. -/
theorem parameterList_follows (reliable : Reliable call Rule.parameterList.rank tokens) :
    (parameterList call).Follows (Grammar.parameterList tokens) := by
  have inside := reliable.lower .parameters (by decide)
  rw [follows_iff, parameterList]
  cases tokens with
  | nil =>
    rw [Grammar.parameterList]
    exact inside
  | cons token tail =>
    rw [run_accepts_cons, Grammar.parameterList]
    by_cases closed : token.text = ")"
    · simp only [closed, ↓reduceIte, plain_behind]
      exact follows_pure _
    · simp only [closed, Bool.false_eq_true, ↓reduceIte]
      exact inside

/-- A function calls only behind its FUN. -/
theorem functionDef_follows (reliable : Reliable call 0 tokens) :
    (functionDef call).Follows (Grammar.functionDef tokens) := by
  rw [functionDef, Grammar.functionDef]
  refine (follows_expect "FUN" tokens).bind fun _ rest begun => ?_
  refine (follows_takeName .functionName rest).bind fun name rest named => ?_
  refine (follows_expect "(" rest).bind fun _ rest opened => ?_
  have inside := opened.trans (named.trans begun)
  refine (reliable.shorter .parameterList inside.lt).bind fun parameters rest closed => ?_
  have behind := closed.trans inside
  refine (reliable.shorter .optionalType behind.lt).bind fun result rest typed => ?_
  refine (follows_expect "DO" rest).bind fun _ rest entered => ?_
  have within := entered.trans (typed.trans behind)
  refine (reliable.shorter .block within.lt).bind fun body rest _ => ?_
  exact (follows_expect "END" rest).giving

/-- The globals call the first one on the same tokens, and the others behind it. -/
theorem globals_follows (reliable : Reliable call Rule.globals.rank tokens) :
    (globals call).Follows (Grammar.globals tokens) := by
  have first := reliable.lower .globalDef (by decide)
  rw [follows_iff, globals, run_next?]
  cases tokens with
  | nil =>
    rw [Grammar.globals]
    exact follows_pure _
  | cons token tail =>
    rw [Grammar.globals]
    by_cases starts : globalStarts.contains token.text = true
    · simp only [List.head?_cons, starts, ↓reduceIte, plain_lax]
      exact first.bind fun definition rest shorter => (reliable.shorter .globals shorter).map
    · simp only [List.head?_cons, starts, Bool.false_eq_true, ↓reduceIte]
      exact follows_pure _

/-- The functions call the first one on the same tokens, and the others behind it. -/
theorem functions_follows (reliable : Reliable call Rule.functions.rank tokens) :
    (functions call).Follows (Grammar.functions tokens) := by
  have first := reliable.lower .functionDef (by decide)
  rw [follows_iff, functions, run_sees]
  cases tokens with
  | nil =>
    rw [Grammar.functions]
    exact follows_pure _
  | cons token tail =>
    rw [Grammar.functions]
    by_cases starts : token.text = "FUN"
    · simp only [startsWith, starts, decide_true, ↓reduceIte, plain_lax]
      exact first.bind fun definition rest shorter => (reliable.shorter .functions shorter).map
    · simp only [startsWith, starts, decide_false, Bool.false_eq_true, ↓reduceIte]
      exact follows_pure _

/-- Asking for the end of the tokens is what its rule does. -/
theorem follows_endOfTokens (tokens : List Token) :
    Follows endOfTokens (Grammar.endOfTokens tokens) := by
  cases tokens with
  | nil => rfl
  | cons token tail => rfl

/-- A program calls its globals on the same tokens, and its functions on what they leave. -/
theorem program_follows (reliable : Reliable call Rule.program.rank tokens) :
    (program call).Follows (Grammar.program tokens) := by
  rw [program, Grammar.program]
  refine (reliable.lower .globals (by decide)).bind fun globals rest fewer => ?_
  refine (reliable.fewer .functions (by decide) fewer.le).bind fun functions rest _ => ?_
  exact (follows_endOfTokens rest).giving

end Attempt

/-! ## Enough budget -/

/-- The nested calls of a rule: each token may be taken away below ten calls. -/
def Rule.demand (rule : Rule consumes α) (tokens : List Token) : Nat :=
  10 * tokens.length + rule.rank

/-- With more budget than it demands a rule is not broken off. -/
theorem Rule.attempt_follows (budget : Nat) (rule : Rule consumes α) (tokens : List Token)
    (enough : rule.demand tokens < budget) :
    (rule.attempt budget).Follows (rule.reading tokens) := by
  induction budget generalizing consumes α tokens with
  | zero => exact absurd enough (Nat.not_lt_zero _)
  | succ budget hypothesis =>
    have reliable : Attempt.Reliable (Rule.attempt budget) rule.rank tokens := by
      rw [demand] at enough
      constructor
      case fewer =>
        intro _ _ other rest sooner fewer
        refine hypothesis other rest ?_
        rw [demand]
        omega
      case shorter =>
        intro _ _ other rest shorter
        have small := other.rank_lt
        refine hypothesis other rest ?_
        rw [demand]
        omega
    cases rule with
    | level depth => exact Attempt.level_follows reliable
    | chain depth left => exact Attempt.chain_follows reliable
    | primary => exact Attempt.primary_follows reliable
    | afterName name => exact Attempt.afterName_follows reliable
    | arguments closing => exact Attempt.arguments_follows reliable
    | items closing => exact Attempt.items_follows reliable
    | moreItems closing => exact Attempt.moreItems_follows reliable
    | typeName => exact Attempt.typeName_follows reliable
    | optionalType => exact Attempt.optionalType_follows reliable
    | declaration => exact Attempt.declaration_follows reliable
    | returning => exact Attempt.returning_follows reliable
    | simple => exact Attempt.simple_follows reliable
    | statement => exact Attempt.statement_follows reliable
    | block => exact Attempt.block_follows reliable
    | conditional => exact Attempt.conditional_follows reliable
    | otherwise => exact Attempt.otherwise_follows reliable
    | loop => exact Attempt.loop_follows reliable
    | switch => exact Attempt.switch_follows reliable
    | cases => exact Attempt.cases_follows reliable
    | case => exact Attempt.case_follows reliable
    | labelled => exact Attempt.labelled_follows reliable
    | unlabelled => exact Attempt.unlabelled_follows reliable
    | listGlobal => exact Attempt.listGlobal_follows reliable
    | mutableGlobal => exact Attempt.mutableGlobal_follows reliable
    | immutableGlobal => exact Attempt.immutableGlobal_follows reliable
    | globalDef => exact Attempt.globalDef_follows reliable
    | parameter => exact Attempt.parameter_follows reliable
    | parameters => exact Attempt.parameters_follows reliable
    | moreParameters => exact Attempt.moreParameters_follows reliable
    | parameterList => exact Attempt.parameterList_follows reliable
    | functionDef => exact Attempt.functionDef_follows reliable
    | globals => exact Attempt.globals_follows reliable
    | functions => exact Attempt.functions_follows reliable
    | program => exact Attempt.program_follows reliable

/-- With less it may be: the levels call one another down to the primary expressions. -/
example : ((Rule.level 0).attempt 5).run [⟨.identifier, "x", 0⟩] = none := by
  rfl

end Blockscript.Grammar
