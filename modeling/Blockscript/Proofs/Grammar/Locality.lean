import Blockscript.Proofs.Grammar.Failure
import Blockscript.Proofs.Grammar.Numerals

/-!
# What a rule looks at

A rule reads from the front and looks one token ahead. So how it ends depends on the tokens
that it has read and on the one behind them, or on there being none: whatever else follows,
it ends in the same way at the same place. This holds of failure as well, where the one
token is the one that does not fit.

The tokens that a rule has read are words that it asked for, names, and literals. So all of
them are legible, and an integer with too many digits is never passed.

The rules are gone through one by one, and for the same reason as they do, this ends.
-/

namespace Blockscript.Grammar

variable {first second consumes : Bool} {α β : Type} {tokens tail : List Token} {token : Token}

/-- A numeral is blamed only where the token that comes next gives no number. -/
def Blamed (outcome : Except Cause α) (rest : List Token) : Prop :=
  ∀ fault, outcome = .error (.numeral fault) →
    ∃ token, rest.head? = some token ∧ literal? token = some (.error fault)

/-- Tokens that are legible if lexing gives them. -/
def AllLegible (front : List Token) : Prop :=
  ∀ token ∈ front, token.Genuine → token.Legible

/-- However the rule ends on the tokens, it ends so on all that begin with what it has read
and the token behind that. What it has read is legible, and if it is a numeral that ends it,
it is the token behind. -/
def Traced (rule : (tokens : List Token) → Reading consumes α tokens) (tokens : List Token) :
    Prop :=
  ∀ outcome rest, (rule tokens).Ends outcome rest →
    Blamed outcome rest ∧ ∃ front, tokens = front ++ rest ∧ AllLegible front ∧
      ∀ others : List Token, others.head? = rest.head? →
        (rule (front ++ others)).Ends outcome others

/-- No token is illegible where there is none. -/
theorem allLegible_nil : AllLegible [] := by
  simp [AllLegible]

/-- Two legible fronts are a legible front together. -/
theorem AllLegible.append {front back : List Token} (first : AllLegible front)
    (second : AllLegible back) : AllLegible (front ++ back) :=
  List.forall_mem_append.mpr ⟨first, second⟩

/-- A word that a rule asks for is legible. -/
theorem legible_same {text : String} (same : token.text = text) (word : text ∈ knownWords) :
    token.Genuine → token.Legible :=
  fun _ => legible_of_word (same ▸ word)

/-- A name is legible. -/
theorem legible_name (kind : token.kind = .identifier) : token.Genuine → token.Legible := by
  intro _ integer
  rw [kind] at integer
  cases integer

/-- A success blames no numeral. -/
theorem blamed_ok (value : α) (rest : List Token) : Blamed (.ok value) rest := by
  rintro _ ⟨⟩

/-- A failure that expected something else blames no numeral. -/
theorem blamed_expected (expected : Expected) (rest : List Token) :
    Blamed (.error (.expected expected) : Except Cause α) rest := by
  rintro _ ⟨⟩

/-- Whom a failure blames does not depend on what the rule would have given. -/
theorem Blamed.error {cause : Cause} {rest : List Token}
    (blamed : Blamed (.error cause : Except Cause α) rest) :
    Blamed (.error cause : Except Cause β) rest := by
  rintro fault ⟨⟩
  exact blamed fault rfl

/-! ## Ways of combining rules -/

/-- The rule that reads nothing looks at nothing. -/
theorem traced_nothing (value : α) (tokens : List Token) : Traced (nothing value) tokens := by
  intro outcome rest ends
  obtain ⟨rfl, rfl⟩ := nothing_ends.mp ends
  exact ⟨blamed_ok value _, [], rfl, allLegible_nil, fun others _ => nothing_ends.mpr ⟨rfl, rfl⟩⟩

/-- A refusal looks at nothing. -/
theorem traced_refuse (consumes : Bool) (expected : Expected) (tokens : List Token) :
    Traced (refuse expected : (tokens : List Token) → Reading consumes α tokens) tokens := by
  intro outcome rest ends
  obtain ⟨rfl, rfl⟩ := refuse_ends.mp ends
  exact ⟨blamed_expected expected _, [], rfl, allLegible_nil,
    fun others _ => refuse_ends.mpr ⟨rfl, rfl⟩⟩

/-- A numeral that is spoiled blames the token that it is. -/
theorem traced_spoil {fault : NumeralFault} (read : literal? token = some (.error fault))
    (tail : List Token) :
    Traced (spoil fault : (tokens : List Token) → Reading true α tokens) (token :: tail) := by
  intro outcome rest ends
  obtain ⟨rfl, rfl⟩ := spoil_ends.mp ends
  refine ⟨?_, [], rfl, allLegible_nil, fun others _ => spoil_ends.mpr ⟨rfl, rfl⟩⟩
  rintro _ ⟨⟩
  exact ⟨token, rfl, read⟩

/-- Lists that go on alike behind the same front begin alike. -/
theorem head?_append_congr {front rest others : List Token} (same : others.head? = rest.head?) :
    (front ++ others).head? = (front ++ rest).head? := by
  cases front with
  | nil => exact same
  | cons token front => rfl

/-- Lists that begin alike begin with the same words. -/
theorem startsWith_congr {text : String} {others : List Token}
    (same : others.head? = tokens.head?) : startsWith text others = startsWith text tokens := by
  cases others with
  | nil =>
    obtain rfl := List.head?_eq_none_iff.mp same.symm
    rfl
  | cons token rest =>
    obtain ⟨more, rfl⟩ := List.head?_eq_some_iff.mp same.symm
    rfl

/-- A rule does as another one, if it does so on all tokens that begin alike. -/
theorem Traced.congr {rule : (tokens : List Token) → Reading first α tokens}
    {other : (tokens : List Token) → Reading second α tokens}
    (same : ∀ others : List Token, others.head? = tokens.head? → ∀ outcome rest,
      (rule others).Ends outcome rest ↔ (other others).Ends outcome rest)
    (traced : Traced other tokens) : Traced rule tokens := by
  intro outcome rest ends
  obtain ⟨blamed, front, rfl, legible, alike⟩ :=
    traced outcome rest ((same tokens rfl outcome rest).mp ends)
  refine ⟨blamed, front, rfl, legible, fun others head => ?_⟩
  exact (same (front ++ others) (head?_append_congr head) outcome others).mpr (alike others head)

/-- A rule that always does as another one. -/
theorem Traced.of {rule : (tokens : List Token) → Reading first α tokens}
    {other : (tokens : List Token) → Reading second α tokens}
    (same : ∀ tokens outcome rest,
      (rule tokens).Ends outcome rest ↔ (other tokens).Ends outcome rest)
    (traced : Traced other tokens) : Traced rule tokens :=
  .congr (fun others _ => same others) traced

/-- A rule that does as another one when there are no tokens. -/
theorem Traced.nil {rule : (tokens : List Token) → Reading first α tokens}
    {other : (tokens : List Token) → Reading second α tokens}
    (same : ∀ outcome rest, (rule []).Ends outcome rest ↔ (other []).Ends outcome rest)
    (traced : Traced other []) : Traced rule [] := by
  refine .congr (fun others head => ?_) traced
  obtain rfl := List.head?_eq_none_iff.mp head
  exact same

/-- A rule that does as another one when a token comes next. -/
theorem Traced.cons {rule : (tokens : List Token) → Reading first α tokens}
    {other : (tokens : List Token) → Reading second α tokens}
    (same : ∀ others outcome rest, (rule (token :: others)).Ends outcome rest ↔
      (other (token :: others)).Ends outcome rest)
    (traced : Traced other (token :: tail)) : Traced rule (token :: tail) := by
  refine .congr (fun others head => ?_) traced
  obtain ⟨rest, rfl⟩ := List.head?_eq_some_iff.mp head
  exact same rest

/-- A rule that takes a token and then does as another one. -/
theorem Traced.behind {rule : (tokens : List Token) → Reading first α tokens}
    {inner : (tokens : List Token) → Reading second α tokens}
    (plain : token.Genuine → token.Legible)
    (same : ∀ others outcome rest, (rule (token :: others)).Ends outcome rest ↔
      (inner others).Ends outcome rest)
    (traced : Traced inner tail) : Traced rule (token :: tail) := by
  intro outcome rest ends
  obtain ⟨blamed, front, rfl, legible, alike⟩ :=
    traced outcome rest ((same tail outcome rest).mp ends)
  exact ⟨blamed, token :: front, rfl, List.forall_mem_cons.mpr ⟨plain, legible⟩, fun others head =>
    (same (front ++ others) outcome others).mpr (alike others head)⟩

/-- Two rules in order look at what the first one reads and at what the second one looks at
behind it. -/
theorem Traced.andThen {rule : (tokens : List Token) → Reading first α tokens}
    {next : α → (tokens : List Token) → Reading second β tokens} (earlier : Traced rule tokens)
    (later : ∀ value rest, Left first rest tokens → Traced (next value) rest) :
    Traced (fun tokens => (rule tokens).andThen fun value rest _ => next value rest) tokens := by
  intro outcome rest ends
  rcases andThen_ends.mp ends with ⟨cause, rfl, failed⟩ | ⟨value, middle, left, read, further⟩
  · obtain ⟨blamed, front, whole, legible, alike⟩ := earlier _ rest failed
    exact ⟨blamed.error, front, whole, legible, fun others head =>
      andThen_ends.mpr (.inl ⟨cause, rfl, alike others head⟩)⟩
  · obtain ⟨_, front, whole, legible, alike⟩ := earlier _ middle read
    obtain ⟨blamed, back, rfl, legibleBehind, alikeBehind⟩ :=
      later value middle left outcome rest further
    refine ⟨blamed, front ++ back, by rw [whole, List.append_assoc],
      legible.append legibleBehind, fun others head => ?_⟩
    rw [List.append_assoc]
    -- What the second rule has read stands behind the first one as before, so the first one
    -- still sees the same token when it stops.
    have gives := alike (back ++ others) (head?_append_congr head)
    exact andThen_ends.mpr (.inr ⟨value, back ++ others, Reading.Gives.left gives, gives,
      alikeBehind others head⟩)

/-- The form of the value is nothing that a rule looks at. -/
theorem Traced.map {rule : (tokens : List Token) → Reading consumes α tokens}
    (traced : Traced rule tokens) (form : α → β) :
    Traced (fun tokens => (rule tokens).map form) tokens := by
  intro outcome rest ends
  obtain ⟨read, inner, rfl⟩ := map_ends.mp ends
  obtain ⟨blamed, front, whole, legible, alike⟩ := traced read rest inner
  refine ⟨?_, front, whole, legible, fun others head => map_ends.mpr ⟨read, alike others head, rfl⟩⟩
  cases read with
  | ok value => exact blamed_ok (form value) rest
  | error cause => exact blamed.error

/-- The value that is given instead is nothing that a rule looks at. -/
theorem Traced.giving {rule : (tokens : List Token) → Reading consumes α tokens}
    (traced : Traced rule tokens) (value : β) :
    Traced (fun tokens => (rule tokens).giving value) tokens :=
  traced.map fun _ => value

/-- A word that is asked for, under whichever expectation, is read or looked at. -/
theorem wordAs_traced (text : String) (known : text ∈ knownWords) (expected : Expected)
    (tokens : List Token) : Traced (wordAs expected text) tokens := by
  cases tokens with
  | nil => exact .nil (fun _ _ => by rw [wordAs]) (traced_refuse true expected [])
  | cons token tail =>
    by_cases same : token.text = text
    · exact .behind (legible_same same known)
        (fun others _ _ => by rw [wordAs, if_pos same, behind_ends])
        (traced_nothing () tail)
    · exact .cons (fun others _ _ => by rw [wordAs, if_neg same])
        (traced_refuse true expected (token :: tail))

/-- A word that is asked for is read or looked at. -/
theorem word_traced (text : String) (known : text ∈ knownWords) (tokens : List Token) :
    Traced (word text) tokens :=
  wordAs_traced text known _ tokens

/-- A name is read or looked at. -/
theorem identifier_traced (expected : Expected) (tokens : List Token) :
    Traced (identifier expected) tokens := by
  cases tokens with
  | nil => exact .nil (fun _ _ => by rw [identifier]) (traced_refuse true expected [])
  | cons token tail =>
    by_cases kind : token.kind = .identifier
    · exact .behind (legible_name kind)
        (fun others _ _ => by rw [identifier, if_pos kind, behind_ends])
        (traced_nothing token.text tail)
    · exact .cons (fun others _ _ => by rw [identifier, if_neg kind])
        (traced_refuse true expected (token :: tail))

/-- An optional part is looked for by its first word, and then looks at what its rule does. -/
theorem optional_traced {text : String} (known : text ∈ knownWords)
    {rule : (tokens : List Token) → Reading consumes α tokens} (tokens : List Token)
    (traced : ∀ token inner, tokens = token :: inner → Traced rule inner) :
    Traced (optional text rule) tokens := by
  cases tokens with
  | nil => exact .nil (fun _ _ => by rw [optional]) (traced_nothing none [])
  | cons token tail =>
    by_cases same : token.text = text
    · exact .behind (legible_same same known)
        (fun others _ _ => by rw [optional, if_pos same, lax_ends, behind_ends])
        ((traced token tail rfl).map some)
    · exact .cons (fun others _ _ => by rw [optional, if_neg same])
        (traced_nothing none (token :: tail))

/-! ## Expressions -/

/-- The operators are words of the grammar. -/
theorem levels_known : levels.flatten ⊆ knownWords := by
  decide

mutual

/-- A level of operators is traced when all its operators are known words. -/
theorem level_traced (operators : List (List String)) (known : operators.flatten ⊆ knownWords)
    (tokens : List Token) : Traced (level operators) tokens := by
  match operators with
  | [] => exact .of (fun tokens _ _ => by rw [level]) (primary_traced tokens)
  | loosest :: tighter =>
    exact .of (fun tokens _ _ => by rw [level])
      (.andThen (level_traced tighter (List.append_subset.mp known).2 tokens)
        fun left rest shorter => chain_traced loosest tighter known left rest)
termination_by (tokens.length, operators.length + 1)

/-- A chain of operators is traced when all its operators are known words. -/
theorem chain_traced (operators : List String) (tighter : List (List String))
    (known : (operators :: tighter).flatten ⊆ knownWords) (left : Expr .bare)
    (tokens : List Token) : Traced (chain operators tighter left) tokens := by
  match tokens with
  | [] => exact .nil (fun _ _ => by rw [chain]) (traced_nothing left [])
  | token :: tail =>
    by_cases operator : operators.contains token.text = true
    · obtain ⟨here, further⟩ := List.append_subset.mp known
      exact .behind (fun _ => legible_of_word (here (List.contains_iff_mem.mp operator)))
        (fun others _ _ => by rw [chain, if_pos operator, lax_ends, behind_ends])
        (.andThen (level_traced tighter further tail) fun right after shorter =>
          chain_traced operators tighter known (.binary () token.text left right) after)
    · exact .cons (fun others _ _ => by rw [chain, if_neg operator])
        (traced_nothing left (token :: tail))
termination_by (tokens.length, 0)
decreasing_by
  · exact .left _ _ (by simp)
  · exact .left _ _ (Nat.lt_succ_of_lt (Left.lt ‹_›))

/-- An operand is the one rule that looks at literals, and reads only legible ones. -/
theorem primary_traced (tokens : List Token) : Traced primary tokens := by
  match tokens with
  | [] => exact .nil (fun _ _ => by rw [primary]) (traced_refuse true .expression [])
  | token :: tail =>
    match read : literal? token with
    | some (.ok literal) =>
      refine .behind (fun genuine => legible_of_literal genuine read) (fun others _ _ => ?_)
        (traced_nothing (.literal () literal) tail)
      simp only [primary, read, behind_ends]
    | some (.error fault) =>
      refine .cons (fun others _ _ => ?_) (traced_spoil read tail)
      simp only [primary, read]
    | none =>
      by_cases group : token.text = "("
      · refine .behind (legible_same group (by decide)) (fun others _ _ => ?_)
          (.andThen (level_traced levels levels_known tail) fun inner after _ =>
            (wordAs_traced ")" (by decide) .closingParenthesis after).giving (Expr.group () inner))
        simp only [primary, read, group, ↓reduceIte, behind_ends]
      by_cases list : token.text = "["
      · refine .behind (legible_same list (by decide)) (fun others _ _ => ?_)
          ((arguments_traced "]" (by decide) tail).map (.list ()))
        simp only [primary, read, list, String.reduceEq, ↓reduceIte, behind_ends]
      by_cases name : token.kind = .identifier
      · refine .behind (legible_name name) (fun others _ _ => ?_)
          (afterName_traced token.text tail)
        simp only [primary, read, group, list, name, ↓reduceIte, behind_ends]
      · refine .cons (fun others _ _ => ?_) (traced_refuse true .expression (token :: tail))
        simp only [primary, read, group, list, name, ↓reduceIte]
termination_by (tokens.length, 0)

/-- What stands behind a name is a call, an element, or nothing at all. -/
theorem afterName_traced (name : String) (tokens : List Token) :
    Traced (afterName name) tokens := by
  match tokens with
  | [] => exact .nil (fun _ _ => by rw [afterName]) (traced_nothing (.access () () name) [])
  | token :: tail =>
    by_cases offset : token.text = "["
    · exact .behind (legible_same offset (by decide))
        (fun others _ _ => by rw [afterName, if_pos offset, lax_ends, behind_ends])
        (.andThen (level_traced levels levels_known tail) fun inner after _ =>
          (wordAs_traced "]" (by decide) .closingBracket after).giving
            (Expr.element () () name inner))
    by_cases call : token.text = "("
    · exact .behind (legible_same call (by decide)) (fun others _ _ => by
        rw [afterName, if_neg offset, if_pos call, lax_ends, behind_ends])
        ((arguments_traced ")" (by decide) tail).map (.call () () name))
    · exact .cons (fun others _ _ => by rw [afterName, if_neg offset, if_neg call])
        (traced_nothing (.access () () name) (token :: tail))
termination_by (tokens.length, 0)

/-- Arguments are closed at once by the mark, or are items. -/
theorem arguments_traced (closing : String) (known : closing ∈ knownWords) (tokens : List Token) :
    Traced (arguments closing) tokens := by
  match tokens with
  | [] => exact .nil (fun _ _ => by rw [arguments]) (items_traced closing known [])
  | token :: tail =>
    by_cases closed : token.text = closing
    · exact .behind (legible_same closed known)
        (fun others _ _ => by rw [arguments, if_pos closed, behind_ends])
        (traced_nothing [] tail)
    · exact .cons (fun others _ _ => by rw [arguments, if_neg closed])
        (items_traced closing known (token :: tail))
termination_by (tokens.length, levels.length + 3)

/-- Items are an expression and what follows it. -/
theorem items_traced (closing : String) (known : closing ∈ knownWords) (tokens : List Token) :
    Traced (items closing) tokens :=
  .of (fun tokens _ _ => by rw [items])
    (.andThen (level_traced levels levels_known tokens) fun first rest shorter =>
      (moreItems_traced closing known rest).map (first :: ·))
termination_by (tokens.length, levels.length + 2)

/-- Behind an item stands a comma or the closing mark. -/
theorem moreItems_traced (closing : String) (known : closing ∈ knownWords) (tokens : List Token) :
    Traced (moreItems closing) tokens := by
  match tokens with
  | [] => exact .nil (fun _ _ => by rw [moreItems]) (traced_refuse true (.commaOr closing) [])
  | token :: tail =>
    by_cases closed : token.text = closing
    · exact .behind (legible_same closed known)
        (fun others _ _ => by rw [moreItems, if_pos closed, behind_ends])
        (traced_nothing [] tail)
    by_cases comma : token.text = ","
    · exact .behind (legible_same comma (by decide)) (fun others _ _ => by
        rw [moreItems, if_neg closed, if_pos comma, behind_ends]) (items_traced closing known tail)
    · exact .cons (fun others _ _ => by rw [moreItems, if_neg closed, if_neg comma])
        (traced_refuse true (.commaOr closing) (token :: tail))
termination_by (tokens.length, 0)

end

/-- An expression is the level of all operators, which are known words. -/
theorem expression_traced (tokens : List Token) : Traced expression tokens :=
  level_traced levels levels_known tokens

/-! ## Types and statements -/

/-- What may follow the name of a type: its argument, or nothing. -/
def afterType (name : String) (tokens : List Token) : Reading false String tokens :=
  match tokens with
  | [] => nothing name []
  | token :: inner =>
    if token.text = "<" then
      (((typeName inner).andThen fun argument after _ =>
        (word ">" after).giving (name ++ "<" ++ argument ++ ">")).behind token).lax
    else
      nothing name (token :: inner)

/-- A type name is a name and what stands behind it. -/
theorem typeName_eq (tokens : List Token) :
    typeName tokens = (identifier .typeName tokens).andThen fun name rest _ =>
      afterType name rest := by
  rw [typeName]
  congr 1
  funext name rest _
  cases rest with
  | nil => rfl
  | cons token inner => rfl

mutual

/-- A type name looks one token behind its name. -/
theorem typeName_traced (tokens : List Token) : Traced typeName tokens :=
  .of (fun tokens _ _ => by rw [typeName_eq])
    (.andThen (identifier_traced .typeName tokens) fun name rest shorter =>
      afterType_traced name rest)
termination_by (tokens.length, 0)

/-- Behind the name of a type stands a bracketed one, or nothing at all. -/
theorem afterType_traced (name : String) (tokens : List Token) :
    Traced (afterType name) tokens := by
  match tokens with
  | [] => exact .nil (fun _ _ => by rw [afterType]) (traced_nothing name [])
  | token :: tail =>
    by_cases opening : token.text = "<"
    · exact .behind (legible_same opening (by decide))
        (fun others _ _ => by rw [afterType, if_pos opening, lax_ends, behind_ends])
        (.andThen (typeName_traced tail) fun argument after _ =>
          (word_traced ">" (by decide) after).giving (name ++ "<" ++ argument ++ ">"))
    · exact .cons (fun others _ _ => by rw [afterType, if_neg opening])
        (traced_nothing name (token :: tail))
termination_by (tokens.length, 0)

end

/-- An optional type is looked for by its colon. -/
theorem optionalType_traced (tokens : List Token) : Traced optionalType tokens :=
  optional_traced (by decide) tokens fun _ inner _ => typeName_traced inner

/-- An optional value is looked for by its equals sign. -/
theorem optionalValue_traced (tokens : List Token) : Traced (optional "=" expression) tokens :=
  optional_traced (by decide) tokens fun _ inner _ => expression_traced inner

/-- A declaration asks for a name, a type, a value and a semicolon. -/
theorem declaration_traced (tokens : List Token) : Traced declaration tokens :=
  .andThen (identifier_traced .variableName tokens) fun name rest _ =>
  .andThen (optionalType_traced rest) fun type rest _ =>
  .andThen (optionalValue_traced rest) fun value rest _ =>
  (word_traced ";" (by decide) rest).giving (Stmt.declaration () name type value)

/-- A return asks for an expression and a semicolon. -/
theorem returning_traced (tokens : List Token) : Traced returning tokens :=
  .andThen (expression_traced tokens) fun value rest _ =>
  (word_traced ";" (by decide) rest).giving (Stmt.returning value)

/-- A simple statement may refuse behind its first expression, and looks at the token there. -/
theorem simple_traced (tokens : List Token) : Traced simple tokens := by
  refine .of (fun tokens _ _ => by rw [simple])
    (.andThen (expression_traced tokens) fun target rest _ => ?_)
  by_cases place : target.isPlace = true
  · simp only [place, ↓reduceIte]
    exact .andThen (optionalValue_traced rest) fun value rest _ =>
      (word_traced ";" (by decide) rest).giving _
  · simp only [place, Bool.false_eq_true, ↓reduceIte]
    exact (word_traced ";" (by decide) rest).giving _

mutual

/-- A statement is chosen by its first word. -/
theorem statement_traced (tokens : List Token) : Traced statement tokens := by
  match tokens with
  | [] => exact .nil (fun _ _ => by rw [statement]) (simple_traced [])
  | token :: tail =>
    by_cases declares : token.text = "LET"
    · exact .behind (legible_same declares (by decide))
        (fun others _ _ => by rw [statement, if_pos declares, behind_ends])
        (declaration_traced tail)
    by_cases switches : token.text = "SWITCH"
    · exact .behind (legible_same switches (by decide)) (fun others _ _ => by
        rw [statement, if_neg declares, if_pos switches, behind_ends]) (switch_traced tail)
    by_cases decides : token.text = "IF"
    · exact .behind (legible_same decides (by decide)) (fun others _ _ => by
        rw [statement, if_neg declares, if_neg switches, if_pos decides, behind_ends])
        (conditional_traced tail)
    by_cases repeats : token.text = "WHILE"
    · exact .behind (legible_same repeats (by decide)) (fun others _ _ => by
        rw [statement, if_neg declares, if_neg switches, if_neg decides, if_pos repeats,
          behind_ends])
        (loop_traced tail)
    by_cases returns : token.text = "RETURN"
    · exact .behind (legible_same returns (by decide)) (fun others _ _ => by
        rw [statement, if_neg declares, if_neg switches, if_neg decides, if_neg repeats,
          if_pos returns, behind_ends])
        (returning_traced tail)
    · exact .cons (fun others _ _ => by
        rw [statement, if_neg declares, if_neg switches, if_neg decides, if_neg repeats,
          if_neg returns])
        (simple_traced (token :: tail))
termination_by (tokens.length, 1)

/-- A block goes on until a word that ends blocks. -/
theorem block_traced (tokens : List Token) : Traced block tokens := by
  match tokens with
  | [] => exact .nil (fun _ _ => by rw [block]) (traced_nothing [] [])
  | token :: tail =>
    by_cases ends : blockEnds.contains token.text = true
    · exact .cons (fun others _ _ => by rw [block, if_pos ends]) (traced_nothing [] (token :: tail))
    · exact .cons (fun others _ _ => by rw [block, if_neg ends, lax_ends])
        (.andThen (statement_traced (token :: tail)) fun first after shorter =>
          (block_traced after).map (first :: ·))
termination_by (tokens.length, 2)

/-- A conditional asks for its condition, its branches and an END. -/
theorem conditional_traced (tokens : List Token) : Traced conditional tokens :=
  .of (fun tokens _ _ => by rw [conditional])
    (.andThen (expression_traced tokens) fun condition rest _ =>
    .andThen (word_traced "DO" (by decide) rest) fun _ rest _ =>
    .andThen (block_traced rest) fun thenBlock rest _ =>
    .andThen (otherwise_traced rest) fun elseBlock rest _ =>
    (word_traced "END" (by decide) rest).giving (Stmt.conditional condition thenBlock elseBlock))
termination_by (tokens.length, 0)
decreasing_by
  all_goals
    simp only [Left] at *
    exact .left _ _ (by omega)

/-- The other branch is looked for by its ELSE, and an IF behind that is a conditional again. -/
theorem otherwise_traced (tokens : List Token) : Traced otherwise tokens := by
  match tokens with
  | [] => exact .nil (fun _ _ => by rw [otherwise]) (traced_nothing [] [])
  | token :: tail =>
    by_cases divides : token.text = "ELSE"
    · exact .behind (legible_same divides (by decide))
        (fun others _ _ => by rw [otherwise, if_pos divides, lax_ends, behind_ends])
        (block_traced tail)
    · exact .cons (fun others _ _ => by rw [otherwise, if_neg divides])
        (traced_nothing [] (token :: tail))
termination_by (tokens.length, 0)

/-- A loop asks for its condition, its block and an END. -/
theorem loop_traced (tokens : List Token) : Traced loop tokens :=
  .of (fun tokens _ _ => by rw [loop])
    (.andThen (expression_traced tokens) fun condition rest _ =>
    .andThen (word_traced "DO" (by decide) rest) fun _ rest _ =>
    .andThen (block_traced rest) fun body rest _ =>
    (word_traced "END" (by decide) rest).giving (Stmt.loop condition body))
termination_by (tokens.length, 0)
decreasing_by
  all_goals
    simp only [Left] at *
    exact .left _ _ (by omega)

/-- A switch asks for its subject, its cases and an END. -/
theorem switch_traced (tokens : List Token) : Traced switch tokens :=
  .of (fun tokens _ _ => by rw [switch])
    (.andThen (expression_traced tokens) fun subject rest _ =>
    .andThen (cases_traced rest) fun cases rest _ =>
    (word_traced "END" (by decide) rest).giving (Stmt.switch subject cases))
termination_by (tokens.length, 0)
decreasing_by
  all_goals
    simp only [Left] at *
    exact .left _ _ (by omega)

/-- Cases go on until a word that begins none. -/
theorem cases_traced (tokens : List Token) : Traced cases tokens := by
  match tokens with
  | [] =>
    refine .nil (fun _ _ => ?_) (traced_refuse true .caseOrDefault [])
    simp only [cases, startsWith, Bool.false_eq_true, ↓reduceIte]
  | token :: tail =>
    by_cases label : token.text = "CASE"
    · refine .cons (fun others _ _ => ?_)
        (.andThen (case_traced (token :: tail)) fun first after shorter =>
          (cases_traced after).map (first :: ·))
      rw [cases]
      simp only [startsWith, label, decide_true, ↓reduceIte]
    by_cases default : token.text = "DEFAULT"
    · refine .cons (fun others _ _ => ?_) ((case_traced (token :: tail)).map ([·]))
      rw [cases]
      simp only [startsWith, default, String.reduceEq, decide_false, Bool.false_eq_true,
        decide_true, ↓reduceIte]
    · refine .cons (fun others _ _ => ?_) (traced_refuse true .caseOrDefault (token :: tail))
      simp only [cases, startsWith, label, default, decide_false, Bool.false_eq_true, ↓reduceIte]
termination_by (tokens.length, 1)

/-- A case is chosen by its first word. -/
theorem case_traced (tokens : List Token) : Traced case tokens := by
  match tokens with
  | [] => exact .nil (fun _ _ => by rw [case]) (traced_refuse true (.word "DEFAULT") [])
  | token :: tail =>
    by_cases label : token.text = "CASE"
    · exact .behind (legible_same label (by decide))
        (fun others _ _ => by rw [case, if_pos label, behind_ends])
        (labelled_traced tail)
    by_cases default : token.text = "DEFAULT"
    · exact .behind (legible_same default (by decide))
        (fun others _ _ => by rw [case, if_neg label, if_pos default, behind_ends])
        (unlabelled_traced tail)
    · exact .cons (fun others _ _ => by rw [case, if_neg label, if_neg default])
        (traced_refuse true (.word "DEFAULT") (token :: tail))
termination_by (tokens.length, 0)

/-- A labelled case asks for its label, a colon and a block. -/
theorem labelled_traced (tokens : List Token) : Traced labelled tokens :=
  .of (fun tokens _ _ => by rw [labelled])
    (.andThen (expression_traced tokens) fun label rest _ =>
    .andThen (word_traced ":" (by decide) rest) fun _ rest _ =>
    (block_traced rest).map (Case.mk (some label)))
termination_by (tokens.length, 0)
decreasing_by
  all_goals
    simp only [Left] at *
    exact .left _ _ (by omega)

/-- The last case may have a colon, and asks for a block. -/
theorem unlabelled_traced (tokens : List Token) : Traced unlabelled tokens :=
  .of (fun tokens _ _ => by rw [unlabelled])
    (.andThen (optional_traced (by decide) tokens fun _ inner _ => traced_nothing () inner)
      fun _ rest _ =>
    (block_traced rest).map (Case.mk none))
termination_by (tokens.length, 3)
decreasing_by
  rcases Nat.lt_or_eq_of_le (Left.le ‹_›) with shorter | same
  · exact .left _ _ shorter
  · rw [same]
    exact .right _ (by decide)

end

/-! ## Programs -/

/-- A global list asks for a name, an equals sign and its elements. -/
theorem listGlobal_traced (tokens : List Token) : Traced listGlobal tokens := by
  refine .of (fun tokens _ _ => by rw [listGlobal])
    (.andThen (identifier_traced .listName tokens) fun name rest _ =>
    .andThen (optionalType_traced rest) fun element rest _ =>
    .andThen (word_traced "=" (by decide) rest) fun _ rest _ =>
    .andThen (word_traced "[" (by decide) rest) fun _ rest _ => ?_)
  by_cases empty : startsWith "]" rest = true
  · refine .congr (fun others head _ _ => ?_) (traced_refuse true .listElement rest)
    simp only [startsWith_congr head, empty, ↓reduceIte]
  · refine .congr (fun others head _ _ => ?_) ((items_traced "]" (by decide) rest).map
      fun elements =>
      (⟨name, element.map fun type => "List<" ++ type ++ ">", true, some (.list () elements), ()⟩ :
        GlobalDef .bare))
    simp only [startsWith_congr head, empty, Bool.false_eq_true, ↓reduceIte]

/-- A global variable asks for a name, a type and a value. -/
theorem mutableGlobal_traced (tokens : List Token) : Traced mutableGlobal tokens :=
  .andThen (identifier_traced .variableName tokens) fun name rest _ =>
  .andThen (optionalType_traced rest) fun type rest _ =>
  (optionalValue_traced rest).map fun value =>
    (⟨name, type, true, value, ()⟩ : GlobalDef .bare)

/-- A global constant asks for a name, a type and a value. -/
theorem immutableGlobal_traced (tokens : List Token) : Traced immutableGlobal tokens :=
  .andThen (identifier_traced .variableName tokens) fun name rest _ =>
  .andThen (optionalType_traced rest) fun type rest _ =>
  .andThen (wordAs_traced "=" (by decide) .immutableValue rest) fun _ rest _ =>
  (expression_traced rest).map fun value =>
    (⟨name, type, false, some value, ()⟩ : GlobalDef .bare)

/-- A global is chosen by its first word, and asks for a semicolon at its end. -/
theorem globalDef_traced (tokens : List Token) : Traced globalDef tokens := by
  cases tokens with
  | nil => exact .nil (fun _ _ => by rw [globalDef]) (traced_refuse true .globalKeyword [])
  | cons token tail =>
    have closed {rule : (tokens : List Token) → Reading true (GlobalDef .bare) tokens}
        (traced : Traced rule tail) : Traced (fun tokens =>
          (rule tokens).andThen fun definition rest _ => (word ";" rest).giving definition) tail :=
      .andThen traced fun definition rest _ => (word_traced ";" (by decide) rest).giving definition
    by_cases list : token.text = "LIST"
    · refine .behind (legible_same list (by decide)) (fun others _ _ => ?_)
        (closed (listGlobal_traced tail))
      simp only [globalDef, list, ↓reduceIte, behind_ends]
    by_cases variableGlobal : token.text = "VAR"
    · refine .behind (legible_same variableGlobal (by decide)) (fun others _ _ => ?_)
        (closed (mutableGlobal_traced tail))
      simp only [globalDef, variableGlobal, String.reduceEq, ↓reduceIte, behind_ends]
    by_cases value : token.text = "VAL"
    · refine .behind (legible_same value (by decide)) (fun others _ _ => ?_)
        (closed (immutableGlobal_traced tail))
      simp only [globalDef, value, String.reduceEq, ↓reduceIte, behind_ends]
    · refine .cons (fun others _ _ => ?_) (traced_refuse true .globalKeyword (token :: tail))
      simp only [globalDef, list, variableGlobal, value, ↓reduceIte]

/-- A parameter asks for a name and a type. -/
theorem parameter_traced (tokens : List Token) : Traced parameter tokens :=
  .andThen (identifier_traced .parameterName tokens) fun name rest _ =>
  (optionalType_traced rest).map fun type => (name, type)

mutual

/-- Parameters are one and what follows it. -/
theorem parameters_traced (tokens : List Token) : Traced parameters tokens :=
  .of (fun tokens _ _ => by rw [parameters])
    (.andThen (parameter_traced tokens) fun first rest shorter =>
      (moreParameters_traced rest).map (first :: ·))
termination_by (tokens.length, 1)

/-- Behind a parameter stands a comma or the closing parenthesis. -/
theorem moreParameters_traced (tokens : List Token) : Traced moreParameters tokens := by
  match tokens with
  | [] => exact .nil (fun _ _ => by rw [moreParameters]) (traced_refuse true (.commaOr ")") [])
  | token :: tail =>
    by_cases closed : token.text = ")"
    · exact .behind (legible_same closed (by decide))
        (fun others _ _ => by rw [moreParameters, if_pos closed, behind_ends])
        (traced_nothing [] tail)
    by_cases comma : token.text = ","
    · exact .behind (legible_same comma (by decide)) (fun others _ _ => by
        rw [moreParameters, if_neg closed, if_pos comma, behind_ends]) (parameters_traced tail)
    · exact .cons (fun others _ _ => by rw [moreParameters, if_neg closed, if_neg comma])
        (traced_refuse true (.commaOr ")") (token :: tail))
termination_by (tokens.length, 0)

end

/-- A parameter list is closed at once, or holds parameters. -/
theorem parameterList_traced (tokens : List Token) : Traced parameterList tokens := by
  cases tokens with
  | nil => exact .nil (fun _ _ => by rw [parameterList]) (parameters_traced [])
  | cons token tail =>
    by_cases closed : token.text = ")"
    · exact .behind (legible_same closed (by decide))
        (fun others _ _ => by rw [parameterList, if_pos closed, behind_ends])
        (traced_nothing [] tail)
    · exact .cons (fun others _ _ => by rw [parameterList, if_neg closed])
        (parameters_traced (token :: tail))

/-- A function asks for a name, parameters, a type, a block and an END. -/
theorem functionDef_traced (tokens : List Token) : Traced functionDef tokens :=
  .andThen (word_traced "FUN" (by decide) tokens) fun _ rest _ =>
  .andThen (identifier_traced .functionName rest) fun name rest _ =>
  .andThen (word_traced "(" (by decide) rest) fun _ rest _ =>
  .andThen (parameterList_traced rest) fun parameters rest _ =>
  .andThen (optionalType_traced rest) fun result rest _ =>
  .andThen (word_traced "DO" (by decide) rest) fun _ rest _ =>
  .andThen (block_traced rest) fun body rest _ =>
  (word_traced "END" (by decide) rest).giving
    (⟨name, parameters.map (·.1), parameters.map (·.2), result, body, ()⟩ : FunctionDef .bare)

/-- The globals go on while a word begins one. -/
theorem globals_traced (tokens : List Token) : Traced globals tokens := by
  match tokens with
  | [] => exact .nil (fun _ _ => by rw [globals]) (traced_nothing [] [])
  | token :: tail =>
    by_cases starts : globalStarts.contains token.text = true
    · exact .cons (fun others _ _ => by rw [globals, if_pos starts, lax_ends])
        (.andThen (globalDef_traced (token :: tail)) fun first after shorter =>
          (globals_traced after).map (first :: ·))
    · exact .cons (fun others _ _ => by rw [globals, if_neg starts])
        (traced_nothing [] (token :: tail))
termination_by tokens.length
decreasing_by exact Left.lt ‹_›

/-- The functions go on while a FUN begins one. -/
theorem functions_traced (tokens : List Token) : Traced functions tokens := by
  match tokens with
  | [] => exact .nil (fun _ _ => by rw [functions]) (traced_nothing [] [])
  | token :: tail =>
    by_cases starts : token.text = "FUN"
    · exact .cons (fun others _ _ => by rw [functions, if_pos starts, lax_ends])
        (.andThen (functionDef_traced (token :: tail)) fun first after shorter =>
          (functions_traced after).map (first :: ·))
    · exact .cons (fun others _ _ => by rw [functions, if_neg starts])
        (traced_nothing [] (token :: tail))
termination_by tokens.length
decreasing_by exact Left.lt ‹_›

/-- The end of the tokens is looked at and not read. -/
theorem endOfTokens_traced (tokens : List Token) : Traced endOfTokens tokens := by
  cases tokens with
  | nil => exact .nil (fun _ _ => by rw [endOfTokens]) (traced_nothing () [])
  | cons token tail =>
    exact .cons (fun others _ _ => by rw [endOfTokens])
      (traced_refuse false .definition (token :: tail))

/-- How the program rule ends on some tokens, it ends on all that begin with what it has
read and the token behind that. -/
theorem program_traced (tokens : List Token) : Traced program tokens :=
  .andThen (globals_traced tokens) fun globals rest _ =>
  .andThen (functions_traced rest) fun functions rest _ =>
  (endOfTokens_traced rest).giving (⟨globals, functions⟩ : Program .bare)

end Blockscript.Grammar
