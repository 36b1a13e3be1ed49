import Blockscript.Proofs.Grammar.Following

/-!
# Progress

Rules end, wherever in the tokens they begin. The position goes on or stays, and it never
leaves the tokens; a rule that has to consume a token moves on whenever it succeeds. Reading
backwards is out of the question because a rule, whether it succeeds or fails, leaves a final
part of its tokens.

That a rule ends is said of the plain programs, for which it is not a matter of course. That
it ends as the grammar has it is said with it. A rule succeeds, or refuses a token, or stops at
a token that should be a number and is none; tokens that are all what they should be leave the
first two.
-/

namespace Blockscript.Grammar

variable {consumes : Bool} {α : Type} {token : Token} {tokens rest : List Token}
  {outcome : Except Cause α}
  {start position : Nat}

/-! ## Where rules end -/

/-- The attempt is not broken off. It ends with the outcome where the rest begins. -/
def Attempt.Ends (attempt : Attempt α) (tokens : List Token) (outcome : Except Cause α)
    (rest : List Token) : Prop :=
  attempt.run tokens = some
    (match outcome with
    | .ok value => .ok (value, rest)
    | .error cause => .error ⟨cause, rest⟩)

/-- An attempt ends as the reading does that it follows. -/
theorem Attempt.Follows.ends {attempt : Attempt α} {reading : Reading consumes α tokens}
    (follows : attempt.Follows reading) (ends : reading.Ends outcome rest) :
    attempt.Ends tokens outcome rest := by
  refine (follows_iff.mp follows).trans ?_
  cases outcome with
  | ok value =>
    obtain ⟨left, rfl⟩ := ends
    rfl
  | error cause =>
    obtain rfl := ends
    rfl

/-- A rule ends in one way or the other. -/
theorem Reading.exists_ends (reading : Reading consumes α tokens) :
    ∃ outcome rest, reading.Ends outcome rest := by
  cases reading with
  | ok read => exact ⟨.ok read.value, read.rest, read.left, rfl⟩
  | error mismatch => exact ⟨.error mismatch.cause, mismatch.rest, rfl⟩

/-- A rule leaves a final part of its tokens, and where a numeral is to blame it is the token
that comes next. -/
def Reading.Bounded (reading : Reading consumes α tokens) : Prop :=
  ∀ outcome rest, reading.Ends outcome rest → Blamed outcome rest ∧ rest <:+ tokens

/-- How a rule ends by what it looks at is more than that. -/
theorem Traced.bounded {rule : (tokens : List Token) → Reading consumes α tokens}
    (traced : Traced rule tokens) : (rule tokens).Bounded := by
  intro outcome rest ends
  obtain ⟨blamed, front, rfl, _⟩ := traced outcome rest ends
  exact ⟨blamed, List.suffix_append front rest⟩

/-- Expressions up to a mark leave a final part, whatever the mark is. -/
theorem items_bounded (closing : String) (tokens : List Token) :
    (items closing tokens).Bounded ∧ (moreItems closing tokens).Bounded := by
  induction length : tokens.length using Nat.strong_induction_on generalizing tokens
  case h bound shorter =>
  have more : (moreItems closing tokens).Bounded := by
    intro outcome rest ends
    cases tokens with
    | nil =>
      rw [moreItems, refuse_ends] at ends
      obtain ⟨rfl, rfl⟩ := ends
      exact ⟨blamed_expected _ _, List.suffix_rfl⟩
    | cons token tail =>
      rw [moreItems] at ends
      by_cases closed : token.text = closing
      · rw [if_pos closed, behind_ends, nothing_ends] at ends
        obtain ⟨rfl, rfl⟩ := ends
        exact ⟨blamed_ok _ _, List.suffix_cons _ _⟩
      by_cases comma : token.text = ","
      · rw [if_neg closed, if_pos comma, behind_ends] at ends
        obtain ⟨blamed, suffix⟩ :=
          (shorter tail.length (by simp [← length]) tail rfl).1 outcome rest ends
        exact ⟨blamed, suffix.trans (List.suffix_cons _ _)⟩
      · rw [if_neg closed, if_neg comma, refuse_ends] at ends
        obtain ⟨rfl, rfl⟩ := ends
        exact ⟨blamed_expected _ _, List.suffix_rfl⟩
  refine ⟨fun outcome rest ends => ?_, more⟩
  have first := (level_traced levels levels_known tokens).bounded
  rw [items] at ends
  rcases andThen_ends.mp ends with ⟨cause, rfl, failed⟩ | ⟨value, middle, left, read, further⟩
  · obtain ⟨blamed, suffix⟩ := first _ _ failed
    exact ⟨blamed.error, suffix⟩
  · obtain ⟨others, later, rfl⟩ := map_ends.mp further
    obtain ⟨blamed, suffix⟩ :=
      (shorter middle.length (length ▸ left.lt) middle rfl).2 others rest later
    refine ⟨?_, suffix.trans (first _ _ read).2⟩
    cases others with
    | ok values => exact blamed_ok _ _
    | error cause => exact blamed.error

/-- Any number of expressions up to a mark leave a final part as well. -/
theorem arguments_bounded (closing : String) (tokens : List Token) :
    (arguments closing tokens).Bounded := by
  intro outcome rest ends
  cases tokens with
  | nil =>
    rw [arguments] at ends
    exact (items_bounded closing []).1 outcome rest ends
  | cons token tail =>
    rw [arguments] at ends
    by_cases closed : token.text = closing
    · rw [if_pos closed, behind_ends, nothing_ends] at ends
      obtain ⟨rfl, rfl⟩ := ends
      exact ⟨blamed_ok _ _, List.suffix_cons _ _⟩
    · rw [if_neg closed] at ends
      exact (items_bounded closing (token :: tail)).1 outcome rest ends

/-- The operators of the levels from one on are words of the grammar. -/
theorem drop_known (depth : Nat) : (levels.drop depth).flatten ⊆ knownWords :=
  List.Subset.trans (List.drop_sublist depth levels).flatten.subset levels_known

/-- So are those of a level and of the levels behind it. -/
theorem operatorsAt_known (depth : Nat) :
    (Rule.operatorsAt depth :: levels.drop (depth + 1)).flatten ⊆ knownWords := by
  rw [List.flatten_cons, Rule.operatorsAt]
  refine List.append_subset.mpr ⟨?_, drop_known (depth + 1)⟩
  cases inside : levels[depth]? with
  | none => simp
  | some operators =>
    refine List.Subset.trans ?_ levels_known
    exact fun word member => List.mem_flatten_of_mem (List.mem_of_getElem? inside) member

/-- Every rule leaves a final part of its tokens. -/
theorem Rule.reading_bounded (rule : Rule consumes α) (tokens : List Token) :
    (rule.reading tokens).Bounded := by
  cases rule with
  | level depth => exact (level_traced _ (drop_known depth) tokens).bounded
  | chain depth left => exact (chain_traced _ _ (operatorsAt_known depth) left tokens).bounded
  | primary => exact (primary_traced tokens).bounded
  | afterName name => exact (afterName_traced name tokens).bounded
  | arguments closing => exact arguments_bounded closing tokens
  | items closing => exact (items_bounded closing tokens).1
  | moreItems closing => exact (items_bounded closing tokens).2
  | typeName => exact (typeName_traced tokens).bounded
  | optionalType => exact (optionalType_traced tokens).bounded
  | declaration => exact (declaration_traced tokens).bounded
  | returning => exact (returning_traced tokens).bounded
  | simple => exact (simple_traced tokens).bounded
  | statement => exact (statement_traced tokens).bounded
  | block => exact (block_traced tokens).bounded
  | conditional => exact (conditional_traced tokens).bounded
  | otherwise => exact (otherwise_traced tokens).bounded
  | loop => exact (loop_traced tokens).bounded
  | switch => exact (switch_traced tokens).bounded
  | cases => exact (cases_traced tokens).bounded
  | case => exact (case_traced tokens).bounded
  | labelled => exact (labelled_traced tokens).bounded
  | unlabelled => exact (unlabelled_traced tokens).bounded
  | listGlobal => exact (listGlobal_traced tokens).bounded
  | mutableGlobal => exact (mutableGlobal_traced tokens).bounded
  | immutableGlobal => exact (immutableGlobal_traced tokens).bounded
  | globalDef => exact (globalDef_traced tokens).bounded
  | parameter => exact (parameter_traced tokens).bounded
  | parameters => exact (parameters_traced tokens).bounded
  | moreParameters => exact (moreParameters_traced tokens).bounded
  | parameterList => exact (parameterList_traced tokens).bounded
  | functionDef => exact (functionDef_traced tokens).bounded
  | globals => exact (globals_traced tokens).bounded
  | functions => exact (functions_traced tokens).bounded
  | program => exact (program_traced tokens).bounded

/-- A block is left at the end of the tokens, or at a word that no statement of a block
starts with. -/
theorem block_stops {statements : List (Stmt .bare)}
    (gives : (block tokens).Gives statements rest) : Ends rest := by
  induction length : tokens.length using Nat.strong_induction_on generalizing tokens statements
  case h bound shorter =>
  cases tokens with
  | nil =>
    rw [block, nothing_gives] at gives
    rw [gives.2]
    intro token first
    cases first
  | cons token tail =>
    rw [block] at gives
    by_cases ends : blockEnds.contains token.text = true
    · rw [if_pos ends, nothing_gives] at gives
      rw [gives.2]
      exact .cons (List.contains_iff_mem.mp ends)
    · rw [if_neg ends, lax_gives, andThen_gives] at gives
      obtain ⟨first, after, left, -, further⟩ := gives
      obtain ⟨others, inner, -⟩ := map_gives.mp further
      exact shorter after.length (length ▸ left.lt) inner rfl

/-! ## Positions -/

/-- A rule that begins at a position comes to an end with the outcome, at a position within
the tokens that is not before. If it has to consume a token and succeeds, it is behind. -/
structure Rule.EndsAt (rule : Rule consumes α) (tokens : List Token) (start : Nat)
    (outcome : Except Cause α) (position : Nat) : Prop where
  reads : (rule.reading (tokens.drop start)).Ends outcome (tokens.drop position)
  /-- The budget that is always enough is linear in the number of tokens that are left. -/
  attempts : ∀ budget, 10 * (tokens.length - start) + 10 ≤ budget →
    (rule.attempt budget).Ends (tokens.drop start) outcome (tokens.drop position)
  onward : start ≤ position
  inside : position ≤ tokens.length
  consumed : consumes = true → ∀ value, outcome = .ok value → start < position
  /-- What is blamed for being no number is the token at the position. -/
  blamed : ∀ fault, outcome = .error (.numeral fault) →
    ∃ token, tokens[position]? = some token ∧ token.Spoiled fault

/-- Every rule ends at some position. -/
theorem Rule.ends_somewhere (rule : Rule consumes α) (within : start ≤ tokens.length) :
    ∃ outcome position, rule.EndsAt tokens start outcome position := by
  obtain ⟨outcome, rest, ends⟩ := (rule.reading (tokens.drop start)).exists_ends
  obtain ⟨blamed, front, split⟩ := rule.reading_bounded _ outcome rest ends
  have counted : tokens.length - start = front.length + rest.length := by
    rw [← List.length_append, split, List.length_drop]
  have place : rest = tokens.drop (start + front.length) := by
    rw [← List.drop_drop, ← split, List.drop_left]
  refine ⟨outcome, start + front.length, place ▸ ends, fun budget enough => ?_, by omega, by omega,
    ?_, ?_⟩
  · refine (rule.attempt_follows budget _ ?_).ends (place ▸ ends)
    have small := rule.rank_lt
    rw [demand, List.length_drop]
    omega
  · rintro rfl value rfl
    have left : rest.length < (tokens.drop start).length := Reading.Gives.left ends
    rw [← split, List.length_append] at left
    omega
  · intro fault failed
    obtain ⟨token, next, read⟩ := blamed fault failed
    rw [place, List.head?_drop] at next
    exact ⟨token, next, spoiled_of_literal read⟩

/-- Without a token that is blamed for being no number, a rule succeeds or refuses a token. -/
theorem Rule.EndsAt.read_or_refused {rule : Rule consumes α}
    (ends : rule.EndsAt tokens start outcome position)
    (whole : ∀ token ∈ tokens, ∀ fault, ¬ token.Spoiled fault) :
    (∃ value, outcome = .ok value) ∨ ∃ expected, outcome = .error (.expected expected) := by
  cases outcome with
  | ok value => exact .inl ⟨value, rfl⟩
  | error cause =>
    cases cause with
    | expected expected => exact .inr ⟨expected, rfl⟩
    | numeral fault =>
      obtain ⟨token, here, spoiled⟩ := ends.blamed fault rfl
      exact absurd spoiled (whole token (List.mem_of_getElem? here) fault)

/-- Every rule ends wherever it begins, with a result, with a syntax error, or at a token that
should be a number and is none; if every number is one, with a result or a syntax error. It
never goes back and never beyond the last token, and a rule that always consumes a token moves
on when it succeeds. A block stops at the word that ends it. -/
theorem rules_end_and_progress (tokens : List Token) (start : Nat)
    (within : start ≤ tokens.length) :
    (∀ {consumes : Bool} {α : Type} (rule : Rule consumes α),
      ∃ outcome position, rule.EndsAt tokens start outcome position ∧
        ((∀ token ∈ tokens, ∀ fault, ¬ token.Spoiled fault) →
          (∃ value, outcome = .ok value) ∨
            ∃ expected, outcome = .error (.expected expected))) ∧
    ∀ statements position, Rule.block.EndsAt tokens start (.ok statements) position →
      ∀ token, tokens[position]? = some token → token.text ∈ blockEnds := by
  refine ⟨fun rule => ?_, fun statements position ends token here => ?_⟩
  · obtain ⟨outcome, position, ends⟩ := rule.ends_somewhere within
    exact ⟨outcome, position, ends, ends.read_or_refused⟩
  · refine block_stops ends.reads token ?_
    rw [List.head?_drop]
    exact here

/-- A loop that is cut off in its body. -/
def cutOffLoop : List Token :=
  [⟨.identifier, "WHILE", 0⟩, ⟨.identifier, "TRUE", 6⟩, ⟨.identifier, "DO", 11⟩,
    ⟨.identifier, "f", 14⟩, ⟨.operator, "(", 15⟩]

/-- A statement that begins at its last word comes to an end, and so does a block. -/
theorem cutOffLoop_progress :
    3 ≤ cutOffLoop.length ∧
    (∃ outcome position, Rule.statement.EndsAt cutOffLoop 3 outcome position ∧
      ((∃ value, outcome = .ok value) ∨ ∃ expected, outcome = .error (.expected expected))) ∧
    ∀ statements position, Rule.block.EndsAt cutOffLoop 3 (.ok statements) position →
      ∀ token, cutOffLoop[position]? = some token → token.text ∈ blockEnds := by
  have within : 3 ≤ cutOffLoop.length := by decide
  obtain ⟨rules, blocks⟩ := rules_end_and_progress cutOffLoop 3 within
  have whole : ∀ token ∈ cutOffLoop, ∀ fault, ¬ token.Spoiled fault := by
    intro token member fault spoiled
    have other := (by decide : ∀ token ∈ cutOffLoop, token.kind ∉ [TokenKind.integer, .decimal])
      token member
    rcases spoiled with ⟨kind, _⟩ | ⟨kind, _⟩ <;> simp [kind] at other
  obtain ⟨outcome, position, ends, read⟩ := rules .statement
  exact ⟨within, ⟨outcome, position, ends, read whole⟩, blocks⟩

/-- An expression is not read when its first token gives no number. -/
theorem expression_spoiled {fault : NumeralFault}
    (read : literal? token = some (.error fault)) :
    (level levels (token :: rest)).Ends (.error (.numeral fault)) (token :: rest) := by
  simp [Reading.Ends, levels, level, primary, read]

/-- An expression that begins with such a token ends neither with a result nor with a syntax
error. -/
theorem spoiled_neither {fault : NumeralFault} (read : literal? token = some (.error fault)) :
    ¬ ∃ outcome position, (Rule.level 0).EndsAt [token] 0 outcome position ∧
      ((∃ value, outcome = .ok value) ∨ ∃ expected, outcome = .error (.expected expected)) := by
  rintro ⟨outcome, position, ends, ⟨value, rfl⟩ | ⟨expected, rfl⟩⟩
  · exact Reading.Gives.not_fails ends.reads (expression_spoiled read)
  · cases (Reading.Fails.unique ends.reads (expression_spoiled read)).1

/-- Rules end in a third way: at an integer token without digits, which lexing does not give,
and at one with 4301 digits, which it does. -/
theorem numbers_stop_rules :
    (¬ ∃ outcome position, (Rule.level 0).EndsAt [⟨.integer, "x", 0⟩] 0 outcome position ∧
      ((∃ value, outcome = .ok value) ∨ ∃ expected, outcome = .error (.expected expected))) ∧
    Token.ofText (ones 4301) = .ok [⟨.integer, ones 4301, 0⟩] ∧
    ¬ ∃ outcome position, (Rule.level 0).EndsAt [⟨.integer, ones 4301, 0⟩] 0 outcome position ∧
      ((∃ value, outcome = .ok value) ∨ ∃ expected, outcome = .error (.expected expected)) :=
  ⟨spoiled_neither (by cbv), ones_lexed 4300, spoiled_neither (ones_overlong 4300 (by decide) 0)⟩

end Blockscript.Grammar
