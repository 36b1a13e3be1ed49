import Blockscript.Proofs.Grammar.Failure
import Blockscript.Proofs.Grammar.Soundness
import Blockscript.Proofs.Grammar.Numerals

/-!
# What a failing rule leaves unfinished

A rule that fails has not gone wrong before the token it fails at: what stands in front of
that token is the beginning of a phrase of the rule. A few tokens are enough to finish any
phrase, and finishing them is all that the parts behind the failure need; the parts in front
of it are phrases already.

The theorems follow the rules as the ones about success do, part by part of each production.
-/

namespace Blockscript.Grammar

open Phrase

variable {α β : Type} {inner rest tokens : List Token} {cause : Cause}

/-! ## Spare tokens -/

/-- A word, wherever it stands. -/
def named (text : String) : Token :=
  ⟨.identifier, text, 0⟩

/-- A mark, wherever it stands. -/
def marked (text : String) : Token :=
  ⟨.operator, text, 0⟩

/-- The token made of a name has the name as its text. -/
@[simp] theorem named_text (text : String) : (named text).text = text :=
  rfl

/-- The token made of a name is an identifier. -/
@[simp] theorem named_kind (text : String) : (named text).kind = .identifier :=
  rfl

/-- The token made of a mark has the mark as its text. -/
@[simp] theorem marked_text (text : String) : (marked text).text = text :=
  rfl

/-- The tokens that finish every phrase. -/
def spare : List Token :=
  ["a", "DO", "END", "DEFAULT", "VAR", "FUN"].map named ++
    ["(", ")", "[", "]", ">", ":", "=", ";"].map marked

/-- Every spare token is one that lexing gives, for its own text, and none is an integer. -/
theorem spare_readable : ∀ token ∈ spare, token.Readable := by
  have whole : ∀ token ∈ spare,
      token.kind.lexeme? token.text.toList = some token.text.toList ∧ token.Legible := by
    decide
  exact fun token member => ⟨⟨token.text.toList, (whole token member).1⟩, (whole token member).2⟩

/-- What stands in front of the rest begins a phrase: spare tokens finish it. -/
def Begun (phrase : List Token → α → Prop) (tokens rest : List Token) : Prop :=
  ∃ front more value, tokens = front ++ rest ∧ more ⊆ spare ∧ phrase (front ++ more) value

/-- A phrase that ends with spare tokens is begun in front of them. -/
theorem Begun.of {phrase : List Token → α → Prop} {whole : List Token} {value : α}
    (derived : phrase whole value) (front more : List Token) (same : whole = front ++ more)
    (split : tokens = front ++ rest) (inside : more ⊆ spare) : Begun phrase tokens rest :=
  ⟨front, more, value, split, inside, same ▸ derived⟩

/-- With a part of it a phrase is begun, when spare tokens make up what follows the part. -/
theorem Begun.part {phrase : List Token → α → Prop} {other : List Token → β → Prop}
    (begun : Begun phrase inner rest) (before after : List Token) (split : tokens = before ++ inner)
    (inside : after ⊆ spare)
    (form : ∀ {segment value}, phrase segment value →
      ∃ whole result, other whole result ∧ whole = before ++ segment ++ after) :
    Begun other tokens rest := by
  obtain ⟨front, more, value, rfl, further, derived⟩ := begun
  obtain ⟨_, result, whole, rfl⟩ := form derived
  refine ⟨before ++ front, more ++ after, result, by rw [split, List.append_assoc],
    List.append_subset.mpr ⟨further, inside⟩, ?_⟩
  simpa only [List.append_assoc] using whole

/-- A phrase that is one of another sort as well is begun as such. -/
theorem Begun.mono {phrase : List Token → α → Prop} {other : List Token → β → Prop}
    (begun : Begun phrase tokens rest)
    (form : ∀ {segment value}, phrase segment value → ∃ result, other segment result) :
    Begun other tokens rest :=
  begun.part [] [] rfl (List.nil_subset _) fun derived => by
    obtain ⟨result, whole⟩ := form derived
    exact ⟨_, result, whole, by simp⟩

/-- An optional part that fails has begun its phrase behind its word. -/
theorem optional_begun {consumes : Bool} {text : String}
    {rule : (tokens : List Token) → Reading consumes α tokens} {phrase : List Token → α → Prop}
    (begun : ∀ {tokens}, (rule tokens).Fails cause rest → Begun phrase tokens rest)
    (failed : (optional text rule tokens).Fails cause rest) :
    Begun (Phrase.Optional text phrase) tokens rest := by
  obtain ⟨mark, inner, same, rfl, inside⟩ := optional_fails.mp failed
  exact (begun inside).part [mark] [] rfl (List.nil_subset _) fun derived =>
    ⟨_, _, .present same derived, by simp⟩

/-! ## Expressions -/

/-- A name is an operand. -/
theorem spare_operand : Primary [named "a"] (.access () () "a") :=
  .access rfl (by decide)

/-- A single name is derived as a level of whichever operators. -/
theorem spare_level (operators : List (List String)) :
    Level operators [named "a"] (.access () () "a") := by
  induction operators with
  | nil => exact .primary spare_operand
  | cons loosest tighter inductionHypothesis => exact .operand inductionHypothesis

/-- A name is an expression. -/
theorem spare_expression : Expression [named "a"] (.access () () "a") :=
  spare_level levels

mutual

/-- Where a level of operators fails, what stands before begins one. -/
theorem level_begun {operators : List (List String)} {tokens rest : List Token}
    {cause : Cause} (failed : (level operators tokens).Fails cause rest) :
    Begun (Level operators) tokens rest := by
  match operators with
  | [] =>
    rw [level] at failed
    exact (primary_begun failed).mono fun phrase => ⟨_, .primary phrase⟩
  | loosest :: tighter =>
    rw [level, andThen_fails] at failed
    rcases failed with failed | ⟨left, middle, shorter, first, failed⟩
    · exact (level_begun failed).mono fun phrase => ⟨_, .operand phrase⟩
    · obtain ⟨segment, rfl, phrase⟩ := level_sound first
      exact chain_begun failed (.operand phrase)
termination_by (tokens.length, operators.length + 1)

/-- An operator calls for another operand, and what has been read is the left one. -/
theorem chain_begun {loosest : List String} {tighter : List (List String)} {left : Expr .bare}
    {tokens rest read : List Token} {cause : Cause}
    (failed : (chain loosest tighter left tokens).Fails cause rest)
    (before : Level (loosest :: tighter) read left) :
    Begun (Level (loosest :: tighter)) (read ++ tokens) rest := by
  match tokens with
  | [] =>
    rw [chain] at failed
    exact (nothing_fails.mp failed).elim
  | token :: others =>
    rw [chain] at failed
    split at failed
    · next operator =>
      have member := List.contains_iff_mem.mp operator
      rw [lax_fails, behind_fails, andThen_fails] at failed
      rcases failed with failed | ⟨right, after, shorter, first, failed⟩
      · exact (level_begun failed).part (read ++ [token]) [] (by simp) (List.nil_subset _)
          fun phrase => ⟨_, _, .binary before member phrase, by simp⟩
      · obtain ⟨segment, rfl, phrase⟩ := level_sound first
        have further := chain_begun failed (.binary before member phrase)
        simpa using further
    · exact (nothing_fails.mp failed).elim
termination_by (tokens.length, 0)
decreasing_by
  · exact .left _ _ (by simp)
  · exact .left _ _ (Nat.lt_succ_of_lt (Left.lt ‹_›))

/-- Where an operand fails, what stands before begins one. -/
theorem primary_begun {tokens rest : List Token} {cause : Cause}
    (failed : (primary tokens).Fails cause rest) : Begun Primary tokens rest := by
  match tokens with
  | [] =>
    rw [primary] at failed
    obtain ⟨_, rfl⟩ := refuse_fails.mp failed
    exact .of spare_operand [] _ rfl rfl (by decide)
  | token :: others =>
    rw [primary] at failed
    split at failed
    · rw [behind_fails] at failed
      exact (nothing_fails.mp failed).elim
    · obtain ⟨_, rfl⟩ := spoil_fails.mp failed
      exact .of spare_operand [] _ rfl rfl (by decide)
    · next none =>
      split at failed
      · next opening =>
        rw [behind_fails, andThen_fails] at failed
        rcases failed with failed | ⟨inner, after, shorter, first, failed⟩
        · exact (level_begun failed).part [token] [marked ")"] rfl (by decide)
            fun phrase => ⟨_, _, .group opening phrase (marked_text ")"), rfl⟩
        · obtain ⟨segment, rfl, phrase⟩ := level_sound first
          obtain ⟨_, _, rfl⟩ := wordAs_fails.mp (giving_fails.mp failed)
          exact .of (.group opening phrase (marked_text ")")) (token :: segment) [marked ")"] rfl
            rfl (by decide)
      split at failed
      · next opening =>
        rw [behind_fails, map_fails] at failed
        exact (arguments_begun failed).part [token] [marked "]"] rfl (by decide)
          fun phrase => ⟨_, _, .list opening phrase (marked_text "]"), rfl⟩
      split at failed
      · next name =>
        rw [behind_fails] at failed
        exact afterName_begun failed name (literal?_none none)
      · obtain ⟨_, rfl⟩ := refuse_fails.mp failed
        exact .of spare_operand [] _ rfl rfl (by decide)
termination_by (tokens.length, 0)

/-- Where something fails behind a name, the name with what stands before begins an operand. -/
theorem afterName_begun {name : Token} {tokens rest : List Token} {cause : Cause}
    (failed : (afterName name.text tokens).Fails cause rest) (kind : name.kind = .identifier)
    (free : name.text ∉ literalWords) : Begun Primary (name :: tokens) rest := by
  match tokens with
  | [] =>
    rw [afterName] at failed
    exact (nothing_fails.mp failed).elim
  | token :: others =>
    rw [afterName] at failed
    split at failed
    · next opening =>
      rw [lax_fails, behind_fails, andThen_fails] at failed
      rcases failed with failed | ⟨offset, after, shorter, first, failed⟩
      · exact (level_begun failed).part [name, token] [marked "]"] rfl (by decide)
          fun phrase => ⟨_, _, .element kind free opening phrase (marked_text "]"), rfl⟩
      · obtain ⟨segment, rfl, phrase⟩ := level_sound first
        obtain ⟨_, _, rfl⟩ := wordAs_fails.mp (giving_fails.mp failed)
        exact .of (.element kind free opening phrase (marked_text "]"))
          (name :: token :: segment) [marked "]"] rfl rfl (by decide)
    split at failed
    · next opening =>
      rw [lax_fails, behind_fails, map_fails] at failed
      exact (arguments_begun failed).part [name, token] [marked ")"] rfl (by decide)
        fun phrase => ⟨_, _, .call kind free opening phrase (marked_text ")"), rfl⟩
    · exact (nothing_fails.mp failed).elim
termination_by (tokens.length, 0)

/-- Where arguments fail, what stands before begins arguments. -/
theorem arguments_begun {closing : String} {tokens rest : List Token} {cause : Cause}
    (failed : (arguments closing tokens).Fails cause rest) : Begun Arguments tokens rest := by
  match tokens with
  | [] =>
    rw [arguments] at failed
    exact (items_begun failed).mono fun phrase => ⟨_, .some phrase⟩
  | token :: others =>
    rw [arguments] at failed
    split at failed
    · rw [behind_fails] at failed
      exact (nothing_fails.mp failed).elim
    · exact (items_begun failed).mono fun phrase => ⟨_, .some phrase⟩
termination_by (tokens.length, levels.length + 3)

/-- Where items fail, what stands before begins items. -/
theorem items_begun {closing : String} {tokens rest : List Token} {cause : Cause}
    (failed : (items closing tokens).Fails cause rest) : Begun Items tokens rest := by
  rw [items, andThen_fails] at failed
  rcases failed with failed | ⟨first, after, shorter, earlier, failed⟩
  · exact (level_begun failed).mono fun phrase => ⟨_, .last phrase⟩
  · obtain ⟨segment, rfl, phrase⟩ := level_sound earlier
    exact moreItems_begun (map_fails.mp failed) phrase
termination_by (tokens.length, levels.length + 2)

/-- Where neither a comma nor the closing mark comes, the items are complete. -/
theorem moreItems_begun {closing : String} {read tokens rest : List Token} {first : Expr .bare}
    {cause : Cause} (failed : (moreItems closing tokens).Fails cause rest)
    (before : Level levels read first) : Begun Items (read ++ tokens) rest := by
  match tokens with
  | [] =>
    rw [moreItems] at failed
    obtain ⟨_, rfl⟩ := refuse_fails.mp failed
    exact .of (.last before) read [] (by simp) rfl (List.nil_subset _)
  | token :: others =>
    rw [moreItems] at failed
    split at failed
    · rw [behind_fails] at failed
      exact (nothing_fails.mp failed).elim
    split at failed
    · next comma =>
      rw [behind_fails] at failed
      exact (items_begun failed).part (read ++ [token]) [] (by simp) (List.nil_subset _)
        fun phrase => ⟨_, _, .more before comma phrase, by simp⟩
    · obtain ⟨_, rfl⟩ := refuse_fails.mp failed
      exact .of (.last before) read [] (by simp) rfl (List.nil_subset _)
termination_by (tokens.length, 0)

end

/-- Where an expression fails, what stands before begins one. -/
theorem expression_begun (failed : (expression tokens).Fails cause rest) :
    Begun Expression tokens rest :=
  level_begun failed

/-! ## Types and statements -/

/-- Where a type name fails, what stands before begins one. -/
theorem typeName_begun {tokens rest : List Token} {cause : Cause}
    (failed : (typeName tokens).Fails cause rest) : Begun TypeName tokens rest := by
  rw [typeName, andThen_fails] at failed
  rcases failed with failed | ⟨_, after, shorter, first, failed⟩
  · obtain ⟨_, _, rfl⟩ := identifier_fails.mp failed
    exact .of (.plain (named_kind "a")) [] [named "a"] rfl rfl (by decide)
  obtain ⟨word, kind, rfl, whole⟩ := identifier_gives.mp first
  cases after with
  | nil => exact (nothing_fails.mp failed).elim
  | cons token inner =>
    simp only at failed
    split at failed
    · next opening =>
      rw [lax_fails, behind_fails, andThen_fails] at failed
      rcases failed with failed | ⟨argument, after, _, inside, failed⟩
      · exact (typeName_begun failed).part [word, token] [marked ">"] whole (by decide)
          fun phrase => ⟨_, _, .applied kind opening phrase (marked_text ">"), rfl⟩
      · obtain ⟨segment, rfl, phrase⟩ := typeName_sound inside
        obtain ⟨_, _, rfl⟩ := word_fails.mp (giving_fails.mp failed)
        exact .of (.applied kind opening phrase (marked_text ">")) (word :: token :: segment)
          [marked ">"] rfl whole (by decide)
    · exact (nothing_fails.mp failed).elim
termination_by tokens.length
decreasing_by
  simp only [whole, List.length_cons]
  omega

/-- Where an optional type fails, what stands before begins one. -/
theorem optionalType_begun (failed : (optionalType tokens).Fails cause rest) :
    Begun OptionalType tokens rest :=
  optional_begun typeName_begun failed

/-- Where an optional value fails, what stands before begins one. -/
theorem optionalValue_begun (failed : (optional "=" expression tokens).Fails cause rest) :
    Begun (Phrase.Optional "=" Expression) tokens rest :=
  optional_begun expression_begun failed

/-- Where a declaration fails, its LET with what stands before begins a statement. -/
theorem declaration_begun {start : Token} (word : start.text = "LET")
    (failed : (declaration tokens).Fails cause rest) :
    Begun Statement (start :: tokens) rest := by
  simp only [declaration, andThen_fails, giving_fails, word_fails, identifier_fails,
    identifier_gives] at failed
  rcases failed with ⟨_, _, rfl⟩ | ⟨_, _, _, ⟨name, kind, rfl, rfl⟩, failed⟩
  · exact .of (.declaration word (named_kind "a") .absent .absent (marked_text ";")) [start]
      [named "a", marked ";"] rfl rfl (by decide)
  rcases failed with failed | ⟨typeName, _, _, type, failed⟩
  · exact (optionalType_begun failed).part [start, name] [marked ";"] rfl (by decide)
      fun phrase => ⟨_, _, .declaration word kind phrase .absent (marked_text ";"), by simp⟩
  obtain ⟨typed, rfl, typePhrase⟩ := optionalType_sound type
  rcases failed with failed | ⟨value, _, _, given, _, _, rfl⟩
  · exact (optionalValue_begun failed).part (start :: name :: typed) [marked ";"] rfl (by decide)
      fun phrase => ⟨_, _, .declaration word kind typePhrase phrase (marked_text ";"), rfl⟩
  obtain ⟨valued, rfl, valuePhrase⟩ := optionalValue_sound given
  exact .of (.declaration word kind typePhrase valuePhrase (marked_text ";"))
    (start :: name :: typed ++ valued) [marked ";"] rfl (by simp) (by decide)

/-- Where a return fails, its RETURN with what stands before begins a statement. -/
theorem returning_begun {start : Token} (word : start.text = "RETURN")
    (failed : (returning tokens).Fails cause rest) :
    Begun Statement (start :: tokens) rest := by
  simp only [returning, andThen_fails, giving_fails, word_fails] at failed
  rcases failed with failed | ⟨value, _, _, given, _, _, rfl⟩
  · exact (expression_begun failed).part [start] [marked ";"] rfl (by decide)
      fun phrase => ⟨_, _, .returning word phrase (marked_text ";"), rfl⟩
  obtain ⟨segment, rfl, phrase⟩ := expression_sound given
  exact .of (.returning word phrase (marked_text ";")) (start :: segment) [marked ";"] rfl rfl
    (by decide)

/-- A name with its semicolon is a statement. -/
theorem spare_statement :
    Statement [named "a", marked ";"] (.expression (.access () () "a")) :=
  .expression spare_expression (by simp [Clear]; decide) (marked_text ";")

/-- What starts with none of the words does so whatever its end is. -/
theorem Phrase.Clear.ending {words : List String} {front more : List Token} (filled : front ≠ [])
    (clear : Clear words (front ++ rest)) : Clear words (front ++ more) := by
  cases front with
  | nil => exact absurd rfl filled
  | cons token others => exact clear

/-- An expression that fails at its first token may have been any other statement. -/
theorem simple_begun (clear : Clear statementWords tokens)
    (failed : (simple tokens).Fails cause rest) : Begun Statement tokens rest := by
  rw [simple, andThen_fails] at failed
  rcases failed with failed | ⟨target, after, _, first, failed⟩
  · obtain ⟨front, more, tree, rfl, inside, phrase⟩ := expression_begun failed
    -- Without a first token the statement is still of any kind; with one its kind is settled.
    by_cases filled : front = []
    · exact .of spare_statement [] _ rfl (by simp [filled]) (by decide)
    · exact .of (.expression phrase (clear.ending filled) (marked_text ";")) front
        (more ++ [marked ";"]) (by simp) rfl (List.append_subset.mpr ⟨inside, by decide⟩)
  obtain ⟨segment, rfl, phrase⟩ := expression_sound first
  have front := clear.front
  have unfinished : Begun Statement (segment ++ after) after :=
    .of (.expression phrase front (marked_text ";")) segment [marked ";"] rfl rfl (by decide)
  split at failed
  · next place =>
    simp only [andThen_fails, giving_fails, word_fails] at failed
    rcases failed with failed | ⟨value, _, _, given, _, _, rfl⟩
    · refine (optionalValue_begun failed).part segment [marked ";"] rfl (by decide) ?_
      intro _ _ derived
      cases derived with
      | absent => exact ⟨_, _, .expression phrase front (marked_text ";"), by simp⟩
      | present equals inside =>
        exact ⟨_, _, .assignment phrase front place equals inside (marked_text ";"), by simp⟩
    · obtain ⟨valued, rfl, valuePhrase⟩ := optionalValue_sound given
      cases valuePhrase with
      | absent => exact unfinished
      | present equals inside =>
        exact .of (.assignment phrase front place equals inside (marked_text ";"))
          (segment ++ _ :: _) [marked ";"] rfl (by simp) (by decide)
  · obtain ⟨_, _, rfl⟩ := word_fails.mp (giving_fails.mp failed)
    exact unfinished

/-- The word for the default is a list of cases. -/
theorem spare_cases : Cases [named "DEFAULT"] [.mk none []] :=
  .bareDefault (named_text "DEFAULT") .empty

mutual

/-- Where a statement fails, what stands before begins one. -/
theorem statement_begun {tokens rest : List Token} {cause : Cause}
    (failed : (statement tokens).Fails cause rest) : Begun Statement tokens rest := by
  match tokens with
  | [] =>
    rw [statement] at failed
    exact simple_begun (by simp [Clear]) failed
  | token :: others =>
    rw [statement] at failed
    split at failed
    · next word => exact declaration_begun word (behind_fails.mp failed)
    split at failed
    · next word => exact switch_begun word (behind_fails.mp failed)
    split at failed
    · next word => exact conditional_begun word (behind_fails.mp failed)
    split at failed
    · next word => exact loop_begun word (behind_fails.mp failed)
    split at failed
    · next word => exact returning_begun word (behind_fails.mp failed)
    · next declares switches decides repeats returns =>
      refine simple_begun ?_ failed
      simp [Clear, statementWords, declares, switches, decides, repeats, returns]
termination_by (tokens.length, 1)

/-- A statement that fails at its first token leaves the block complete. -/
theorem block_begun {tokens rest : List Token} {cause : Cause}
    (failed : (block tokens).Fails cause rest) : Begun Block tokens rest := by
  match tokens with
  | [] =>
    rw [block] at failed
    exact (nothing_fails.mp failed).elim
  | token :: others =>
    rw [block] at failed
    split at failed
    · exact (nothing_fails.mp failed).elim
    · next goesOn =>
      have clear : Clear blockEnds (token :: others) := by
        simpa [Clear] using goesOn
      rw [lax_fails, andThen_fails] at failed
      rcases failed with failed | ⟨first, after, shorter, earlier, failed⟩
      · obtain ⟨front, more, tree, same, inside, phrase⟩ := statement_begun failed
        -- Without a first token of the statement the block may as well end in front of it.
        by_cases filled : front = []
        · exact .of .empty [] [] rfl (by simpa [filled] using same) (List.nil_subset _)
        · rw [same] at clear
          exact .of (.cons phrase (clear.ending filled) .empty) front more (by simp) same inside
      · obtain ⟨segment, same, phrase⟩ := statement_sound earlier
        rw [same] at clear
        exact (block_begun (map_fails.mp failed)).part segment [] same (List.nil_subset _)
          fun derived => ⟨_, _, .cons phrase clear.front derived, by simp⟩
termination_by (tokens.length, 2)

/-- Where a conditional fails, its IF with what stands before begins a statement. -/
theorem conditional_begun {start : Token} {tokens rest : List Token} {cause : Cause}
    (word : start.text = "IF") (failed : (conditional tokens).Fails cause rest) :
    Begun Statement (start :: tokens) rest := by
  simp only [conditional, andThen_fails, giving_fails, word_fails, word_gives] at failed
  rcases failed with failed | ⟨condition, _, _, first, failed⟩
  · exact (expression_begun failed).part [start] [named "DO", named "END"] rfl (by decide)
      fun phrase => ⟨_, _, .conditional word phrase (named_text "DO") .empty (named_text "END"),
        by simp⟩
  obtain ⟨segment, rfl, phrase⟩ := expression_sound first
  rcases failed with ⟨_, _, rfl⟩ | ⟨_, _, _, ⟨begin, begins, rfl⟩, failed⟩
  · exact .of (.conditional word phrase (named_text "DO") .empty (named_text "END"))
      (start :: segment) [named "DO", named "END"] (by simp) rfl (by decide)
  rcases failed with failed | ⟨thenBlock, _, _, inside, failed⟩
  · exact (block_begun failed).part (start :: segment ++ [begin]) [named "END"] (by simp)
      (by decide)
      fun derived => ⟨_, _, .conditional word phrase begins derived (named_text "END"), by simp⟩
  obtain ⟨body, rfl, thenPhrase⟩ := block_sound inside
  rcases failed with failed | ⟨elseBlock, _, _, other, _, _, rfl⟩
  · obtain ⟨middle, tail, divides, rfl, begun⟩ := otherwise_begun failed
    exact begun.part (start :: segment ++ begin :: body ++ [middle]) [named "END"] (by simp)
      (by decide) fun derived =>
        ⟨_, _, .alternative word phrase begins thenPhrase divides derived (named_text "END"),
          by simp⟩
  rcases otherwise_sound other with ⟨rfl, rfl⟩ | ⟨middle, divides, more, rfl, elsePhrase⟩
  · exact .of (.conditional word phrase begins thenPhrase (named_text "END"))
      (start :: segment ++ begin :: body) [named "END"] rfl (by simp) (by decide)
  · exact .of (.alternative word phrase begins thenPhrase divides elsePhrase (named_text "END"))
      (start :: segment ++ begin :: body ++ middle :: more) [named "END"] rfl (by simp)
      (by decide)
termination_by (tokens.length, 0)

/-- The second block fails behind its word only. -/
theorem otherwise_begun {tokens rest : List Token} {cause : Cause}
    (failed : (otherwise tokens).Fails cause rest) :
    ∃ middle tail, middle.text = "ELSE" ∧ tokens = middle :: tail ∧ Begun Block tail rest := by
  match tokens with
  | [] =>
    rw [otherwise] at failed
    exact (nothing_fails.mp failed).elim
  | token :: others =>
    rw [otherwise] at failed
    split at failed
    · next word =>
      rw [lax_fails, behind_fails] at failed
      exact ⟨token, others, word, rfl, block_begun failed⟩
    · exact (nothing_fails.mp failed).elim
termination_by (tokens.length, 0)

/-- Where a loop fails, its WHILE with what stands before begins a statement. -/
theorem loop_begun {start : Token} {tokens rest : List Token} {cause : Cause}
    (word : start.text = "WHILE") (failed : (loop tokens).Fails cause rest) :
    Begun Statement (start :: tokens) rest := by
  simp only [loop, andThen_fails, giving_fails, word_fails, word_gives] at failed
  rcases failed with failed | ⟨condition, _, _, first, failed⟩
  · exact (expression_begun failed).part [start] [named "DO", named "END"] rfl (by decide)
      fun phrase => ⟨_, _, .loop word phrase (named_text "DO") .empty (named_text "END"), by simp⟩
  obtain ⟨segment, rfl, phrase⟩ := expression_sound first
  rcases failed with ⟨_, _, rfl⟩ | ⟨_, _, _, ⟨begin, begins, rfl⟩, failed⟩
  · exact .of (.loop word phrase (named_text "DO") .empty (named_text "END"))
      (start :: segment) [named "DO", named "END"] (by simp) rfl (by decide)
  rcases failed with failed | ⟨body, _, _, inside, _, _, rfl⟩
  · exact (block_begun failed).part (start :: segment ++ [begin]) [named "END"] (by simp)
      (by decide)
      fun derived => ⟨_, _, .loop word phrase begins derived (named_text "END"), by simp⟩
  obtain ⟨body, rfl, bodyPhrase⟩ := block_sound inside
  exact .of (.loop word phrase begins bodyPhrase (named_text "END"))
    (start :: segment ++ begin :: body) [named "END"] rfl (by simp) (by decide)
termination_by (tokens.length, 0)

/-- Where a switch fails, its SWITCH with what stands before begins a statement. -/
theorem switch_begun {start : Token} {tokens rest : List Token} {cause : Cause}
    (word : start.text = "SWITCH") (failed : (switch tokens).Fails cause rest) :
    Begun Statement (start :: tokens) rest := by
  simp only [switch, andThen_fails, giving_fails, word_fails] at failed
  rcases failed with failed | ⟨subject, _, _, first, failed⟩
  · exact (expression_begun failed).part [start] [named "DEFAULT", named "END"] rfl (by decide)
      fun phrase => ⟨_, _, .switch word phrase spare_cases (named_text "END"), by simp⟩
  obtain ⟨segment, rfl, phrase⟩ := expression_sound first
  rcases failed with failed | ⟨trees, _, _, inside, _, _, rfl⟩
  · exact (cases_begun failed).part (start :: segment) [named "END"] rfl (by decide)
      fun derived => ⟨_, _, .switch word phrase derived (named_text "END"), rfl⟩
  obtain ⟨more, rfl, casesPhrase⟩ := cases_sound inside
  exact .of (.switch word phrase casesPhrase (named_text "END")) (start :: segment ++ more)
    [named "END"] rfl (by simp) (by decide)
termination_by (tokens.length, 0)

/-- Where no case comes, the default would complete the cases. -/
theorem cases_begun {tokens rest : List Token} {cause : Cause}
    (failed : (cases tokens).Fails cause rest) : Begun Cases tokens rest := by
  match tokens with
  | [] =>
    rw [cases] at failed
    simp only [startsWith, Bool.false_eq_true, ↓reduceIte, refuse_fails] at failed
    obtain ⟨_, rfl⟩ := failed
    exact .of spare_cases [] _ rfl rfl (by decide)
  | token :: others =>
    rw [cases] at failed
    split at failed
    · next word =>
      simp only [startsWith, decide_eq_true_eq] at word
      rw [andThen_fails] at failed
      rcases failed with failed | ⟨first, after, _, earlier, failed⟩
      · rw [case, if_pos word, behind_fails] at failed
        exact labelled_begun word failed
      · rw [case, if_pos word, behind_gives] at earlier
        obtain ⟨label, colon, body, trees, read, same, rfl, phrase, colons, bodyPhrase⟩ :=
          labelled_sound earlier
        exact (cases_begun (map_fails.mp failed)).part (token :: read ++ colon :: body) []
          (by simp [same]) (List.nil_subset _)
          fun derived => ⟨_, _, .labelled word phrase colons bodyPhrase derived, by simp⟩
    split at failed
    · next word =>
      simp only [startsWith, decide_eq_true_eq] at word
      have other : ¬ token.text = "CASE" := by simp [word]
      rw [map_fails, case, if_neg other, if_pos word, behind_fails] at failed
      exact unlabelled_begun word failed
    · obtain ⟨_, rfl⟩ := refuse_fails.mp failed
      exact .of spare_cases [] _ rfl rfl (by decide)
termination_by (tokens.length, 1)

/-- Where a labelled case fails, its CASE with what stands before begins cases. -/
theorem labelled_begun {start : Token} {tokens rest : List Token} {cause : Cause}
    (word : start.text = "CASE") (failed : (labelled tokens).Fails cause rest) :
    Begun Cases (start :: tokens) rest := by
  simp only [labelled, andThen_fails, map_fails, word_fails, word_gives] at failed
  rcases failed with failed | ⟨label, _, _, first, failed⟩
  · exact (expression_begun failed).part [start] [marked ":", named "DEFAULT"] rfl (by decide)
      fun phrase => ⟨_, _, .labelled word phrase (marked_text ":") .empty spare_cases, by simp⟩
  obtain ⟨read, rfl, phrase⟩ := expression_sound first
  rcases failed with ⟨_, _, rfl⟩ | ⟨_, _, _, ⟨colon, colons, rfl⟩, failed⟩
  · exact .of (.labelled word phrase (marked_text ":") .empty spare_cases) (start :: read)
      [marked ":", named "DEFAULT"] (by simp) rfl (by decide)
  exact (block_begun failed).part (start :: read ++ [colon]) [named "DEFAULT"] (by simp)
    (by decide) fun derived => ⟨_, _, .labelled word phrase colons derived spare_cases, by simp⟩
termination_by (tokens.length, 0)

/-- Where the last case fails, its DEFAULT with what stands before begins cases. -/
theorem unlabelled_begun {start : Token} {tokens rest : List Token} {cause : Cause}
    (word : start.text = "DEFAULT") (failed : (unlabelled tokens).Fails cause rest) :
    Begun Cases (start :: tokens) rest := by
  simp only [unlabelled, andThen_fails, map_fails] at failed
  rcases failed with failed | ⟨_, _, _, first, failed⟩
  · obtain ⟨_, _, _, _, failed⟩ := optional_fails.mp failed
    exact (nothing_fails.mp failed).elim
  rcases optional_gives.mp first with ⟨colon, _, _, colons, whole, read, _⟩ | ⟨_, _, same⟩
  · obtain ⟨rfl, rfl⟩ := nothing_gives.mp read
    have : tokens.length = _ + 1 := congrArg List.length whole
    exact (block_begun failed).part [start, colon] [] (by simp [whole]) (List.nil_subset _)
      fun derived => ⟨_, _, .default word colons derived, by simp⟩
  · rw [same] at failed
    exact (block_begun failed).part [start] [] rfl (List.nil_subset _)
      fun derived => ⟨_, _, .bareDefault word derived, by simp⟩
termination_by (tokens.length, 3)

end

/-! ## Programs -/

/-- A variable without a type or a value is a global. -/
theorem spare_global :
    Global [named "VAR", named "a", marked ";"] ⟨"a", none, true, none, ()⟩ :=
  .mutable (named_text "VAR") (named_kind "a") .absent .absent (marked_text ";")

/-- Where a global list fails, its LIST with what stands before begins a global. -/
theorem listGlobal_begun {start : Token} (word : start.text = "LIST")
    (failed : (listGlobal tokens).Fails cause rest) : Begun Global (start :: tokens) rest := by
  simp only [listGlobal, andThen_fails, word_fails, word_gives, identifier_fails,
    identifier_gives] at failed
  have only : Items [named "a"] [.access () () "a"] := .last spare_expression
  rcases failed with ⟨_, _, rfl⟩ | ⟨_, _, _, ⟨name, kind, rfl, rfl⟩, failed⟩
  · exact .of (.list word (named_kind "a") .absent (marked_text "=") (marked_text "[") only
        (marked_text "]") (marked_text ";")) [start]
      [named "a", marked "=", marked "[", named "a", marked "]", marked ";"] rfl rfl (by decide)
  rcases failed with failed | ⟨element, _, _, type, failed⟩
  · exact (optionalType_begun failed).part [start, name]
      [marked "=", marked "[", named "a", marked "]", marked ";"] rfl (by decide)
      fun phrase => ⟨_, _, .list word kind phrase (marked_text "=") (marked_text "[") only
        (marked_text "]") (marked_text ";"), by simp⟩
  obtain ⟨typed, rfl, typePhrase⟩ := optionalType_sound type
  rcases failed with ⟨_, _, rfl⟩ | ⟨_, _, _, ⟨equals, assigns, rfl⟩, failed⟩
  · exact .of (.list word kind typePhrase (marked_text "=") (marked_text "[") only
        (marked_text "]") (marked_text ";")) (start :: name :: typed)
      [marked "=", marked "[", named "a", marked "]", marked ";"] (by simp) rfl (by decide)
  rcases failed with ⟨_, _, rfl⟩ | ⟨_, after, _, ⟨opening, opens, rfl⟩, failed⟩
  · exact .of (.list word kind typePhrase assigns (marked_text "[") only (marked_text "]")
        (marked_text ";")) (start :: name :: typed ++ [equals])
      [marked "[", named "a", marked "]", marked ";"] (by simp) (by simp) (by decide)
  split at failed
  · obtain ⟨_, rfl⟩ := refuse_fails.mp failed
    exact .of (.list word kind typePhrase assigns opens only (marked_text "]") (marked_text ";"))
      (start :: name :: typed ++ [equals, opening]) [named "a", marked "]", marked ";"] (by simp)
      (by simp) (by decide)
  · exact (items_begun (map_fails.mp failed)).part (start :: name :: typed ++ [equals, opening])
      [marked "]", marked ";"] (by simp) (by decide)
      fun phrase => ⟨_, _, .list word kind typePhrase assigns opens phrase (marked_text "]")
        (marked_text ";"), by simp⟩

/-- Where a global variable fails, its VAR with what stands before begins a global. -/
theorem mutableGlobal_begun {start : Token} (word : start.text = "VAR")
    (failed : (mutableGlobal tokens).Fails cause rest) :
    Begun Global (start :: tokens) rest := by
  simp only [mutableGlobal, andThen_fails, map_fails, identifier_fails, identifier_gives] at failed
  rcases failed with ⟨_, _, rfl⟩ | ⟨_, _, _, ⟨name, kind, rfl, rfl⟩, failed⟩
  · exact .of (.mutable word (named_kind "a") .absent .absent (marked_text ";")) [start]
      [named "a", marked ";"] rfl rfl (by decide)
  rcases failed with failed | ⟨typeName, _, _, type, failed⟩
  · exact (optionalType_begun failed).part [start, name] [marked ";"] rfl (by decide)
      fun phrase => ⟨_, _, .mutable word kind phrase .absent (marked_text ";"), by simp⟩
  obtain ⟨typed, rfl, typePhrase⟩ := optionalType_sound type
  exact (optionalValue_begun failed).part (start :: name :: typed) [marked ";"] rfl (by decide)
    fun phrase => ⟨_, _, .mutable word kind typePhrase phrase (marked_text ";"), rfl⟩

/-- Where a global constant fails, its VAL with what stands before begins a global. -/
theorem immutableGlobal_begun {start : Token} (word : start.text = "VAL")
    (failed : (immutableGlobal tokens).Fails cause rest) :
    Begun Global (start :: tokens) rest := by
  simp only [immutableGlobal, andThen_fails, map_fails, wordAs_fails, wordAs_gives,
    identifier_fails, identifier_gives] at failed
  rcases failed with ⟨_, _, rfl⟩ | ⟨_, _, _, ⟨name, kind, rfl, rfl⟩, failed⟩
  · exact .of (.immutable word (named_kind "a") .absent (marked_text "=") spare_expression
        (marked_text ";")) [start] [named "a", marked "=", named "a", marked ";"] rfl rfl
      (by decide)
  rcases failed with failed | ⟨typeName, _, _, type, failed⟩
  · exact (optionalType_begun failed).part [start, name] [marked "=", named "a", marked ";"] rfl
      (by decide) fun phrase => ⟨_, _, .immutable word kind phrase (marked_text "=")
        spare_expression (marked_text ";"), by simp⟩
  obtain ⟨typed, rfl, typePhrase⟩ := optionalType_sound type
  rcases failed with ⟨_, _, rfl⟩ | ⟨_, _, _, ⟨equals, assigns, rfl⟩, failed⟩
  · exact .of (.immutable word kind typePhrase (marked_text "=") spare_expression
        (marked_text ";")) (start :: name :: typed) [marked "=", named "a", marked ";"] (by simp)
      rfl (by decide)
  exact (expression_begun failed).part (start :: name :: typed ++ [equals]) [marked ";"]
    (by simp) (by decide)
    fun phrase => ⟨_, _, .immutable word kind typePhrase assigns phrase (marked_text ";"), by simp⟩

/-- A global that only its semicolon is missing of is begun as well. -/
theorem globalDef_begun (failed : (globalDef tokens).Fails cause rest) :
    Begun Global tokens rest := by
  match tokens with
  | [] =>
    obtain ⟨_, rfl⟩ := refuse_fails.mp failed
    exact .of spare_global [] _ rfl rfl (by decide)
  | token :: others =>
    have closes {reading : Reading true (GlobalDef .bare) others}
        (sound : ∀ {after definition}, reading.Gives definition after →
          Unclosed token others definition after)
        (begun : reading.Fails cause rest → Begun Global (token :: others) rest)
        (unclosed : ((reading.andThen fun definition after _ =>
          (word ";" after).giving definition).behind token).Fails cause rest) :
        Begun Global (token :: others) rest := by
      simp only [behind_fails, andThen_fails, giving_fails, word_fails] at unclosed
      rcases unclosed with inside | ⟨definition, _, _, given, _, _, rfl⟩
      · exact begun inside
      · obtain ⟨segment, rfl, phrase⟩ := sound given
        exact .of (phrase (marked_text ";")) (token :: segment) [marked ";"] rfl rfl (by decide)
    simp only [globalDef] at failed
    split at failed
    · next word => exact closes (listGlobal_sound word) (listGlobal_begun word) failed
    split at failed
    · next word => exact closes (mutableGlobal_sound word) (mutableGlobal_begun word) failed
    split at failed
    · next word => exact closes (immutableGlobal_sound word) (immutableGlobal_begun word) failed
    · obtain ⟨_, rfl⟩ := refuse_fails.mp failed
      exact .of spare_global [] _ rfl rfl (by decide)

/-- Where a parameter fails, what stands before begins one. -/
theorem parameter_begun (failed : (parameter tokens).Fails cause rest) :
    Begun Parameter tokens rest := by
  simp only [parameter, andThen_fails, map_fails, identifier_fails, identifier_gives] at failed
  rcases failed with ⟨_, _, rfl⟩ | ⟨_, _, _, ⟨name, kind, rfl, rfl⟩, failed⟩
  · exact .of (.mk (named_kind "a") .absent) [] [named "a"] rfl rfl (by decide)
  · exact (optionalType_begun failed).part [name] [] rfl (List.nil_subset _)
      fun phrase => ⟨_, _, .mk kind phrase, by simp⟩

mutual

/-- Where parameters fail, what stands before begins parameters. -/
theorem parameters_begun {tokens rest : List Token} {cause : Cause}
    (failed : (parameters tokens).Fails cause rest) : Begun Parameters tokens rest := by
  rw [parameters, andThen_fails] at failed
  rcases failed with failed | ⟨first, after, shorter, earlier, failed⟩
  · exact (parameter_begun failed).mono fun phrase => ⟨_, .last phrase⟩
  · obtain ⟨segment, rfl, phrase⟩ := parameter_sound earlier
    exact moreParameters_begun (map_fails.mp failed) phrase
termination_by (tokens.length, 1)

/-- Where parameters fail behind a first one, that one with what stands before begins
parameters. -/
theorem moreParameters_begun {read tokens rest : List Token} {first : String × Option String}
    {cause : Cause} (failed : (moreParameters tokens).Fails cause rest)
    (before : Parameter read first) : Begun Parameters (read ++ tokens) rest := by
  match tokens with
  | [] =>
    rw [moreParameters] at failed
    obtain ⟨_, rfl⟩ := refuse_fails.mp failed
    exact .of (.last before) read [] (by simp) rfl (List.nil_subset _)
  | token :: others =>
    rw [moreParameters] at failed
    split at failed
    · rw [behind_fails] at failed
      exact (nothing_fails.mp failed).elim
    split at failed
    · next comma =>
      rw [behind_fails] at failed
      exact (parameters_begun failed).part (read ++ [token]) [] (by simp) (List.nil_subset _)
        fun phrase => ⟨_, _, .more before comma phrase, by simp⟩
    · obtain ⟨_, rfl⟩ := refuse_fails.mp failed
      exact .of (.last before) read [] (by simp) rfl (List.nil_subset _)
termination_by (tokens.length, 0)

end

/-- Where a parameter list fails, what stands before begins one. -/
theorem parameterList_begun (failed : (parameterList tokens).Fails cause rest) :
    Begun ParameterList tokens rest := by
  match tokens with
  | [] =>
    rw [parameterList] at failed
    exact (parameters_begun failed).mono fun phrase => ⟨_, .some phrase⟩
  | token :: others =>
    rw [parameterList] at failed
    split at failed
    · rw [behind_fails] at failed
      exact (nothing_fails.mp failed).elim
    · exact (parameters_begun failed).mono fun phrase => ⟨_, .some phrase⟩

/-- The parts of a function behind the failure may all be empty: there need be no parameters,
no type and no statements. -/
theorem functionDef_begun (failed : (functionDef tokens).Fails cause rest) :
    Begun Function tokens rest := by
  simp only [functionDef, andThen_fails, giving_fails, word_fails, word_gives, identifier_fails,
    identifier_gives] at failed
  rcases failed with ⟨_, _, rfl⟩ | ⟨_, _, _, ⟨start, starts, rfl⟩, failed⟩
  · exact .of (.mk (named_text "FUN") (named_kind "a") (marked_text "(") .none (marked_text ")")
        .absent (named_text "DO") .empty (named_text "END")) []
      [named "FUN", named "a", marked "(", marked ")", named "DO", named "END"] rfl rfl (by decide)
  rcases failed with ⟨_, _, rfl⟩ | ⟨_, _, _, ⟨name, kind, rfl, rfl⟩, failed⟩
  · exact .of (.mk starts (named_kind "a") (marked_text "(") .none (marked_text ")") .absent
        (named_text "DO") .empty (named_text "END")) [start]
      [named "a", marked "(", marked ")", named "DO", named "END"] rfl rfl (by decide)
  rcases failed with ⟨_, _, rfl⟩ | ⟨_, _, _, ⟨opening, opens, rfl⟩, failed⟩
  · exact .of (.mk starts kind (marked_text "(") .none (marked_text ")") .absent
        (named_text "DO") .empty (named_text "END")) [start, name]
      [marked "(", marked ")", named "DO", named "END"] rfl rfl (by decide)
  rcases failed with failed | ⟨parameters, _, _, listed, failed⟩
  · exact (parameterList_begun failed).part [start, name, opening]
      [marked ")", named "DO", named "END"] rfl (by decide)
      fun phrase => ⟨_, _, .mk starts kind opens phrase (marked_text ")") .absent
        (named_text "DO") .empty (named_text "END"), by simp⟩
  obtain ⟨inside, closing, rfl, parameterPhrase, closes⟩ := parameterList_sound listed
  rcases failed with failed | ⟨result, _, _, type, failed⟩
  · exact (optionalType_begun failed).part (start :: name :: opening :: inside ++ [closing])
      [named "DO", named "END"] (by simp) (by decide)
      fun phrase => ⟨_, _, .mk starts kind opens parameterPhrase closes phrase
        (named_text "DO") .empty (named_text "END"), by simp⟩
  obtain ⟨typed, rfl, typePhrase⟩ := optionalType_sound type
  rcases failed with ⟨_, _, rfl⟩ | ⟨_, _, _, ⟨begin, begins, rfl⟩, failed⟩
  · exact .of (.mk starts kind opens parameterPhrase closes typePhrase (named_text "DO") .empty
        (named_text "END")) (start :: name :: opening :: inside ++ closing :: typed)
      [named "DO", named "END"] (by simp) (by simp) (by decide)
  rcases failed with failed | ⟨body, _, _, block, _, _, rfl⟩
  · exact (block_begun failed).part
      (start :: name :: opening :: inside ++ closing :: typed ++ [begin]) [named "END"] (by simp)
      (by decide)
      fun derived => ⟨_, _, .mk starts kind opens parameterPhrase closes typePhrase begins derived
        (named_text "END"), by simp⟩
  obtain ⟨statements, rfl, blockPhrase⟩ := block_sound block
  exact .of (.mk starts kind opens parameterPhrase closes typePhrase begins blockPhrase
      (named_text "END"))
    (start :: name :: opening :: inside ++ closing :: typed ++ begin :: statements) [named "END"]
    (by simp) (by simp) (by decide)

/-- Where globals fail, what stands before begins a sequence of globals. -/
theorem globals_begun {tokens rest : List Token} {cause : Cause}
    (failed : (globals tokens).Fails cause rest) : Begun (Sequence Global) tokens rest := by
  match tokens with
  | [] =>
    rw [globals] at failed
    exact (nothing_fails.mp failed).elim
  | token :: others =>
    rw [globals] at failed
    split at failed
    · rw [lax_fails, andThen_fails] at failed
      rcases failed with failed | ⟨first, after, shorter, earlier, failed⟩
      · exact (globalDef_begun failed).part [] [] rfl (List.nil_subset _)
          fun phrase => ⟨_, _, .cons phrase .empty, by simp⟩
      · obtain ⟨segment, same, phrase⟩ := globalDef_sound earlier
        exact (globals_begun (map_fails.mp failed)).part segment [] same (List.nil_subset _)
          fun derived => ⟨_, _, .cons phrase derived, by simp⟩
    · exact (nothing_fails.mp failed).elim
termination_by tokens.length
decreasing_by exact Left.lt ‹_›

/-- Where functions fail, what stands before begins a sequence of functions. -/
theorem functions_begun {tokens rest : List Token} {cause : Cause}
    (failed : (functions tokens).Fails cause rest) :
    Begun (Sequence Function) tokens rest := by
  match tokens with
  | [] =>
    rw [functions] at failed
    exact (nothing_fails.mp failed).elim
  | token :: others =>
    rw [functions] at failed
    split at failed
    · rw [lax_fails, andThen_fails] at failed
      rcases failed with failed | ⟨first, after, shorter, earlier, failed⟩
      · exact (functionDef_begun failed).part [] [] rfl (List.nil_subset _)
          fun phrase => ⟨_, _, .cons phrase .empty, by simp⟩
      · obtain ⟨segment, same, phrase⟩ := functionDef_sound earlier
        exact (functions_begun (map_fails.mp failed)).part segment [] same (List.nil_subset _)
          fun derived => ⟨_, _, .cons phrase derived, by simp⟩
    · exact (nothing_fails.mp failed).elim
termination_by tokens.length
decreasing_by exact Left.lt ‹_›

/-- What stands in front of the token that a program fails at begins a program. -/
theorem program_begun (failed : (program tokens).Fails cause rest) :
    Begun Phrase.Program tokens rest := by
  simp only [program, andThen_fails, giving_fails] at failed
  rcases failed with failed | ⟨globals, _, _, front, failed⟩
  · exact (globals_begun failed).part [] [] rfl (List.nil_subset _)
      fun derived => ⟨_, _, .mk derived .empty, by simp⟩
  obtain ⟨first, rfl, globalPhrases⟩ := globals_sound front
  rcases failed with failed | ⟨functions, last, _, back, failed⟩
  · exact (functions_begun failed).part first [] rfl (List.nil_subset _)
      fun derived => ⟨_, _, .mk globalPhrases derived, by simp⟩
  obtain ⟨second, rfl, functionPhrases⟩ := functions_sound back
  cases last with
  | nil => exact (nothing_fails.mp failed).elim
  | cons token others =>
    obtain ⟨_, rfl⟩ := refuse_fails.mp failed
    exact .of (.mk globalPhrases functionPhrases) (first ++ second) [] (by simp) (by simp)
      (List.nil_subset _)

end Blockscript.Grammar
