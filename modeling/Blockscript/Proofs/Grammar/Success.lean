import Blockscript.Grammar.Reading

/-!
# What a rule gives

A successful rule is described by its value and by what it leaves. The proof that
it leaves little enough is part of the outcome, and is of no interest here; so
success is stated without it, and every way of combining rules has one law that
reduces its success to that of its parts.
-/

namespace Blockscript.Grammar

variable {first second consumes : Bool} {α β : Type} {tokens rest : List Token}

/-- An outcome in another form succeeds when it did before. -/
theorem map_eq_ok {ε : Type} {outcome : Except ε α} {form : α → β} {result : β} :
    outcome.map form = .ok result ↔ ∃ value, outcome = .ok value ∧ form value = result := by
  cases outcome <;> simp [Except.map]

/-- The rule succeeds with the value and leaves the rest. -/
def Reading.Gives (reading : Reading consumes α tokens) (value : α) (rest : List Token) : Prop :=
  ∃ left : Left consumes rest tokens, reading = .ok ⟨value, rest, left⟩

/-- What is left is as short as the rule promises. -/
theorem Reading.Gives.left {reading : Reading consumes α tokens} {value : α}
    (gives : reading.Gives value rest) : Left consumes rest tokens := by
  obtain ⟨left, _⟩ := gives
  exact left

/-- A rule has only one outcome. -/
theorem Reading.Gives.unique {reading : Reading consumes α tokens} {value other : α}
    {last : List Token} (gives : reading.Gives value rest) (again : reading.Gives other last) :
    value = other ∧ rest = last := by
  obtain ⟨_, outcome⟩ := gives
  obtain ⟨_, same⟩ := again
  cases outcome.symm.trans same
  exact ⟨rfl, rfl⟩

/-- The rule that reads nothing gives its value and leaves every token. -/
@[simp] theorem nothing_gives {value result : α} :
    (nothing value tokens).Gives result rest ↔ result = value ∧ rest = tokens := by
  constructor
  · rintro ⟨_, outcome⟩
    cases outcome
    exact ⟨rfl, rfl⟩
  · rintro ⟨rfl, rfl⟩
    exact ⟨_, rfl⟩

/-- A refusal gives nothing. -/
@[simp] theorem refuse_gives {expected : Expected} {result : α} :
    (refuse expected tokens : Reading consumes α tokens).Gives result rest ↔ False := by
  constructor
  · rintro ⟨_, outcome⟩
    cases outcome
  · exact False.elim

/-- A numeral that is spoiled gives nothing. -/
@[simp] theorem spoil_gives {fault : NumeralFault} {result : α} :
    (spoil fault tokens : Reading consumes α tokens).Gives result rest ↔ False := by
  constructor
  · rintro ⟨_, outcome⟩
    cases outcome
  · exact False.elim

/-- Two rules in order succeed when the second one does on what the first one
has left. -/
@[simp] theorem andThen_gives {reading : Reading first α tokens}
    {next : (value : α) → (rest : List Token) → Left first rest tokens → Reading second β rest}
    {result : β} {last : List Token} :
    (reading.andThen next).Gives result last ↔
      ∃ value rest, ∃ left : Left first rest tokens,
        reading.Gives value rest ∧ (next value rest left).Gives result last := by
  constructor
  · rintro ⟨_, outcome⟩
    unfold Reading.andThen at outcome
    split at outcome
    · cases outcome
    · next value rest left =>
      split at outcome
      · cases outcome
      · next later result last inner =>
        cases outcome
        exact ⟨value, rest, left, ⟨left, rfl⟩, ⟨_, inner⟩⟩
  · rintro ⟨value, rest, left, ⟨_, earlier⟩, ⟨shorter, later⟩⟩
    refine ⟨shorter.trans left, ?_⟩
    simp only [Reading.andThen, earlier, later]

/-- A rule whose value takes another form succeeds when the rule does. -/
@[simp] theorem map_gives {reading : Reading consumes α tokens} {form : α → β} {result : β} :
    (reading.map form).Gives result rest ↔
      ∃ value, reading.Gives value rest ∧ result = form value := by
  constructor
  · rintro ⟨_, outcome⟩
    unfold Reading.map at outcome
    split at outcome
    · cases outcome
    · cases outcome
      exact ⟨_, ⟨_, rfl⟩, rfl⟩
  · rintro ⟨value, ⟨left, outcome⟩, rfl⟩
    exact ⟨left, by simp only [Reading.map, outcome]⟩

/-- A rule whose value is replaced succeeds when the rule does. -/
@[simp] theorem giving_gives {reading : Reading consumes α tokens} {value result : β} :
    (reading.giving value).Gives result rest ↔
      (∃ read, reading.Gives read rest) ∧ result = value := by
  simp [Reading.giving]

/-- To promise less about what is left changes nothing about success. -/
@[simp] theorem lax_gives {reading : Reading consumes α tokens} {result : α} :
    reading.lax.Gives result rest ↔ reading.Gives result rest := by
  constructor
  · rintro ⟨_, outcome⟩
    unfold Reading.lax at outcome
    split at outcome
    · cases outcome
    · cases outcome
      exact ⟨_, rfl⟩
  · rintro ⟨left, outcome⟩
    exact ⟨left.le, by simp only [Reading.lax, outcome]⟩

/-- A token that stands before changes nothing about what a rule gives. -/
@[simp] theorem behind_gives {reading : Reading consumes α tokens} {token : Token} {result : α} :
    (reading.behind token).Gives result rest ↔ reading.Gives result rest := by
  constructor
  · rintro ⟨_, outcome⟩
    unfold Reading.behind at outcome
    split at outcome
    · cases outcome
    · cases outcome
      exact ⟨_, rfl⟩
  · rintro ⟨left, outcome⟩
    exact ⟨Nat.lt_succ_of_le left.le, by simp only [Reading.behind, outcome]⟩

/-- A word is read, under whichever expectation, when it is the text of the next token. -/
@[simp] theorem wordAs_gives {expected : Expected} {text : String} {read : Unit} :
    (wordAs expected text tokens).Gives read rest ↔
      ∃ token, token.text = text ∧ tokens = token :: rest := by
  cases tokens with
  | nil => simp [wordAs]
  | cons token tail =>
    by_cases same : token.text = text
    · simp only [wordAs, same, ↓reduceIte, behind_gives, nothing_gives, List.cons.injEq, true_and]
      constructor
      · rintro rfl
        exact ⟨token, same, rfl, rfl⟩
      · rintro ⟨_, _, _, left⟩
        exact left.symm
    · simp only [wordAs, same, ↓reduceIte, refuse_gives, List.cons.injEq, false_iff, not_exists,
        not_and]
      rintro other text rfl
      exact absurd text same

/-- A word is read when it is the text of the next token. -/
@[simp] theorem word_gives {text : String} {read : Unit} :
    (word text tokens).Gives read rest ↔ ∃ token, token.text = text ∧ tokens = token :: rest := by
  simp [word]

/-- A name is read when the next token is an identifier, and it is that token's text. -/
@[simp] theorem identifier_gives {expected : Expected} {name : String} :
    (identifier expected tokens).Gives name rest ↔
      ∃ token, token.kind = .identifier ∧ token.text = name ∧ tokens = token :: rest := by
  cases tokens with
  | nil => simp [identifier]
  | cons token tail =>
    by_cases kind : token.kind = .identifier
    · simp only [identifier, kind, ↓reduceIte, behind_gives, nothing_gives, List.cons.injEq]
      constructor
      · rintro ⟨rfl, rfl⟩
        exact ⟨token, kind, rfl, rfl, rfl⟩
      · rintro ⟨_, _, rfl, rfl, rfl⟩
        exact ⟨rfl, rfl⟩
    · simp only [identifier, kind, ↓reduceIte, refuse_gives, List.cons.injEq, false_iff,
        not_exists, not_and]
      rintro other identifier _ rfl
      exact absurd identifier kind

/-! The same laws in the direction in which a reading is put together. -/

/-- Two successes in order are a success of the two rules in order. -/
theorem Reading.Gives.andThen {reading : Reading first α tokens}
    {next : (value : α) → (rest : List Token) → Left first rest tokens → Reading second β rest}
    {value : α} {result : β} {last : List Token} (gives : reading.Gives value rest)
    (later : (next value rest gives.left).Gives result last) :
    (reading.andThen next).Gives result last :=
  andThen_gives.mpr ⟨value, rest, gives.left, gives, later⟩

/-- A success gives its value in another form. -/
theorem Reading.Gives.map {reading : Reading consumes α tokens} {form : α → β} {value : α}
    (gives : reading.Gives value rest) : (reading.map form).Gives (form value) rest :=
  map_gives.mpr ⟨value, gives, rfl⟩

/-- A success gives another value in place of its own. -/
theorem Reading.Gives.giving {reading : Reading consumes α tokens} {value : α} {result : β}
    (gives : reading.Gives value rest) : (reading.giving result).Gives result rest :=
  giving_gives.mpr ⟨⟨value, gives⟩, rfl⟩

/-- The token with the right text is read, under whichever expectation. -/
theorem wordAs_reads {expected : Expected} {text : String} {token : Token}
    (same : token.text = text) : (wordAs expected text (token :: rest)).Gives () rest :=
  wordAs_gives.mpr ⟨token, same, rfl⟩

/-- The token with the right text is read as the word. -/
theorem word_reads {text : String} {token : Token} (same : token.text = text) :
    (word text (token :: rest)).Gives () rest :=
  wordAs_reads same

/-- An identifier is read as the name that it spells. -/
theorem identifier_reads {expected : Expected} {token : Token} (kind : token.kind = .identifier) :
    (identifier expected (token :: rest)).Gives token.text rest :=
  identifier_gives.mpr ⟨token, kind, rfl, rfl⟩

/-- An optional part is either there with its word, or its word does not come
next. -/
theorem optional_gives {text : String} {rule : (tokens : List Token) → Reading consumes α tokens}
    {result : Option α} :
    (optional text rule tokens).Gives result rest ↔
      (∃ token inner value, token.text = text ∧ tokens = token :: inner ∧
        (rule inner).Gives value rest ∧ result = some value) ∨
      (startsWith text tokens = false ∧ result = none ∧ rest = tokens) := by
  cases tokens with
  | nil => simp [optional, startsWith]
  | cons token tail =>
    by_cases same : token.text = text
    · simp only [optional, startsWith, same, ↓reduceIte, lax_gives, behind_gives, map_gives,
        List.cons.injEq, decide_true, Bool.true_eq_false, false_and, or_false]
      constructor
      · rintro ⟨value, gives, rfl⟩
        exact ⟨token, tail, value, same, ⟨rfl, rfl⟩, gives, rfl⟩
      · rintro ⟨_, _, value, _, ⟨rfl, rfl⟩, gives, rfl⟩
        exact ⟨value, gives, rfl⟩
    · simp only [optional, startsWith, same, ↓reduceIte, nothing_gives, decide_false,
        List.cons.injEq, true_and]
      constructor
      · exact .inr
      · rintro (⟨other, _, _, text, ⟨rfl, rfl⟩, _⟩ | absent)
        · exact absurd text same
        · exact absent

end Blockscript.Grammar
