import Blockscript.Proofs.Grammar.Success

/-!
# How a rule fails

A rule that fails is described by its cause and by the tokens from the one on that did not
fit. As for success, every way of combining rules has one law that reduces its failure
to that of its parts. Where success and failure are alike, both are said at once: a rule
ends with an outcome, and leaves some tokens.
-/

namespace Blockscript.Grammar

variable {first second consumes : Bool} {α β : Type} {tokens rest : List Token}

/-- The rule fails where the rest begins, because something else is wanted there or the token
gives no number. -/
def Reading.Fails (reading : Reading consumes α tokens) (cause : Cause)
    (rest : List Token) : Prop :=
  reading = .error ⟨cause, rest⟩

/-- A rule that succeeds does not fail. -/
theorem Reading.Gives.not_fails {reading : Reading consumes α tokens} {value : α}
    {cause : Cause} {last : List Token} (gives : reading.Gives value rest) :
    ¬ reading.Fails cause last := by
  obtain ⟨_, outcome⟩ := gives
  simp [Reading.Fails, outcome]

/-- A rule fails in one way only. -/
theorem Reading.Fails.unique {reading : Reading consumes α tokens} {cause other : Cause}
    {last : List Token} (failed : reading.Fails cause rest) (again : reading.Fails other last) :
    cause = other ∧ rest = last := by
  cases failed.symm.trans again
  exact ⟨rfl, rfl⟩

/-- Reading nothing does not fail. -/
@[simp] theorem nothing_fails {value : α} {cause : Cause} :
    (nothing value tokens).Fails cause rest ↔ False := by
  simp [Reading.Fails, nothing]

/-- A refusal fails at once with what it wanted. -/
@[simp] theorem refuse_fails {wanted : Expected} {cause : Cause} :
    (refuse wanted tokens : Reading consumes α tokens).Fails cause rest ↔
      cause = .expected wanted ∧ rest = tokens := by
  constructor
  · rintro ⟨⟩
    exact ⟨rfl, rfl⟩
  · rintro ⟨rfl, rfl⟩
    rfl

/-- A numeral that is spoiled fails at once with its own fault. -/
@[simp] theorem spoil_fails {fault : NumeralFault} {cause : Cause} :
    (spoil fault tokens : Reading consumes α tokens).Fails cause rest ↔
      cause = .numeral fault ∧ rest = tokens := by
  constructor
  · rintro ⟨⟩
    exact ⟨rfl, rfl⟩
  · rintro ⟨rfl, rfl⟩
    rfl

/-- Two rules in order fail when the first one does, or the second one on what the first
one has left. -/
@[simp] theorem andThen_fails {reading : Reading first α tokens}
    {next : (value : α) → (rest : List Token) → Left first rest tokens → Reading second β rest}
    {cause : Cause} {last : List Token} :
    (reading.andThen next).Fails cause last ↔
      reading.Fails cause last ∨ ∃ value rest, ∃ left : Left first rest tokens,
        reading.Gives value rest ∧ (next value rest left).Fails cause last := by
  constructor
  · intro outcome
    unfold Reading.Fails Reading.andThen at outcome
    split at outcome
    · cases outcome
      exact .inl rfl
    · next value rest left =>
      split at outcome
      · next inner =>
        cases outcome
        exact .inr ⟨value, rest, left, ⟨left, rfl⟩, inner⟩
      · cases outcome
  · unfold Reading.Fails
    rintro (failed | ⟨value, rest, left, ⟨_, earlier⟩, later⟩)
    · simp only [Reading.andThen, failed]
    · simp only [Reading.andThen, earlier, later]

/-- The form of the value does not matter to a failure. -/
@[simp] theorem map_fails {reading : Reading consumes α tokens} {form : α → β}
    {cause : Cause} :
    (reading.map form).Fails cause rest ↔ reading.Fails cause rest := by
  unfold Reading.Fails Reading.map
  cases reading with
  | error mismatch => simp
  | ok read => simp

/-- The value that would be given does not matter to a failure. -/
@[simp] theorem giving_fails {reading : Reading consumes α tokens} {value : β}
    {cause : Cause} :
    (reading.giving value).Fails cause rest ↔ reading.Fails cause rest :=
  map_fails

/-- To promise less about what is left changes nothing about failure. -/
@[simp] theorem lax_fails {reading : Reading consumes α tokens} {cause : Cause} :
    reading.lax.Fails cause rest ↔ reading.Fails cause rest := by
  unfold Reading.Fails Reading.lax
  cases reading with
  | error mismatch => simp
  | ok read => simp

/-- A token that stands before changes nothing about how a rule fails. -/
@[simp] theorem behind_fails {reading : Reading consumes α tokens} {token : Token}
    {cause : Cause} :
    (reading.behind token).Fails cause rest ↔ reading.Fails cause rest := by
  unfold Reading.Fails Reading.behind
  cases reading with
  | error mismatch => simp
  | ok read => simp

/-- A word that is not there is wanted where the tokens begin. -/
@[simp] theorem wordAs_fails {wanted : Expected} {cause : Cause} {text : String} :
    (wordAs wanted text tokens).Fails cause rest ↔
      startsWith text tokens = false ∧ cause = .expected wanted ∧ rest = tokens := by
  cases tokens with
  | nil => simp [wordAs, startsWith]
  | cons token tail =>
    by_cases same : token.text = text
    · simp [wordAs, startsWith, same]
    · simp [wordAs, startsWith, same]

/-- A word fails exactly where the next token has another text or there is none, and says which
word was expected. -/
@[simp] theorem word_fails {text : String} {cause : Cause} :
    (word text tokens).Fails cause rest ↔
      startsWith text tokens = false ∧ cause = .expected (.word text) ∧ rest = tokens :=
  wordAs_fails

/-- A name that is not there is wanted where the tokens begin. -/
@[simp] theorem identifier_fails {wanted : Expected} {cause : Cause} :
    (identifier wanted tokens).Fails cause rest ↔
      (∀ token ∈ tokens.head?, token.kind ≠ .identifier) ∧ cause = .expected wanted ∧
        rest = tokens := by
  cases tokens with
  | nil => simp [identifier]
  | cons token tail =>
    by_cases kind : token.kind = .identifier
    · simp [identifier, kind]
    · simp [identifier, kind]

/-- An optional part fails behind its word only. -/
theorem optional_fails {text : String} {rule : (tokens : List Token) → Reading consumes α tokens}
    {cause : Cause} :
    (optional text rule tokens).Fails cause rest ↔
      ∃ token inner, token.text = text ∧ tokens = token :: inner ∧
        (rule inner).Fails cause rest := by
  cases tokens with
  | nil => simp [optional]
  | cons token tail =>
    by_cases same : token.text = text
    · simp only [optional, same, ↓reduceIte, lax_fails, behind_fails, map_fails, List.cons.injEq]
      constructor
      · intro failed
        exact ⟨token, tail, same, ⟨rfl, rfl⟩, failed⟩
      · rintro ⟨_, _, _, ⟨rfl, rfl⟩, failed⟩
        exact failed
    · simp only [optional, same, ↓reduceIte, nothing_fails, List.cons.injEq, false_iff,
        not_exists, not_and]
      rintro _ _ other ⟨rfl, rfl⟩
      exact absurd other same

/-! ## Either end -/

/-- The rule ends with the outcome, and leaves the rest: what follows what it has read, or
what does not fit. -/
def Reading.Ends (reading : Reading consumes α tokens) (outcome : Except Cause α)
    (rest : List Token) : Prop :=
  match outcome with
  | .ok value => reading.Gives value rest
  | .error cause => reading.Fails cause rest

/-- The rule that reads nothing has one end, its success. -/
@[simp] theorem nothing_ends {value : α} {outcome : Except Cause α} :
    (nothing value tokens).Ends outcome rest ↔ outcome = .ok value ∧ rest = tokens := by
  cases outcome <;> simp [Reading.Ends]

/-- A refusal has one end, the failure where it stands. -/
@[simp] theorem refuse_ends {wanted : Expected} {outcome : Except Cause α} :
    (refuse wanted tokens : Reading consumes α tokens).Ends outcome rest ↔
      outcome = .error (.expected wanted) ∧ rest = tokens := by
  cases outcome <;> simp [Reading.Ends]

/-- A numeral that is spoiled has one end, the failure where it stands. -/
@[simp] theorem spoil_ends {fault : NumeralFault} {outcome : Except Cause α} :
    (spoil fault tokens : Reading consumes α tokens).Ends outcome rest ↔
      outcome = .error (.numeral fault) ∧ rest = tokens := by
  cases outcome <;> simp [Reading.Ends]

/-- Two rules in order end where the first one fails, or where the second one ends on what the
first one has left. -/
theorem andThen_ends {reading : Reading first α tokens}
    {next : (value : α) → (rest : List Token) → Left first rest tokens → Reading second β rest}
    {outcome : Except Cause β} {last : List Token} :
    (reading.andThen next).Ends outcome last ↔
      (∃ cause, outcome = .error cause ∧ reading.Ends (.error cause) last) ∨
      ∃ value rest, ∃ left : Left first rest tokens,
        reading.Ends (.ok value) rest ∧ (next value rest left).Ends outcome last := by
  cases outcome with
  | ok value => simp [Reading.Ends]
  | error cause => simp [Reading.Ends]

/-- A rule whose value takes another form ends where the rule does. -/
theorem map_ends {reading : Reading consumes α tokens} {form : α → β}
    {outcome : Except Cause β} :
    (reading.map form).Ends outcome rest ↔
      ∃ read, reading.Ends read rest ∧ outcome = read.map form := by
  cases outcome with
  | ok value =>
    simp only [Reading.Ends, map_gives]
    constructor
    · rintro ⟨read, gives, rfl⟩
      exact ⟨.ok read, gives, rfl⟩
    · rintro ⟨read, ends, same⟩
      cases read with
      | ok read => exact ⟨read, ends, Except.ok.inj same⟩
      | error cause => cases same
  | error cause =>
    simp only [Reading.Ends, map_fails]
    constructor
    · intro failed
      exact ⟨.error cause, failed, rfl⟩
    · rintro ⟨read, ends, same⟩
      cases read with
      | ok read => cases same
      | error other =>
        obtain rfl := Except.error.inj same
        exact ends

/-- To promise less about what is left changes no end. -/
@[simp] theorem lax_ends {reading : Reading consumes α tokens} {outcome : Except Cause α} :
    reading.lax.Ends outcome rest ↔ reading.Ends outcome rest := by
  cases outcome <;> simp [Reading.Ends]

/-- A token that stands before changes no end. -/
@[simp] theorem behind_ends {reading : Reading consumes α tokens} {token : Token}
    {outcome : Except Cause α} :
    (reading.behind token).Ends outcome rest ↔ reading.Ends outcome rest := by
  cases outcome <;> simp [Reading.Ends]

end Blockscript.Grammar
