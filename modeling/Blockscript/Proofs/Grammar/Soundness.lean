import Blockscript.Proofs.Grammar.Derivation
import Blockscript.Proofs.Grammar.Success

/-!
# What is read derives

Every rule of the grammar, when it succeeds, has read a phrase: the tokens in
front of what it leaves, all of them and in their order. This needs nothing of
the tokens. The theorems follow the rules one by one and end for the same reason
as the rules do.
-/

namespace Blockscript.Grammar

variable {rest tokens : List Token}

/-- The tokens in front of the rest are a phrase with the value. -/
def Prefix {α : Type} (phrase : List Token → α → Prop) (tokens : List Token) (value : α)
    (rest : List Token) : Prop :=
  ∃ segment, tokens = segment ++ rest ∧ phrase segment value

/-- An optional part reads an optional phrase. -/
theorem optional_sound {consumes : Bool} {α : Type} {text : String}
    {rule : (tokens : List Token) → Reading consumes α tokens}
    {phrase : List Token → α → Prop} {result : Option α}
    (sound : ∀ {tokens rest value}, (rule tokens).Gives value rest →
      Prefix phrase tokens value rest)
    (gives : (optional text rule tokens).Gives result rest) :
    Prefix (Phrase.Optional text phrase) tokens result rest := by
  rcases optional_gives.mp gives with ⟨mark, inner, value, same, rfl, inside, rfl⟩ | ⟨_, rfl, rfl⟩
  · obtain ⟨segment, rfl, phrase⟩ := sound inside
    exact ⟨mark :: segment, rfl, .present same phrase⟩
  · exact ⟨[], rfl, .absent⟩

/-- A literal is an operand. -/
theorem literal?_sound {token : Token} {literal : Literal}
    (read : literal? token = some (.ok literal)) :
    Phrase.Primary [token] (.literal () literal) := by
  unfold literal? at read
  split at read
  · next nil => cases read; exact .nil nil
  split at read
  · next true => cases read; exact .true true
  split at read
  · next false => cases read; exact .false false
  cases kind : token.kind with
  | integer =>
    simp only [kind, Option.some.injEq] at read
    obtain ⟨number, reads, rfl⟩ := map_eq_ok.mp read
    exact .integer kind ⟨digitLimit, reads⟩
  | decimal =>
    simp only [kind, Option.some.injEq] at read
    obtain ⟨number, reads, rfl⟩ := map_eq_ok.mp read
    exact .decimal kind reads
  | character =>
    simp only [kind, Option.some.injEq, Except.ok.injEq] at read
    subst read
    exact .character kind
  | string =>
    simp only [kind, Option.some.injEq, Except.ok.injEq] at read
    subst read
    exact .string kind
  | identifier => simp [kind] at read
  | operator => simp [kind] at read

/-- A token that is no literal is none of the words for literals. -/
theorem literal?_none {token : Token} (none : literal? token = none) :
    token.text ∉ Phrase.literalWords := by
  unfold literal? at none
  simp only [Phrase.literalWords, List.mem_cons, List.not_mem_nil, or_false, not_or]
  refine ⟨?_, ?_, ?_⟩
  · intro nil
    simp [nil] at none
  · intro true
    simp [true] at none
  · intro false
    simp [false] at none

mutual

/-- What a level of operators reads is derived as that level. -/
theorem level_sound {operators : List (List String)} {tokens rest : List Token} {tree : Expr .bare}
    (gives : (level operators tokens).Gives tree rest) :
    Prefix (Phrase.Level operators) tokens tree rest := by
  match operators with
  | [] =>
    rw [level] at gives
    obtain ⟨segment, same, phrase⟩ := primary_sound gives
    exact ⟨segment, same, .primary phrase⟩
  | loosest :: tighter =>
    rw [level, andThen_gives] at gives
    obtain ⟨left, middle, shorter, first, later⟩ := gives
    obtain ⟨segment, same, phrase⟩ := level_sound first
    obtain ⟨others, again, whole⟩ := chain_sound later (.operand phrase)
    refine ⟨segment ++ others, ?_, whole⟩
    rw [same, again, List.append_assoc]
termination_by (tokens.length, operators.length + 1)

/-- What has been read grows to the right, and its tree is the left operand of
what comes next. -/
theorem chain_sound {loosest : List String} {tighter : List (List String)}
    {left tree : Expr .bare} {tokens rest read : List Token}
    (gives : (chain loosest tighter left tokens).Gives tree rest)
    (before : Phrase.Level (loosest :: tighter) read left) :
    ∃ segment, tokens = segment ++ rest ∧
      Phrase.Level (loosest :: tighter) (read ++ segment) tree := by
  match tokens with
  | [] =>
    rw [chain, nothing_gives] at gives
    obtain ⟨rfl, rfl⟩ := gives
    exact ⟨[], rfl, by simpa using before⟩
  | token :: others =>
    rw [chain] at gives
    split at gives
    · next operator =>
      rw [lax_gives, behind_gives, andThen_gives] at gives
      obtain ⟨right, after, shorter, first, later⟩ := gives
      obtain ⟨segment, rfl, phrase⟩ := level_sound first
      obtain ⟨more, rfl, whole⟩ := chain_sound later
        (.binary before (List.contains_iff_mem.mp operator) phrase)
      refine ⟨token :: segment ++ more, by simp, ?_⟩
      simpa using whole
    · rw [nothing_gives] at gives
      obtain ⟨rfl, rfl⟩ := gives
      exact ⟨[], rfl, by simpa using before⟩
termination_by (tokens.length, 0)
decreasing_by
  · exact .left _ _ (by simp)
  · exact .left _ _ (Nat.lt_succ_of_lt (Left.lt ‹_›))

/-- What is read as an operand is derived as one. -/
theorem primary_sound {tokens rest : List Token} {tree : Expr .bare}
    (gives : (primary tokens).Gives tree rest) : Prefix Phrase.Primary tokens tree rest := by
  match tokens with
  | [] =>
    rw [primary, refuse_gives] at gives
    exact gives.elim
  | token :: others =>
    rw [primary] at gives
    split at gives
    · next literal read =>
      rw [behind_gives, nothing_gives] at gives
      obtain ⟨rfl, rfl⟩ := gives
      exact ⟨[token], rfl, literal?_sound read⟩
    · exact (spoil_gives.mp gives).elim
    · next none =>
      split at gives
      · next opening =>
        rw [behind_gives, andThen_gives] at gives
        obtain ⟨inner, after, shorter, first, later⟩ := gives
        obtain ⟨⟨_, closed⟩, rfl⟩ := giving_gives.mp later
        obtain ⟨closing, same, rfl⟩ := wordAs_gives.mp closed
        obtain ⟨segment, rfl, phrase⟩ := level_sound first
        exact ⟨token :: segment ++ [closing], by simp, .group opening phrase same⟩
      split at gives
      · next opening =>
        rw [behind_gives, map_gives] at gives
        obtain ⟨elements, inside, rfl⟩ := gives
        obtain ⟨segment, closing, rfl, phrase, same⟩ := arguments_sound inside
        exact ⟨token :: segment ++ [closing], by simp, .list opening phrase same⟩
      split at gives
      · next name =>
        rw [behind_gives] at gives
        exact afterName_sound gives name (literal?_none none)
      · exact (refuse_gives.mp gives).elim
termination_by (tokens.length, 0)

/-- A name with what is read behind it is an access, an element or a call, and derived as such.
-/
theorem afterName_sound {name : Token} {tokens rest : List Token} {tree : Expr .bare}
    (gives : (afterName name.text tokens).Gives tree rest) (kind : name.kind = .identifier)
    (free : name.text ∉ Phrase.literalWords) :
    Prefix Phrase.Primary (name :: tokens) tree rest := by
  match tokens with
  | [] =>
    rw [afterName, nothing_gives] at gives
    obtain ⟨rfl, rfl⟩ := gives
    exact ⟨[name], rfl, .access kind free⟩
  | token :: others =>
    rw [afterName] at gives
    split at gives
    · next opening =>
      rw [lax_gives, behind_gives, andThen_gives] at gives
      obtain ⟨offset, after, shorter, first, later⟩ := gives
      obtain ⟨⟨_, closed⟩, rfl⟩ := giving_gives.mp later
      obtain ⟨closing, same, rfl⟩ := wordAs_gives.mp closed
      obtain ⟨segment, rfl, phrase⟩ := level_sound first
      exact ⟨name :: token :: segment ++ [closing], by simp,
        .element kind free opening phrase same⟩
    split at gives
    · next opening =>
      rw [lax_gives, behind_gives, map_gives] at gives
      obtain ⟨arguments, inside, rfl⟩ := gives
      obtain ⟨segment, closing, rfl, phrase, same⟩ := arguments_sound inside
      exact ⟨name :: token :: segment ++ [closing], by simp,
        .call kind free opening phrase same⟩
    · rw [nothing_gives] at gives
      obtain ⟨rfl, rfl⟩ := gives
      exact ⟨[name], rfl, .access kind free⟩
termination_by (tokens.length, 0)

/-- What is read as arguments is derived as arguments, up to the closing mark. -/
theorem arguments_sound {closing : String} {tokens rest : List Token} {trees : List (Expr .bare)}
    (gives : (arguments closing tokens).Gives trees rest) :
    ∃ segment mark, tokens = segment ++ mark :: rest ∧ Phrase.Arguments segment trees ∧
      mark.text = closing := by
  match tokens with
  | [] =>
    rw [arguments] at gives
    obtain ⟨segment, mark, same, phrase, closed⟩ := items_sound gives
    exact ⟨segment, mark, same, .some phrase, closed⟩
  | token :: others =>
    rw [arguments] at gives
    split at gives
    · next closed =>
      rw [behind_gives, nothing_gives] at gives
      obtain ⟨rfl, rfl⟩ := gives
      exact ⟨[], token, rfl, .none, closed⟩
    · obtain ⟨segment, mark, same, phrase, closed⟩ := items_sound gives
      exact ⟨segment, mark, same, .some phrase, closed⟩
termination_by (tokens.length, levels.length + 3)

/-- What is read as items is derived as items, up to the closing mark. -/
theorem items_sound {closing : String} {tokens rest : List Token} {trees : List (Expr .bare)}
    (gives : (items closing tokens).Gives trees rest) :
    ∃ segment mark, tokens = segment ++ mark :: rest ∧ Phrase.Items segment trees ∧
      mark.text = closing := by
  rw [items, andThen_gives] at gives
  obtain ⟨first, after, shorter, earlier, later⟩ := gives
  obtain ⟨others, further, rfl⟩ := map_gives.mp later
  obtain ⟨segment, rfl, phrase⟩ := level_sound earlier
  obtain ⟨more, mark, rfl, whole, closed⟩ := moreItems_sound further phrase
  exact ⟨segment ++ more, mark, by simp, whole, closed⟩
termination_by (tokens.length, levels.length + 2)

/-- The items that are read behind a first one extend its derivation, up to the closing mark. -/
theorem moreItems_sound {closing : String} {read tokens rest : List Token} {first : Expr .bare}
    {trees : List (Expr .bare)} (gives : (moreItems closing tokens).Gives trees rest)
    (before : Phrase.Level levels read first) :
    ∃ segment mark, tokens = segment ++ mark :: rest ∧
      Phrase.Items (read ++ segment) (first :: trees) ∧ mark.text = closing := by
  match tokens with
  | [] =>
    rw [moreItems, refuse_gives] at gives
    exact gives.elim
  | token :: others =>
    rw [moreItems] at gives
    split at gives
    · next closed =>
      rw [behind_gives, nothing_gives] at gives
      obtain ⟨rfl, rfl⟩ := gives
      exact ⟨[], token, rfl, by simpa using .last before, closed⟩
    split at gives
    · next comma =>
      rw [behind_gives] at gives
      obtain ⟨segment, mark, rfl, phrase, closed⟩ := items_sound gives
      exact ⟨token :: segment, mark, rfl, .more before comma phrase, closed⟩
    · exact (refuse_gives.mp gives).elim
termination_by (tokens.length, 0)

end

/-- The expression rule reads an expression. -/
theorem expression_sound {tree : Expr .bare} (gives : (expression tokens).Gives tree rest) :
    Prefix Phrase.Expression tokens tree rest :=
  level_sound gives

/-- The type rule reads the name of a type. -/
theorem typeName_sound {tokens rest : List Token} {name : String}
    (gives : (typeName tokens).Gives name rest) : Prefix Phrase.TypeName tokens name rest := by
  rw [typeName, andThen_gives] at gives
  obtain ⟨_, after, shorter, first, later⟩ := gives
  obtain ⟨word, kind, rfl, whole⟩ := identifier_gives.mp first
  cases after with
  | nil =>
    obtain ⟨rfl, rfl⟩ := nothing_gives.mp later
    exact ⟨[word], whole, .plain kind⟩
  | cons token inner =>
    simp only at later
    split at later
    · next opening =>
      rw [lax_gives, behind_gives, andThen_gives] at later
      obtain ⟨argument, after, _, inside, last⟩ := later
      obtain ⟨⟨_, closed⟩, rfl⟩ := giving_gives.mp last
      obtain ⟨closing, same, rfl⟩ := word_gives.mp closed
      obtain ⟨segment, rfl, phrase⟩ := typeName_sound inside
      exact ⟨word :: token :: segment ++ [closing], by simp [whole],
        .applied kind opening phrase same⟩
    · obtain ⟨rfl, rfl⟩ := nothing_gives.mp later
      exact ⟨[word], whole, .plain kind⟩
termination_by tokens.length
decreasing_by
  simp only [whole, List.length_cons]
  omega

/-- What is read as an optional type is derived as one. -/
theorem optionalType_sound {type : Option String}
    (gives : (optionalType tokens).Gives type rest) :
    Prefix Phrase.OptionalType tokens type rest :=
  optional_sound typeName_sound gives

/-- What is read as an optional value is derived as one. -/
theorem optionalValue_sound {value : Option (Expr .bare)}
    (gives : (optional "=" expression tokens).Gives value rest) :
    Prefix (Phrase.Optional "=" Phrase.Expression) tokens value rest :=
  optional_sound expression_sound gives

/-- What is read behind LET is derived as a declaration. -/
theorem declaration_sound {start : Token} {tree : Stmt .bare} (word : start.text = "LET")
    (gives : (declaration tokens).Gives tree rest) :
    Prefix Phrase.Statement (start :: tokens) tree rest := by
  simp only [declaration, andThen_gives, giving_gives, word_gives, identifier_gives] at gives
  obtain ⟨_, _, _, ⟨name, kind, rfl, rfl⟩, typeName, _, _, type, value, _, _, given,
    ⟨_, stop, closed, rfl⟩, rfl⟩ := gives
  obtain ⟨typed, rfl, typePhrase⟩ := optionalType_sound type
  obtain ⟨valued, rfl, valuePhrase⟩ := optionalValue_sound given
  exact ⟨start :: name :: typed ++ valued ++ [stop], by simp,
    .declaration word kind typePhrase valuePhrase closed⟩

/-- What is read behind RETURN is derived as a return. -/
theorem returning_sound {start : Token} {tree : Stmt .bare} (word : start.text = "RETURN")
    (gives : (returning tokens).Gives tree rest) :
    Prefix Phrase.Statement (start :: tokens) tree rest := by
  simp only [returning, andThen_gives, giving_gives, word_gives] at gives
  obtain ⟨value, _, _, given, ⟨_, stop, closed, rfl⟩, rfl⟩ := gives
  obtain ⟨segment, rfl, phrase⟩ := expression_sound given
  exact ⟨start :: segment ++ [stop], by simp, .returning word phrase closed⟩

/-- What starts with none of the words still does when only its front is looked at. -/
theorem Phrase.Clear.front {words : List String} {segment : List Token}
    (clear : Phrase.Clear words (segment ++ rest)) : Phrase.Clear words segment := by
  cases segment with
  | nil => simp [Phrase.Clear]
  | cons token others => exact clear

/-- Without one of the words that begin a statement, what is read is derived as an expression or
an assignment. -/
theorem simple_sound {tree : Stmt .bare} (clear : Phrase.Clear Phrase.statementWords tokens)
    (gives : (simple tokens).Gives tree rest) : Prefix Phrase.Statement tokens tree rest := by
  rw [simple, andThen_gives] at gives
  obtain ⟨target, after, _, first, later⟩ := gives
  obtain ⟨segment, rfl, phrase⟩ := expression_sound first
  have front := clear.front
  split at later
  · next place =>
    simp only [andThen_gives, giving_gives, word_gives] at later
    obtain ⟨value, _, _, given, ⟨_, stop, closed, rfl⟩, rfl⟩ := later
    obtain ⟨valued, rfl, valuePhrase⟩ := optionalValue_sound given
    cases valuePhrase with
    | absent => exact ⟨segment ++ [stop], by simp, .expression phrase front closed⟩
    | present equals inside =>
      exact ⟨segment ++ _ :: _ ++ [stop], by simp,
        .assignment phrase front place equals inside closed⟩
  · obtain ⟨⟨_, read⟩, rfl⟩ := giving_gives.mp later
    obtain ⟨stop, closed, rfl⟩ := word_gives.mp read
    exact ⟨segment ++ [stop], by simp, .expression phrase front closed⟩

mutual

/-- What is read as a statement is derived as one. -/
theorem statement_sound {tokens rest : List Token} {tree : Stmt .bare}
    (gives : (statement tokens).Gives tree rest) : Prefix Phrase.Statement tokens tree rest := by
  match tokens with
  | [] =>
    rw [statement] at gives
    exact simple_sound (by simp [Phrase.Clear]) gives
  | token :: others =>
    rw [statement] at gives
    split at gives
    · next word => exact declaration_sound word (behind_gives.mp gives)
    split at gives
    · next word => exact switch_sound word (behind_gives.mp gives)
    split at gives
    · next word => exact conditional_sound word (behind_gives.mp gives)
    split at gives
    · next word => exact loop_sound word (behind_gives.mp gives)
    split at gives
    · next word => exact returning_sound word (behind_gives.mp gives)
    · refine simple_sound ?_ gives
      simp [Phrase.Clear, Phrase.statementWords, *]
termination_by (tokens.length, 1)

/-- What is read as a block is derived as one. -/
theorem block_sound {tokens rest : List Token} {trees : List (Stmt .bare)}
    (gives : (block tokens).Gives trees rest) : Prefix Phrase.Block tokens trees rest := by
  match tokens with
  | [] =>
    rw [block] at gives
    obtain ⟨rfl, rfl⟩ := nothing_gives.mp gives
    exact ⟨[], rfl, .empty⟩
  | token :: others =>
    rw [block] at gives
    split at gives
    · obtain ⟨rfl, rfl⟩ := nothing_gives.mp gives
      exact ⟨[], rfl, .empty⟩
    · next goesOn =>
      rw [lax_gives, andThen_gives] at gives
      obtain ⟨first, after, _, earlier, later⟩ := gives
      obtain ⟨statements, further, rfl⟩ := map_gives.mp later
      obtain ⟨segment, same, phrase⟩ := statement_sound earlier
      obtain ⟨more, rfl, whole⟩ := block_sound further
      have clear : Phrase.Clear blockEnds (segment ++ (more ++ rest)) := by
        rw [← same]
        simpa [Phrase.Clear] using goesOn
      exact ⟨segment ++ more, by simp [same], .cons phrase clear.front whole⟩
termination_by (tokens.length, 2)

/-- What is read behind IF is derived as a conditional, with or without its other branch. -/
theorem conditional_sound {start : Token} {tokens rest : List Token} {tree : Stmt .bare}
    (word : start.text = "IF") (gives : (conditional tokens).Gives tree rest) :
    Prefix Phrase.Statement (start :: tokens) tree rest := by
  simp only [conditional, andThen_gives, giving_gives, word_gives] at gives
  obtain ⟨condition, _, _, first, _, _, _, ⟨begin, begins, rfl⟩, thenBlock, _, _, inside,
    elseBlock, _, _, other, ⟨_, stop, closed, rfl⟩, rfl⟩ := gives
  obtain ⟨segment, rfl, phrase⟩ := expression_sound first
  obtain ⟨body, rfl, thenPhrase⟩ := block_sound inside
  rcases otherwise_sound other with ⟨rfl, rfl⟩ | ⟨middle, divides, more, rfl, elsePhrase⟩
  · exact ⟨start :: segment ++ begin :: body ++ [stop], by simp,
      .conditional word phrase begins thenPhrase closed⟩
  · exact ⟨start :: segment ++ begin :: body ++ middle :: more ++ [stop], by simp,
      .alternative word phrase begins thenPhrase divides elsePhrase closed⟩
termination_by (tokens.length, 0)

/-- The second block is there with its word, or nothing is read. -/
theorem otherwise_sound {tokens rest : List Token} {trees : List (Stmt .bare)}
    (gives : (otherwise tokens).Gives trees rest) :
    (trees = [] ∧ tokens = rest) ∨
      ∃ middle, middle.text = "ELSE" ∧
        ∃ segment, tokens = middle :: segment ++ rest ∧ Phrase.Block segment trees := by
  match tokens with
  | [] =>
    rw [otherwise] at gives
    obtain ⟨rfl, rfl⟩ := nothing_gives.mp gives
    exact .inl ⟨rfl, rfl⟩
  | token :: others =>
    rw [otherwise] at gives
    split at gives
    · next word =>
      rw [lax_gives, behind_gives] at gives
      obtain ⟨segment, rfl, phrase⟩ := block_sound gives
      exact .inr ⟨token, word, segment, rfl, phrase⟩
    · obtain ⟨rfl, rfl⟩ := nothing_gives.mp gives
      exact .inl ⟨rfl, rfl⟩
termination_by (tokens.length, 0)

/-- What is read behind WHILE is derived as a loop. -/
theorem loop_sound {start : Token} {tokens rest : List Token} {tree : Stmt .bare}
    (word : start.text = "WHILE") (gives : (loop tokens).Gives tree rest) :
    Prefix Phrase.Statement (start :: tokens) tree rest := by
  simp only [loop, andThen_gives, giving_gives, word_gives] at gives
  obtain ⟨condition, _, _, first, _, _, _, ⟨begin, begins, rfl⟩, body, _, _, inside,
    ⟨_, stop, closed, rfl⟩, rfl⟩ := gives
  obtain ⟨segment, rfl, phrase⟩ := expression_sound first
  obtain ⟨body, rfl, bodyPhrase⟩ := block_sound inside
  exact ⟨start :: segment ++ begin :: body ++ [stop], by simp,
    .loop word phrase begins bodyPhrase closed⟩
termination_by (tokens.length, 0)

/-- What is read behind SWITCH is derived as a switch. -/
theorem switch_sound {start : Token} {tokens rest : List Token} {tree : Stmt .bare}
    (word : start.text = "SWITCH") (gives : (switch tokens).Gives tree rest) :
    Prefix Phrase.Statement (start :: tokens) tree rest := by
  simp only [switch, andThen_gives, giving_gives, word_gives] at gives
  obtain ⟨subject, _, _, first, trees, _, _, inside, ⟨_, stop, closed, rfl⟩, rfl⟩ := gives
  obtain ⟨segment, rfl, phrase⟩ := expression_sound first
  obtain ⟨more, rfl, casesPhrase⟩ := cases_sound inside
  exact ⟨start :: segment ++ more ++ [stop], by simp, .switch word phrase casesPhrase closed⟩
termination_by (tokens.length, 0)

/-- What is read as the cases of a switch is derived as cases. -/
theorem cases_sound {tokens rest : List Token} {trees : List (Case .bare)}
    (gives : (cases tokens).Gives trees rest) : Prefix Phrase.Cases tokens trees rest := by
  match tokens with
  | [] =>
    rw [cases] at gives
    simp [startsWith] at gives
  | token :: others =>
    rw [cases] at gives
    split at gives
    · next word =>
      simp only [startsWith, decide_eq_true_eq] at word
      rw [andThen_gives] at gives
      obtain ⟨first, after, _, earlier, later⟩ := gives
      obtain ⟨further, inside, rfl⟩ := map_gives.mp later
      rw [case, if_pos word, behind_gives] at earlier
      obtain ⟨label, colon, body, trees, read, same, rfl, phrase, colons, bodyPhrase⟩ :=
        labelled_sound earlier
      obtain ⟨more, rfl, whole⟩ := cases_sound inside
      exact ⟨token :: read ++ colon :: body ++ more, by simp [same],
        .labelled word phrase colons bodyPhrase whole⟩
    split at gives
    · next word =>
      simp only [startsWith, decide_eq_true_eq] at word
      obtain ⟨only, inside, rfl⟩ := map_gives.mp gives
      have other : ¬ token.text = "CASE" := by simp [word]
      rw [case, if_neg other, if_pos word, behind_gives] at inside
      exact unlabelled_sound word inside
    · exact (refuse_gives.mp gives).elim
termination_by (tokens.length, 1)

/-- What is read behind CASE is a label, a colon and a block, each of them derived. -/
theorem labelled_sound {tokens rest : List Token} {tree : Case .bare}
    (gives : (labelled tokens).Gives tree rest) :
    ∃ label colon body trees read, tokens = read ++ colon :: body ++ rest ∧
      tree = .mk (some label) trees ∧ Phrase.Expression read label ∧ colon.text = ":" ∧
      Phrase.Block body trees := by
  simp only [labelled, andThen_gives, map_gives, word_gives] at gives
  obtain ⟨label, _, _, first, _, _, _, ⟨colon, colons, rfl⟩, trees, inside, rfl⟩ := gives
  obtain ⟨read, rfl, phrase⟩ := expression_sound first
  obtain ⟨body, rfl, bodyPhrase⟩ := block_sound inside
  exact ⟨label, colon, body, trees, read, by simp, rfl, phrase, colons, bodyPhrase⟩
termination_by (tokens.length, 0)

/-- What is read behind DEFAULT is derived as the last of the cases. -/
theorem unlabelled_sound {start : Token} {tokens rest : List Token} {tree : Case .bare}
    (word : start.text = "DEFAULT") (gives : (unlabelled tokens).Gives tree rest) :
    Prefix Phrase.Cases (start :: tokens) [tree] rest := by
  simp only [unlabelled, andThen_gives, map_gives] at gives
  obtain ⟨_, _, _, first, trees, inside, rfl⟩ := gives
  rcases optional_gives.mp first with ⟨colon, _, _, colons, whole, read, _⟩ | ⟨_, _, same⟩
  · obtain ⟨rfl, rfl⟩ := nothing_gives.mp read
    have : tokens.length = _ + 1 := congrArg List.length whole
    obtain ⟨segment, rfl, phrase⟩ := block_sound inside
    exact ⟨start :: colon :: segment, by simp [whole], .default word colons phrase⟩
  · rw [same] at inside
    obtain ⟨segment, rfl, phrase⟩ := block_sound inside
    exact ⟨start :: segment, by simp, .bareDefault word phrase⟩
termination_by (tokens.length, 3)

end

/-- The tokens in front of the rest make up the definition, once a semicolon is behind them. -/
def Unclosed (start : Token) (tokens : List Token) (definition : GlobalDef .bare)
    (rest : List Token) : Prop :=
  ∃ segment, tokens = segment ++ rest ∧ ∀ {stop : Token}, stop.text = ";" →
    Phrase.Global (start :: segment ++ [stop]) definition

/-- What is read behind LIST is derived as a global list that lacks its semicolon. -/
theorem listGlobal_sound {start : Token} {tree : GlobalDef .bare} (word : start.text = "LIST")
    (gives : (listGlobal tokens).Gives tree rest) : Unclosed start tokens tree rest := by
  simp only [listGlobal, andThen_gives, word_gives, identifier_gives] at gives
  obtain ⟨_, _, _, ⟨name, kind, rfl, rfl⟩, element, _, _, type, _, _, _, ⟨equals, assigns, rfl⟩,
    _, _, _, ⟨opening, opens, rfl⟩, inside⟩ := gives
  split at inside
  · exact (refuse_gives.mp inside).elim
  obtain ⟨elements, listed, rfl⟩ := map_gives.mp inside
  obtain ⟨typed, rfl, typePhrase⟩ := optionalType_sound type
  obtain ⟨segment, closing, rfl, phrase, closes⟩ := items_sound listed
  refine ⟨name :: typed ++ equals :: opening :: segment ++ [closing], by simp, ?_⟩
  intro stop closed
  simpa using Phrase.Global.list word kind typePhrase assigns opens phrase closes closed

/-- What is read behind VAR is derived as a global variable that lacks its semicolon. -/
theorem mutableGlobal_sound {start : Token} {tree : GlobalDef .bare} (word : start.text = "VAR")
    (gives : (mutableGlobal tokens).Gives tree rest) : Unclosed start tokens tree rest := by
  simp only [mutableGlobal, andThen_gives, identifier_gives, map_gives] at gives
  obtain ⟨_, _, _, ⟨name, kind, rfl, rfl⟩, typeName, _, _, type, value, given, rfl⟩ := gives
  obtain ⟨typed, rfl, typePhrase⟩ := optionalType_sound type
  obtain ⟨valued, rfl, valuePhrase⟩ := optionalValue_sound given
  refine ⟨name :: typed ++ valued, by simp, ?_⟩
  intro stop closed
  exact .mutable word kind typePhrase valuePhrase closed

/-- What is read behind VAL is derived as a global constant that lacks its semicolon. -/
theorem immutableGlobal_sound {start : Token} {tree : GlobalDef .bare} (word : start.text = "VAL")
    (gives : (immutableGlobal tokens).Gives tree rest) : Unclosed start tokens tree rest := by
  simp only [immutableGlobal, andThen_gives, wordAs_gives, identifier_gives, map_gives] at gives
  obtain ⟨_, _, _, ⟨name, kind, rfl, rfl⟩, typeName, _, _, type, _, _, _, ⟨equals, assigns, rfl⟩,
    value, given, rfl⟩ := gives
  obtain ⟨typed, rfl, typePhrase⟩ := optionalType_sound type
  obtain ⟨segment, rfl, phrase⟩ := expression_sound given
  refine ⟨name :: typed ++ equals :: segment, by simp, ?_⟩
  intro stop closed
  exact .immutable word kind typePhrase assigns phrase closed

/-- The three sorts of globals have their semicolon in common. -/
theorem globalDef_sound {tree : GlobalDef .bare} (gives : (globalDef tokens).Gives tree rest) :
    Prefix Phrase.Global tokens tree rest := by
  match tokens with
  | [] => exact (refuse_gives.mp gives).elim
  | token :: others =>
    have closes {reading : Reading true (GlobalDef .bare) others}
        (sound : ∀ {after definition}, reading.Gives definition after →
          Unclosed token others definition after)
        (closed : ((reading.andThen fun definition after _ =>
          (word ";" after).giving definition).behind token).Gives tree rest) :
        Prefix Phrase.Global (token :: others) tree rest := by
      simp only [behind_gives, andThen_gives, giving_gives, word_gives] at closed
      obtain ⟨_, _, _, given, ⟨_, stop, closed, rfl⟩, rfl⟩ := closed
      obtain ⟨segment, rfl, phrase⟩ := sound given
      exact ⟨token :: segment ++ [stop], by simp, phrase closed⟩
    simp only [globalDef] at gives
    split at gives
    · next word => exact closes (listGlobal_sound word) gives
    split at gives
    · next word => exact closes (mutableGlobal_sound word) gives
    split at gives
    · next word => exact closes (immutableGlobal_sound word) gives
    · exact (refuse_gives.mp gives).elim

/-- What is read as a parameter is derived as one. -/
theorem parameter_sound {tree : String × Option String}
    (gives : (parameter tokens).Gives tree rest) : Prefix Phrase.Parameter tokens tree rest := by
  simp only [parameter, andThen_gives, map_gives, identifier_gives] at gives
  obtain ⟨_, _, _, ⟨name, kind, rfl, rfl⟩, typeName, type, rfl⟩ := gives
  obtain ⟨typed, rfl, phrase⟩ := optionalType_sound type
  exact ⟨name :: typed, by simp, .mk kind phrase⟩

mutual

/-- What is read as parameters is derived as parameters, up to the closing parenthesis. -/
theorem parameters_sound {tokens rest : List Token} {trees : List (String × Option String)}
    (gives : (parameters tokens).Gives trees rest) :
    ∃ segment mark, tokens = segment ++ mark :: rest ∧ Phrase.Parameters segment trees ∧
      mark.text = ")" := by
  rw [parameters, andThen_gives] at gives
  obtain ⟨first, after, shorter, earlier, later⟩ := gives
  obtain ⟨others, further, rfl⟩ := map_gives.mp later
  obtain ⟨segment, rfl, phrase⟩ := parameter_sound earlier
  obtain ⟨more, mark, rfl, whole, closed⟩ := moreParameters_sound further phrase
  exact ⟨segment ++ more, mark, by simp, whole, closed⟩
termination_by (tokens.length, 1)

/-- The parameters that are read behind a first one extend its derivation, up to the closing
parenthesis. -/
theorem moreParameters_sound {read tokens rest : List Token} {first : String × Option String}
    {trees : List (String × Option String)} (gives : (moreParameters tokens).Gives trees rest)
    (before : Phrase.Parameter read first) :
    ∃ segment mark, tokens = segment ++ mark :: rest ∧
      Phrase.Parameters (read ++ segment) (first :: trees) ∧ mark.text = ")" := by
  match tokens with
  | [] =>
    rw [moreParameters, refuse_gives] at gives
    exact gives.elim
  | token :: others =>
    rw [moreParameters] at gives
    split at gives
    · next closed =>
      rw [behind_gives, nothing_gives] at gives
      obtain ⟨rfl, rfl⟩ := gives
      exact ⟨[], token, rfl, by simpa using .last before, closed⟩
    split at gives
    · next comma =>
      rw [behind_gives] at gives
      obtain ⟨segment, mark, rfl, phrase, closed⟩ := parameters_sound gives
      exact ⟨token :: segment, mark, rfl, .more before comma phrase, closed⟩
    · exact (refuse_gives.mp gives).elim
termination_by (tokens.length, 0)

end

/-- What is read as a parameter list is derived as one, up to the closing parenthesis. -/
theorem parameterList_sound {trees : List (String × Option String)}
    (gives : (parameterList tokens).Gives trees rest) :
    ∃ segment mark, tokens = segment ++ mark :: rest ∧ Phrase.ParameterList segment trees ∧
      mark.text = ")" := by
  match tokens with
  | [] =>
    obtain ⟨segment, mark, same, phrase, closed⟩ := parameters_sound gives
    exact ⟨segment, mark, same, .some phrase, closed⟩
  | token :: others =>
    rw [parameterList] at gives
    split at gives
    · next closed =>
      rw [behind_gives, nothing_gives] at gives
      obtain ⟨rfl, rfl⟩ := gives
      exact ⟨[], token, rfl, .none, closed⟩
    · obtain ⟨segment, mark, same, phrase, closed⟩ := parameters_sound gives
      exact ⟨segment, mark, same, .some phrase, closed⟩

/-- What is read as a function is derived as one. -/
theorem functionDef_sound {tree : FunctionDef .bare}
    (gives : (functionDef tokens).Gives tree rest) :
    Prefix Phrase.Function tokens tree rest := by
  simp only [functionDef, andThen_gives, giving_gives, word_gives, identifier_gives] at gives
  obtain ⟨_, _, _, ⟨start, starts, rfl⟩, _, _, _, ⟨name, kind, rfl, rfl⟩, _, _, _,
    ⟨opening, opens, rfl⟩, parameters, _, _, listed, result, _, _, type, _, _, _,
    ⟨begin, begins, rfl⟩, body, _, _, inside, ⟨_, stop, closed, rfl⟩, rfl⟩ := gives
  obtain ⟨segment, closing, rfl, parameterPhrase, closes⟩ := parameterList_sound listed
  obtain ⟨typed, rfl, typePhrase⟩ := optionalType_sound type
  obtain ⟨statements, rfl, blockPhrase⟩ := block_sound inside
  exact ⟨start :: name :: opening :: segment ++ closing :: typed ++ begin :: statements ++ [stop],
    by simp,
    .mk starts kind opens parameterPhrase closes typePhrase begins blockPhrase closed⟩

/-- What is read as the globals of a program is derived as a sequence of them. -/
theorem globals_sound {tokens rest : List Token} {trees : List (GlobalDef .bare)}
    (gives : (globals tokens).Gives trees rest) :
    Prefix (Phrase.Sequence Phrase.Global) tokens trees rest := by
  match tokens with
  | [] =>
    rw [globals] at gives
    obtain ⟨rfl, rfl⟩ := nothing_gives.mp gives
    exact ⟨[], rfl, .empty⟩
  | token :: others =>
    rw [globals] at gives
    split at gives
    · rw [lax_gives, andThen_gives] at gives
      obtain ⟨first, after, shorter, earlier, later⟩ := gives
      obtain ⟨further, inside, rfl⟩ := map_gives.mp later
      obtain ⟨segment, same, phrase⟩ := globalDef_sound earlier
      obtain ⟨more, rfl, whole⟩ := globals_sound inside
      exact ⟨segment ++ more, by simp [same], .cons phrase whole⟩
    · obtain ⟨rfl, rfl⟩ := nothing_gives.mp gives
      exact ⟨[], rfl, .empty⟩
termination_by tokens.length
decreasing_by exact Left.lt ‹_›

/-- What is read as the functions of a program is derived as a sequence of them. -/
theorem functions_sound {tokens rest : List Token} {trees : List (FunctionDef .bare)}
    (gives : (functions tokens).Gives trees rest) :
    Prefix (Phrase.Sequence Phrase.Function) tokens trees rest := by
  match tokens with
  | [] =>
    rw [functions] at gives
    obtain ⟨rfl, rfl⟩ := nothing_gives.mp gives
    exact ⟨[], rfl, .empty⟩
  | token :: others =>
    rw [functions] at gives
    split at gives
    · rw [lax_gives, andThen_gives] at gives
      obtain ⟨first, after, shorter, earlier, later⟩ := gives
      obtain ⟨further, inside, rfl⟩ := map_gives.mp later
      obtain ⟨segment, same, phrase⟩ := functionDef_sound earlier
      obtain ⟨more, rfl, whole⟩ := functions_sound inside
      exact ⟨segment ++ more, by simp [same], .cons phrase whole⟩
    · obtain ⟨rfl, rfl⟩ := nothing_gives.mp gives
      exact ⟨[], rfl, .empty⟩
termination_by tokens.length
decreasing_by exact Left.lt ‹_›

/-- A program that has been read is all there is. -/
theorem program_sound {tree : Program .bare} (gives : (program tokens).Gives tree rest) :
    rest = [] ∧ Phrase.Program tokens tree := by
  simp only [program, andThen_gives, giving_gives] at gives
  obtain ⟨globals, _, _, front, functions, last, _, back, ⟨_, ends⟩, rfl⟩ := gives
  obtain ⟨first, rfl, globalPhrases⟩ := globals_sound front
  obtain ⟨second, rfl, functionPhrases⟩ := functions_sound back
  cases last with
  | nil =>
    obtain ⟨_, rfl⟩ := nothing_gives.mp ends
    exact ⟨rfl, by simpa using .mk globalPhrases functionPhrases⟩
  | cons token others => exact (refuse_gives.mp ends).elim

end Blockscript.Grammar
