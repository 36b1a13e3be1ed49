import Blockscript.Proofs.Grammar.Exactness
import Blockscript.Proofs.Token.Spacing

/-!
# Trees do not depend on places

No production looks at where its tokens stand. Tokens that are moved to other places
therefore derive what they derived, and two texts with the same words are read as the same
tree, if as any. Which blank characters separate the words of a program does not matter to
it, and neither does how its lines end.
-/

namespace Blockscript

/-- The token at the place that is given for it. -/
def Token.moved (places : Token → Nat) (token : Token) : Token :=
  { token with offset := places token }

/-- A token that is moved keeps its text. -/
@[simp]
theorem Token.moved_text (places : Token → Nat) (token : Token) :
    (token.moved places).text = token.text :=
  rfl

namespace Grammar.Phrase

variable (places : Token → Nat) {tokens : List Token}

/-! ## Derivations of moved tokens -/

/-- Tokens that are moved begin with the same words. -/
theorem Clear.moved {words : List String} (clear : Clear words tokens) :
    Clear words (tokens.map (Token.moved places)) := by
  cases tokens with
  | nil => simp [Clear]
  | cons first rest => simpa [Clear] using clear

/-- An optional part is derived wherever its tokens stand. -/
theorem Optional.moved {α : Type} {word : String} {phrase : List Token → α → Prop}
    {value : Option α}
    (inside : ∀ {tokens : List Token} {value : α}, phrase tokens value →
      phrase (tokens.map (Token.moved places)) value)
    (derived : Optional word phrase tokens value) :
    Optional word phrase (tokens.map (Token.moved places)) value := by
  cases derived with
  | absent => exact .absent
  | present mark inner => exact .present mark (inside inner)

/-- A type name is derived wherever its tokens stand. -/
theorem TypeName.moved {name : String} (derived : TypeName tokens name) :
    TypeName (tokens.map (Token.moved places)) name := by
  induction derived with
  | plain kind => exact .plain kind
  | applied kind opening _ closing inductionHypothesis =>
    simp only [List.map_append, List.map_cons, List.map_nil]
    exact .applied kind opening inductionHypothesis closing

mutual

/-- A level of operators is derived wherever its tokens stand. -/
theorem Level.moved {operators : List (List String)} {tokens : List Token} {tree : Expr .bare} :
    Level operators tokens tree → Level operators (tokens.map (Token.moved places)) tree
  | .primary derived => .primary derived.moved
  | .operand derived => .operand derived.moved
  | .binary left operator right => by
    simp only [List.map_append, List.map_cons]
    exact .binary left.moved operator right.moved

/-- An operand is derived wherever its tokens stand. -/
theorem Primary.moved {tokens : List Token} {tree : Expr .bare} :
    Primary tokens tree → Primary (tokens.map (Token.moved places)) tree
  | .nil word => .nil word
  | .true word => .true word
  | .false word => .false word
  | .integer kind denotes => .integer kind denotes
  | .decimal kind reads => .decimal kind reads
  | .character kind => .character kind
  | .string kind => .string kind
  | .group opening inner closing => by
    simp only [List.map_append, List.map_cons, List.map_nil]
    exact .group opening inner.moved closing
  | .list opening inner closing => by
    simp only [List.map_append, List.map_cons, List.map_nil]
    exact .list opening inner.moved closing
  | .access kind free => .access kind free
  | .element kind free opening inner closing => by
    simp only [List.map_append, List.map_cons, List.map_nil]
    exact .element kind free opening inner.moved closing
  | .call kind free opening inner closing => by
    simp only [List.map_append, List.map_cons, List.map_nil]
    exact .call kind free opening inner.moved closing

/-- Items are derived wherever their tokens stand. -/
theorem Items.moved {tokens : List Token} {trees : List (Expr .bare)} :
    Items tokens trees → Items (tokens.map (Token.moved places)) trees
  | .last derived => .last derived.moved
  | .more first comma others => by
    simp only [List.map_append, List.map_cons]
    exact .more first.moved comma others.moved

/-- Arguments are derived wherever their tokens stand. -/
theorem Arguments.moved {tokens : List Token} {trees : List (Expr .bare)} :
    Arguments tokens trees → Arguments (tokens.map (Token.moved places)) trees
  | .none => .none
  | .some derived => .some derived.moved

end

/-- An optional type is derived wherever its tokens stand. -/
theorem Optional.moved_type {type : Option String} (derived : OptionalType tokens type) :
    OptionalType (tokens.map (Token.moved places)) type :=
  derived.moved places (TypeName.moved places)

/-- An optional value is derived wherever its tokens stand. -/
theorem Optional.moved_value {value : Option (Expr .bare)}
    (derived : Optional "=" Expression tokens value) :
    Optional "=" Expression (tokens.map (Token.moved places)) value :=
  derived.moved places (Level.moved places)

mutual

/-- A statement is derived wherever its tokens stand. -/
theorem Statement.moved {tokens : List Token} {tree : Stmt .bare} :
    Statement tokens tree → Statement (tokens.map (Token.moved places)) tree
  | .declaration start kind type value stop => by
    simp only [List.map_append, List.map_cons, List.map_nil]
    exact .declaration start kind (type.moved_type places) (value.moved_value places) stop
  | .switch start subject inside stop => by
    simp only [List.map_append, List.map_cons, List.map_nil]
    exact .switch start (subject.moved places) inside.moved stop
  | .conditional start condition begin body stop => by
    simp only [List.map_append, List.map_cons, List.map_nil]
    exact .conditional start (condition.moved places) begin body.moved stop
  | .alternative start condition begin body middle other stop => by
    simp only [List.map_append, List.map_cons, List.map_nil]
    exact .alternative start (condition.moved places) begin body.moved middle other.moved stop
  | .loop start condition begin body stop => by
    simp only [List.map_append, List.map_cons, List.map_nil]
    exact .loop start (condition.moved places) begin body.moved stop
  | .returning start value stop => by
    simp only [List.map_append, List.map_cons, List.map_nil]
    exact .returning start (value.moved places) stop
  | .expression value clear stop => by
    simp only [List.map_append, List.map_cons, List.map_nil]
    exact .expression (value.moved places) (clear.moved places) stop
  | .assignment receiver clear place equals value stop => by
    simp only [List.map_append, List.map_cons, List.map_nil]
    exact .assignment (receiver.moved places) (clear.moved places) place equals (value.moved places)
      stop

/-- A block is derived wherever its tokens stand. -/
theorem Block.moved {tokens : List Token} {trees : List (Stmt .bare)} :
    Block tokens trees → Block (tokens.map (Token.moved places)) trees
  | .empty => .empty
  | .cons first clear others => by
    rw [List.map_append]
    exact .cons first.moved (clear.moved places) others.moved

/-- Cases are derived wherever their tokens stand. -/
theorem Cases.moved {tokens : List Token} {trees : List (Case .bare)} :
    Cases tokens trees → Cases (tokens.map (Token.moved places)) trees
  | .labelled start label colon inside others => by
    simp only [List.map_append, List.map_cons]
    exact .labelled start (label.moved places) colon inside.moved others.moved
  | .default start colon inside =>
    .default start colon inside.moved
  | .bareDefault start inside => .bareDefault start inside.moved

end

/-- A global is derived wherever its tokens stand. -/
theorem Global.moved {tree : GlobalDef .bare} (derived : Global tokens tree) :
    Global (tokens.map (Token.moved places)) tree := by
  cases derived with
  | list start kind type equals opening inside closing stop =>
    simp only [List.map_append, List.map_cons, List.map_nil]
    exact .list start kind (type.moved_type places) equals opening (inside.moved places) closing
      stop
  | mutable start kind type value stop =>
    simp only [List.map_append, List.map_cons, List.map_nil]
    exact .mutable start kind (type.moved_type places) (value.moved_value places) stop
  | immutable start kind type equals value stop =>
    simp only [List.map_append, List.map_cons, List.map_nil]
    exact .immutable start kind (type.moved_type places) equals (value.moved places) stop

/-- A parameter is derived wherever its tokens stand. -/
theorem Parameter.moved {tree : String × Option String} (derived : Parameter tokens tree) :
    Parameter (tokens.map (Token.moved places)) tree := by
  cases derived with
  | mk kind type => exact .mk kind (type.moved_type places)

/-- Parameters are derived wherever their tokens stand. -/
theorem Parameters.moved {trees : List (String × Option String)}
    (derived : Parameters tokens trees) :
    Parameters (tokens.map (Token.moved places)) trees := by
  induction derived with
  | last derived => exact .last (derived.moved places)
  | more first comma _ inductionHypothesis =>
    simp only [List.map_append, List.map_cons]
    exact .more (first.moved places) comma inductionHypothesis

/-- A parameter list is derived wherever its tokens stand. -/
theorem ParameterList.moved {trees : List (String × Option String)}
    (derived : ParameterList tokens trees) :
    ParameterList (tokens.map (Token.moved places)) trees := by
  cases derived with
  | none => exact .none
  | some derived => exact .some (derived.moved places)

/-- A function is derived wherever its tokens stand. -/
theorem Function.moved {tree : FunctionDef .bare} (derived : Function tokens tree) :
    Function (tokens.map (Token.moved places)) tree := by
  cases derived with
  | mk start kind opening parameters closing type begin body stop =>
    simp only [List.map_append, List.map_cons, List.map_nil]
    exact .mk start kind opening (parameters.moved places) closing (type.moved_type places) begin
      (body.moved places) stop

/-- A sequence of phrases is derived wherever its tokens stand, if each phrase is. -/
theorem Sequence.moved {α : Type} {phrase : List Token → α → Prop} {values : List α}
    (inside : ∀ {tokens : List Token} {value : α}, phrase tokens value →
      phrase (tokens.map (Token.moved places)) value)
    (derived : Sequence phrase tokens values) :
    Sequence phrase (tokens.map (Token.moved places)) values := by
  induction derived with
  | empty => exact .empty
  | cons first _ inductionHypothesis =>
    rw [List.map_append]
    exact .cons (inside first) inductionHypothesis

/-- A program is derived wherever its tokens stand. -/
theorem Program.moved {tree : Blockscript.Program .bare} (derived : Program tokens tree) :
    Program (tokens.map (Token.moved places)) tree := by
  cases derived with
  | mk globals functions =>
    rw [List.map_append]
    exact .mk (globals.moved places (Global.moved places))
      (functions.moved places (Function.moved places))

end Grammar.Phrase

/-! ## Texts with the same words -/

/-- Distinct tokens can be moved to the places of other tokens with the same words. -/
theorem Token.exists_moved {tokens others : List Token} (distinct : tokens.Nodup)
    (same : others.map Token.word = tokens.map Token.word) :
    ∃ places, others = tokens.map (Token.moved places) := by
  induction tokens generalizing others with
  | nil => exact ⟨fun _ => 0, List.map_eq_nil_iff.mp same⟩
  | cons token tokens inductionHypothesis =>
    obtain ⟨other, others, rfl, word, words⟩ := List.map_eq_cons_iff.mp same
    obtain ⟨fresh, distinct⟩ := List.nodup_cons.mp distinct
    obtain ⟨places, rfl⟩ := inductionHypothesis distinct words
    obtain ⟨kind, text⟩ := Prod.mk.inj word
    refine ⟨Function.update places token other.offset, ?_⟩
    rw [List.map_cons]
    congr 1
    · simp [Token.moved, ← kind, ← text]
    · refine List.map_congr_left fun later member => ?_
      have apart : later ≠ token := by
        rintro rfl
        exact fresh member
      simp [Token.moved, apart]

/-- No token of a text occurs twice. -/
theorem Token.ofText_nodup {source : String} {tokens : List Token}
    (lexed : ofText source = .ok tokens) : tokens.Nodup := by
  have cover := (@scan_covers source.toList _ 0 rfl).1 tokens lexed
  refine cover.ordered.imp fun {earlier later} ordered same => ?_
  exact absurd (same ▸ ordered.1) (lt_irrefl _)

/-- An outcome as an option is there when it is a success. -/
theorem toOption_eq_some_iff {ε α : Type} {outcome : Except ε α} {value : α} :
    outcome.toOption = some value ↔ outcome = .ok value := by
  cases outcome <;> simp [Except.toOption]

/-- A text with the words of another one is read as the tree of that one. -/
theorem parseProgram_words {source other : String} {tree : Program .bare}
    (same : Token.words (Token.ofText other) = Token.words (Token.ofText source))
    (parsed : parseProgram source = .ok tree) : parseProgram other = .ok tree := by
  obtain ⟨tokens, lexed, derived, legible⟩ := Grammar.parseProgram_ok_iff.mp parsed
  cases again : Token.ofText other with
  | error fault => simp [Token.words, lexed, again, Except.toOption] at same
  | ok others =>
    have words : others.map Token.word = tokens.map Token.word := by
      simpa [Token.words, lexed, again, Except.toOption] using same
    obtain ⟨places, rfl⟩ := Token.exists_moved (Token.ofText_nodup lexed) words
    refine Grammar.parseProgram_ok_iff.mpr ⟨_, again, derived.moved places, ?_⟩
    exact List.forall_mem_map.mpr legible

/-- Texts with the same words are read as the same tree, or neither is read. -/
theorem parseProgram_toOption {source other : String}
    (same : Token.words (Token.ofText other) = Token.words (Token.ofText source)) :
    (parseProgram other).toOption = (parseProgram source).toOption := by
  refine Option.ext fun tree => ?_
  rw [toOption_eq_some_iff, toOption_eq_some_iff]
  exact ⟨parseProgram_words same.symm, parseProgram_words same⟩

/-- A text with all its line ends as line feeds. -/
def unified (source : String) : String :=
  String.ofList (Text.unifyNewlines source.toList)

/-- Unifying the line ends of a source leaves the words of its tokens. -/
theorem words_unified (source : String) :
    Token.words (Token.ofText (unified source)) = Token.words (Token.ofText source) := by
  rw [Token.ofText, Token.ofText, unified, String.toList_ofList,
    Token.words_scan_unifyNewlines 0 0]

/-- Spacing separates tokens and does nothing else. Members of the classes with blank
characters before, between and behind them are read as these members, each with its class
and where it stands. Unified line ends change neither whether a text is read nor its words,
and a program is the same tree with either line ends. -/
theorem spacing_immaterial :
    (∀ (lead : List Char) (pieces : List Spaced),
      (∀ letter ∈ lead, Text.isBlank letter = true) → Spaced.Apart pieces →
      Token.ofText (String.ofList (lead ++ Spaced.written pieces)) =
        .ok (Spaced.placed lead.length pieces)) ∧
    (∀ source : String,
      Token.words (Token.ofText (unified source)) = Token.words (Token.ofText source)) ∧
    ∀ source : String, (parseProgram (unified source)).toOption = (parseProgram source).toOption :=
  ⟨fun _ _ => Token.ofText_written, words_unified, fun source =>
    parseProgram_toOption (words_unified source)⟩

/-- A string with an escaped quote, a tabulator, a negative decimal, a line end, and a name at
the end of the text. -/
def mixedPieces : List Spaced :=
  [⟨.string, ['"', 'a', '\\', '"', ' ', '"'], ['\t'],
      TokenKind.member_iff_whole.mpr (by decide), by simp; decide⟩,
    ⟨.decimal, ['-', '1', '.', '5'], ['\r', '\n'],
      TokenKind.member_iff_whole.mpr (by decide), by simp; decide⟩,
    ⟨.identifier, ['x'], [], TokenKind.member_iff_whole.mpr (by decide), by simp⟩]

/-- The pieces are read at their places behind two spaces. -/
theorem mixedPieces_read : Spaced.Apart mixedPieces ∧
    Token.ofText (String.ofList ([' ', ' '] ++ Spaced.written mixedPieces)) =
      .ok [⟨.string, String.ofList ['"', 'a', '\\', '"', ' ', '"'], 2⟩,
        ⟨.decimal, String.ofList ['-', '1', '.', '5'], 9⟩,
        ⟨.identifier, String.ofList ['x'], 15⟩] := by
  have apart : Spaced.Apart mixedPieces := by simp [Spaced.Apart, mixedPieces]
  exact ⟨apart, spacing_immaterial.1 [' ', ' '] mixedPieces (by simp; decide) apart⟩

end Blockscript
