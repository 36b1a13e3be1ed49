import Blockscript.Proofs.Grammar.Completeness
import Blockscript.Proofs.Grammar.Locality
import Blockscript.Proofs.Grammar.Soundness
import Blockscript.Proofs.Token.Spacing
import Mathlib

/-!
# Reading is deriving

The two directions together: on the tokens of a program text the grammar's rules
succeed with a tree exactly when all the tokens derive it and are legible. A rule
has one outcome, so legible tokens have one derivation at most, although no
production was written with that in mind. An integer with too many digits derives
like any other, but it is never read.

What the derivations fix about precedence and about the default of a switch is
said separately. Both are plain from single productions, and neither is for
chains and lists of cases of any length.
-/

namespace Blockscript.Grammar

/-- One more operator of a chain and the operand behind it. -/
structure Link where
  operator : Token
  operand : List Token
  tree : Expr .bare

/-- The tokens of a link. -/
def Link.tokens (link : Link) : List Token :=
  link.operator :: link.operand

/-- The tree of a chain that goes on with a link. -/
def Link.attach (left : Expr .bare) (link : Link) : Expr .bare :=
  .binary () link.operator.text left link.tree

/-- A left operand and any number of links, all of one level. -/
def Chained (loosest : List String) (tighter : List (List String)) (segment : List Token)
    (tree : Expr .bare) : Prop :=
  ∃ (front : List Token) (first : Expr .bare) (links : List Link),
    Phrase.Level tighter front first ∧
    (∀ link ∈ links, link.operator.text ∈ loosest ∧ Phrase.Level tighter link.operand link.tree) ∧
    segment = front ++ links.flatMap Link.tokens ∧ tree = links.foldl Link.attach first

/-- Links behind an expression of their level make up an expression of that level
which contains it as its leftmost part. -/
theorem Phrase.Level.attach {loosest : List String} {tighter : List (List String)}
    (links : List Link) {segment : List Token} {tree : Expr .bare}
    (before : Phrase.Level (loosest :: tighter) segment tree)
    (fit : ∀ link ∈ links, link.operator.text ∈ loosest ∧
      Phrase.Level tighter link.operand link.tree) :
    Phrase.Level (loosest :: tighter) (segment ++ links.flatMap Link.tokens)
      (links.foldl Link.attach tree) := by
  induction links generalizing segment tree with
  | nil => simpa using before
  | cons link others inductionHypothesis =>
    obtain ⟨member, operand⟩ := fit link (by simp)
    have longer : Phrase.Level (loosest :: tighter) (segment ++ link.tokens) (link.attach tree) :=
      .binary before member operand
    have whole := inductionHypothesis longer fun other inside => fit other (by simp [inside])
    simpa [List.flatMap_cons] using whole

/-- An expression of a level is a chain of operands of the next level. -/
theorem Phrase.Level.chained {operators : List (List String)} {segment : List Token}
    {tree : Expr .bare} :
    Phrase.Level operators segment tree → ∀ {loosest tighter}, operators = loosest :: tighter →
      Chained loosest tighter segment tree
  | .primary _, _, _, same => by cases same
  | .operand only, _, _, same => by
    cases same
    exact ⟨_, _, [], only, by simp, by simp, rfl⟩
  | @Phrase.Level.binary _ _ _ back operator _ rightTree left member right, _, _, same => by
    cases same
    obtain ⟨front, first, links, head, fit, rfl, rfl⟩ := left.chained rfl
    refine ⟨front, first, links ++ [⟨operator, back, rightTree⟩], head, ?_, ?_, ?_⟩
    · intro link inside
      rcases List.mem_append.mp inside with earlier | last
      · exact fit link earlier
      · rw [List.mem_singleton.mp last]
        exact ⟨member, right⟩
    · simp [Link.tokens]
    · simp [Link.attach]

/-- Operators of one level associate to the left, in chains of any length, and
their operands hold only tighter ones. -/
theorem level_iff_chained {loosest : List String} {tighter : List (List String)}
    {segment : List Token} {tree : Expr .bare} :
    Phrase.Level (loosest :: tighter) segment tree ↔ Chained loosest tighter segment tree := by
  constructor
  · intro phrase
    exact phrase.chained rfl
  · rintro ⟨front, first, links, head, fit, rfl, rfl⟩
    exact Phrase.Level.attach links (.operand head) fit

/-- Any number of labelled cases and one default behind them. -/
def DefaultLast (trees : List (Case .bare)) : Prop :=
  ∃ (labelled : List (Expr .bare × List (Stmt .bare))) (body : List (Stmt .bare)),
    trees = labelled.map (fun (label, body) => .mk (some label) body) ++ [.mk none body]

/-- A switch has one default, behind all its labelled cases. -/
theorem Phrase.Cases.default_last {segment : List Token} {trees : List (Case .bare)} :
    Phrase.Cases segment trees → DefaultLast trees
  | @Phrase.Cases.labelled _ _ _ _ _ tree body _ _ _ _ _ later => by
    obtain ⟨labelled, last, rfl⟩ := later.default_last
    exact ⟨(tree, body) :: labelled, last, rfl⟩
  | .default _ _ _ => ⟨[], _, rfl⟩
  | .bareDefault _ _ => ⟨[], _, rfl⟩

/-- A definition with at least one element, and with the list type over the
element type that stands behind its name. -/
def ElementTyped (others : List Token) (definition : GlobalDef .bare) : Prop :=
  ∃ (name : Token) (type back : List Token) (element : Option String)
    (elements : List (Expr .bare)),
    others = name :: type ++ back ∧ Phrase.OptionalType type element ∧
    definition.typeName = element.map (fun type => "List<" ++ type ++ ">") ∧
    definition.value = some (.list () elements) ∧ elements ≠ []

/-- A list global is typed by its elements and has at least one of them. -/
theorem Phrase.Global.element_typed {start : Token} {others : List Token}
    {definition : GlobalDef .bare} (word : start.text = "LIST")
    (phrase : Phrase.Global (start :: others) definition) : ElementTyped others definition := by
  generalize whole : start :: others = tokens at phrase
  cases phrase with
  | @list _ name _ _ _ _ type inside element elements _ _ typed _ _ items _ _ =>
    cases whole
    have filled : elements ≠ [] := by
      cases items with
      | last _ => simp
      | more _ _ _ => simp
    exact ⟨name, type, _, element, elements, List.append_assoc _ _ _, typed, rfl, rfl, filled⟩
  | mutable other =>
    cases whole
    simp [word] at other
  | immutable other =>
    cases whole
    simp [word] at other

/-- A program that has been read is made of legible tokens, since nothing else is passed. -/
theorem program_legible {tokens rest : List Token} {tree : Program .bare}
    (genuine : ∀ token ∈ tokens, token.Genuine) (gives : (program tokens).Gives tree rest) :
    ∀ token ∈ tokens, token.Legible := by
  obtain ⟨_, front, same, legible, _⟩ := program_traced tokens (.ok tree) rest gives
  obtain ⟨rfl, _⟩ := program_sound gives
  rw [List.append_nil] at same
  subst same
  exact fun token member => legible token member (genuine token member)

/-- The rules give a tree without anything left exactly when the tokens derive it and are
legible. -/
theorem program_gives_iff {tokens rest : List Token} {tree : Program .bare}
    (genuine : ∀ token ∈ tokens, token.Genuine) :
    (program tokens).Gives tree rest ↔
      rest = [] ∧ Phrase.Program tokens tree ∧ ∀ token ∈ tokens, token.Legible := by
  constructor
  · intro gives
    obtain ⟨last, derived⟩ := program_sound gives
    exact ⟨last, derived, program_legible genuine gives⟩
  · rintro ⟨rfl, derived, legible⟩
    exact program_complete derived fun token member =>
      ⟨genuine token member, legible token member⟩

/-- Readable tokens derive one tree at most. -/
theorem Phrase.Program.unique {tokens : List Token} {tree other : Blockscript.Program .bare}
    (readable : ∀ token ∈ tokens, token.Readable) (derived : Phrase.Program tokens tree)
    (again : Phrase.Program tokens other) : tree = other :=
  ((program_complete derived readable).unique (program_complete again readable)).1

/-- An operand that is one genuine integer has the value that the letters say. -/
theorem primary_integer_iff {token : Token} (genuine : token.Genuine)
    (kind : token.kind = .integer) {number : Int} :
    Phrase.Primary [token] (.literal () (.integer number)) ↔
      number = integerOfLetters token.text.toList := by
  constructor
  · intro phrase
    generalize only : [token] = segment at phrase
    cases phrase with
    | integer _ denotes =>
      cases only
      exact ((genuine.denotes_iff kind).mp denotes).symm
  · rintro rfl
    exact .integer kind ((genuine.denotes_iff kind).mpr rfl)

/-- Finishing a reading keeps its value and counts its tokens. -/
theorem finish_ok_iff {consumes : Bool} {α : Type} {tokens : List Token}
    {reading : Reading consumes α tokens} {value : α} {count : Nat} :
    finish reading = .ok (value, count) ↔
      ∃ rest, reading.Gives value rest ∧ count = tokens.length - rest.length := by
  constructor
  · intro finished
    unfold finish at finished
    split at finished
    · cases finished
    · next read rest left =>
      cases finished
      exact ⟨rest, ⟨left, rfl⟩, rfl⟩
  · rintro ⟨rest, ⟨left, rfl⟩, rfl⟩
    rfl

/-- A text is read as a tree exactly when its tokens derive it and are legible. -/
theorem parseProgram_ok_iff {source : String} {tree : Blockscript.Program .bare} :
    parseProgram source = .ok tree ↔
      ∃ tokens, Token.ofText source = .ok tokens ∧ Phrase.Program tokens tree ∧
        ∀ token ∈ tokens, token.Legible := by
  cases lexed : Token.ofText source with
  | error fault => simp [parseProgram, lexed, Except.mapError, bind, Except.bind]
  | ok tokens =>
    have genuine := Token.ofText_genuine lexed
    have reads : (∃ count, finish (program tokens) = .ok (tree, count)) ↔
        Phrase.Program tokens tree ∧ ∀ token ∈ tokens, token.Legible := by
      simp [finish_ok_iff, program_gives_iff genuine]
    simp only [Except.ok.injEq, exists_eq_left', ← reads]
    cases finished : finish (program tokens) with
    | error fault => simp [parseProgram, lexed, finished, Except.mapError, bind, Except.bind]
    | ok outcome => simp [parseProgram, lexed, finished, Except.mapError, bind, Except.bind, pure,
        Except.pure, Prod.ext_iff]

/-- A text that is read as a program derives it, with the tokens that lexing gives. -/
theorem parseProgram_genuine {source : String} {tree : Blockscript.Program .bare}
    (parsed : parseProgram source = .ok tree) :
    ∃ tokens, (∀ token ∈ tokens, token.Genuine) ∧ Phrase.Program tokens tree := by
  obtain ⟨tokens, lexed, derived, _⟩ := parseProgram_ok_iff.mp parsed
  exact ⟨tokens, Token.ofText_genuine lexed, derived⟩

/-- A text that is read as a program derives it. -/
theorem parseProgram_derives {source : String} {tree : Blockscript.Program .bare}
    (parsed : parseProgram source = .ok tree) : ∃ tokens, Phrase.Program tokens tree := by
  obtain ⟨tokens, _, phrase⟩ := parseProgram_genuine parsed
  exact ⟨tokens, phrase⟩

/-- The grammar accepts exactly the texts that derive a program and have no integer with too
many digits, with the tree of the derivation and with every token used once and in order.
Without such integers the derivation is the only one. Its operators associate to the left
level by level, the default comes last in every switch, and a list global is typed by its
elements. A decimal token has a value, and an integer token has the one that its letters
say, however many they are. -/
theorem reads_what_derives_legibly {source : String} {tokens : List Token}
    (lexed : Token.ofText source = .ok tokens) :
    (∀ tree, (∃ count, finish (program tokens) = .ok (tree, count)) ↔
      Phrase.Program tokens tree ∧ ∀ token ∈ tokens, token.Legible) ∧
    (∀ tree count, finish (program tokens) = .ok (tree, count) → count = tokens.length) ∧
    ((∀ token ∈ tokens, token.Legible) →
      ∀ tree other, Phrase.Program tokens tree → Phrase.Program tokens other → tree = other) ∧
    (∀ loosest tighter segment tree, Phrase.Level (loosest :: tighter) segment tree ↔
      Chained loosest tighter segment tree) ∧
    (∀ segment trees, Phrase.Cases segment trees → DefaultLast trees) ∧
    (∀ start others definition, start.text = "LIST" → Phrase.Global (start :: others) definition →
      ElementTyped others definition) ∧
    (∀ token ∈ tokens, token.kind = .decimal →
      ∃ number, Phrase.Primary [token] (.literal () (.decimal number))) ∧
    (∀ token ∈ tokens, token.kind = .integer → ∀ number,
      Phrase.Primary [token] (.literal () (.integer number)) ↔
        number = integerOfLetters token.text.toList) := by
  have genuine := Token.ofText_genuine lexed
  refine ⟨?_, ?_, ?_, ?_, ?_, ?_, ?_, ?_⟩
  · intro tree
    constructor
    · rintro ⟨count, finished⟩
      obtain ⟨rest, gives, _⟩ := finish_ok_iff.mp finished
      exact ((program_gives_iff genuine).mp gives).2
    · intro derived
      exact ⟨_, finish_ok_iff.mpr ⟨[], (program_gives_iff genuine).mpr ⟨rfl, derived⟩, rfl⟩⟩
  · intro tree count finished
    obtain ⟨rest, gives, rfl⟩ := finish_ok_iff.mp finished
    rw [((program_gives_iff genuine).mp gives).1]
    rfl
  · intro legible tree other derived again
    exact derived.unique (fun token member => ⟨genuine token member, legible token member⟩) again
  · intro loosest tighter segment tree
    exact level_iff_chained
  · intro segment trees phrase
    exact phrase.default_last
  · intro start others definition word phrase
    exact phrase.element_typed word
  · intro token member kind
    obtain ⟨number, _, reads⟩ := (genuine token member).read_decimal kind
    exact ⟨number, .decimal kind reads⟩
  · intro token member kind number
    exact primary_integer_iff (genuine token member) kind

/-- The tokens of a chain of two subtractions. -/
def subtractions : List Token :=
  [⟨.identifier, "VAL", 0⟩, ⟨.identifier, "a", 4⟩, ⟨.operator, "=", 6⟩, ⟨.integer, "3", 8⟩,
    ⟨.operator, "-", 10⟩, ⟨.integer, "2", 12⟩, ⟨.operator, "-", 14⟩, ⟨.integer, "1", 16⟩,
    ⟨.operator, ";", 17⟩]

/-- A chain of two subtractions derives the tree with the first one inside. -/
theorem subtractions_derive :
    Token.ofText "VAL a = 3 - 2 - 1;" = .ok subtractions ∧
      Phrase.Program subtractions
        ⟨[⟨"a", none, false, some (.binary () "-"
          (.binary () "-" (.literal () (.integer 3)) (.literal () (.integer 2)))
          (.literal () (.integer 1))), ()⟩], []⟩ := by
  have lexed : Token.ofText "VAL a = 3 - 2 - 1;" = .ok subtractions := by cbv
  exact ⟨lexed, (((reads_what_derives_legibly lexed).1 _).mp ⟨9, by cbv⟩).1⟩

/-! ## Overlong integers -/

/-- The tokens of a global whose value is written with so many ones. -/
def onesGlobal (count : Nat) : List Token :=
  [⟨.identifier, "VAR", 0⟩, ⟨.identifier, "x", 4⟩, ⟨.operator, "=", 6⟩,
    ⟨.integer, ones count, 8⟩, ⟨.operator, ";", count + 9⟩]

/-- The text of such a global has its tokens. -/
theorem onesGlobal_lexed (more : Nat) :
    Token.ofText ("VAR x = " ++ ones (more + 1) ++ " ;") = .ok (onesGlobal (more + 1)) := by
  have blank : ∀ letter ∈ [' '], Text.isBlank letter = true :=
    List.forall_mem_singleton.mpr rfl
  let pieces : List Spaced :=
    [⟨.identifier, "VAR".toList, [' '], TokenKind.member_iff_whole.mpr (by decide), blank⟩,
      ⟨.identifier, "x".toList, [' '], TokenKind.member_iff_whole.mpr (by decide), blank⟩,
      ⟨.operator, "=".toList, [' '], TokenKind.member_iff_whole.mpr (by decide), blank⟩,
      ⟨.integer, List.replicate (more + 1) '1', [' '], ones_member more, blank⟩,
      ⟨.operator, ";".toList, [], TokenKind.member_iff_whole.mpr (by decide), by simp⟩]
  have read := @Token.ofText_written [] pieces (by simp) (by simp [Spaced.Apart, pieces])
  have text : "VAR x = " ++ ones (more + 1) ++ " ;" =
      String.ofList ([] ++ Spaced.written pieces) := by
    apply String.ext
    simp [ones, Spaced.written, pieces]
  have placed : Spaced.placed 0 pieces = onesGlobal (more + 1) := by
    simp [Spaced.placed, pieces, onesGlobal, ones]
    omega
  rw [text, read]
  simpa using placed

/-- A global is not read when its value is written as no number. -/
theorem global_spoiled {number stop : Token} {fault : NumeralFault}
    (spoiled : literal? number = some (.error fault)) :
    finish (program [⟨.identifier, "VAR", 0⟩, ⟨.identifier, "x", 4⟩, ⟨.operator, "=", 6⟩, number,
      stop]) = .error (.numeral fault) := by
  simp [finish, program, globals, globalStarts, globalDef, mutableGlobal, identifier, optionalType,
    optional, expression, level, levels, primary, spoiled, spoil, Reading.andThen, Reading.behind,
    Reading.map, Reading.lax, nothing, Mismatch.toFault]

/-- A program of such a global derives, although it is not read. -/
theorem onesGlobal_derives (more : Nat) :
    Phrase.Program (onesGlobal (more + 1))
      ⟨[⟨"x", none, true, some (.literal () (.integer (integerOfLetters (ones (more + 1)).toList))),
        ()⟩], []⟩ := by
  have genuine := Token.ofText_genuine (onesGlobal_lexed more)
  have number : Phrase.Primary [⟨.integer, ones (more + 1), 8⟩]
      (.literal () (.integer (integerOfLetters (ones (more + 1)).toList))) :=
    (primary_integer_iff (genuine _ (by simp [onesGlobal])) rfl).mpr rfl
  have value : Phrase.Expression [⟨.integer, ones (more + 1), 8⟩]
      (.literal () (.integer (integerOfLetters (ones (more + 1)).toList))) :=
    .operand (.operand (.operand (.operand (.primary number))))
  have definition : Phrase.Global (onesGlobal (more + 1)) _ :=
    @Phrase.Global.mutable ⟨.identifier, "VAR", 0⟩ ⟨.identifier, "x", 4⟩ _ [] _ none _ rfl rfl
      .absent (@Phrase.Optional.present _ _ _ ⟨.operator, "=", 6⟩ _ _ rfl value) rfl
  exact .mk (.cons definition .empty) .empty

/-- An integer of 4301 digits is one token, and the global that is given it derives. It is not
read, and what is wrong is not the text. -/
theorem overlong_not_read :
    Token.ofText ("VAR x = " ++ ones 4301 ++ " ;") = .ok (onesGlobal 4301) ∧
      Phrase.Program (onesGlobal 4301)
        ⟨[⟨"x", none, true, some (.literal () (.integer (integerOfLetters (ones 4301).toList))),
          ()⟩], []⟩ ∧
      finish (program (onesGlobal 4301)) = .error (.numeral (.overlong 4301)) :=
  ⟨onesGlobal_lexed 4300, onesGlobal_derives 4300,
    global_spoiled (ones_overlong 4300 (by decide) 8)⟩

end Blockscript.Grammar
