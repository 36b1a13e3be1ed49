import Blockscript.Proofs.Grammar.Numerals
import Blockscript.Proofs.Grammar.Success

/-!
# What derives is read

A rule never goes back, so it finds a phrase only where its first look decides
right. What follows a phrase must not be able to continue it: an operator behind
an operand, a bracket behind a name, a statement behind a block. Each theorem
names the words that must not come next, and inside the grammar the productions
supply them.

Within a phrase the looks decide right because the tokens are genuine. A token
that is a literal by its class is never at the same time a mark or a word.
-/

namespace Blockscript.Grammar

open Phrase

variable {rest segment tokens : List Token}

/-! ## What may come next -/

/-- Tokens that do not begin with any of these words do not begin with any of fewer words. -/
theorem Phrase.Clear.mono {words fewer : List String} (clear : Clear words tokens)
    (inside : fewer ⊆ words) : Clear fewer tokens :=
  fun token first member => clear token first (inside member)

/-- One token that is none of the words keeps them from the beginning. -/
theorem Phrase.Clear.cons {words : List String} {token : Token} (free : token.text ∉ words) :
    Clear words (token :: tokens) := by
  intro first same
  cases same
  exact free

/-- Tokens that begin with none of the words do not begin with one of them. -/
theorem Phrase.Clear.startsWith {words : List String} {word : String} (clear : Clear words tokens)
    (member : word ∈ words) : startsWith word tokens = false := by
  cases tokens with
  | nil => rfl
  | cons token others =>
    have other : token.text ≠ word := fun same => clear token rfl (same ▸ member)
    simpa [Grammar.startsWith] using other

/-- An optional phrase is found when its word cannot come next without it. -/
theorem optional_complete {consumes : Bool} {α : Type} {text : String}
    {rule : (tokens : List Token) → Reading consumes α tokens}
    {phrase : List Token → α → Prop} {result : Option α}
    (complete : ∀ {inner value}, inner <:+ segment → phrase inner value →
      (rule (inner ++ rest)).Gives value rest)
    (derived : Phrase.Optional text phrase segment result)
    (ends : startsWith text rest = false) :
    (optional text rule (segment ++ rest)).Gives result rest := by
  rw [optional_gives]
  cases derived with
  | absent => exact .inr ⟨ends, rfl, rfl⟩
  | present same inside =>
    exact .inl ⟨_, _, _, same, rfl, complete (List.suffix_cons _ _) inside, rfl⟩

/-! ## Operands and operators -/

/-- The words by which an expression of the given levels would go on. -/
def continuations (operators : List (List String)) : List String :=
  operators.flatten ++ ["(", "["]

/-- No operator of a level is one of a tighter level, and none is a bracket. -/
def Apart : List (List String) → Prop
  | [] => True
  | loosest :: tighter => (∀ word ∈ loosest, word ∉ continuations tighter) ∧ Apart tighter

/-- No operator stands in two of the levels. -/
theorem levels_apart : Apart levels := by
  refine ⟨?_, ?_, ?_, ?_, trivial⟩ <;> decide

/-- What is left to do on a level behind a left operand. Behind the last level
stands nothing. -/
def resume (operators : List (List String)) (left : Expr .bare) (tokens : List Token) :
    Reading false (Expr .bare) tokens :=
  match operators with
  | [] => nothing left tokens
  | loosest :: tighter => chain loosest tighter left tokens

/-- Without an operator of the level the left operand is the whole expression. -/
theorem resume_stops {operators : List (List String)} {left : Expr .bare}
    (clear : Clear (continuations operators) rest) :
    (resume operators left rest).Gives left rest := by
  match operators, rest with
  | [], rest => exact nothing_gives.mpr ⟨rfl, rfl⟩
  | loosest :: tighter, [] =>
    rw [resume, chain]
    exact nothing_gives.mpr ⟨rfl, rfl⟩
  | loosest :: tighter, token :: others =>
    have stops : ¬ loosest.contains token.text = true := by
      intro operator
      exact clear token rfl (by simp [continuations, List.contains_iff_mem.mp operator])
    rw [resume, chain, if_neg stops]
    exact nothing_gives.mpr ⟨rfl, rfl⟩

/-- The marks that no expression begins with. -/
def stops : List String :=
  [")", "]", ",", ":", ";", "=", "<", ">"]

/-- An operand begins with a token that neither closes nor separates anything. -/
theorem Phrase.Primary.begins {tree : Expr .bare} (phrase : Primary segment tree)
    (genuine : ∀ token ∈ segment, token.Genuine) :
    ∃ token others, segment = token :: others ∧ token.text ∉ stops := by
  have plain : ∀ {token : Token}, token.Genuine → token.kind ≠ .operator →
      token.text ∉ stops := by
    intro token genuine kind member
    exact genuine.text_notMem_marks kind ((by decide : stops ⊆ Token.marks) member)
  cases phrase with
  | nil word => exact ⟨_, _, rfl, by rw [word]; decide⟩
  | true word => exact ⟨_, _, rfl, by rw [word]; decide⟩
  | false word => exact ⟨_, _, rfl, by rw [word]; decide⟩
  | integer kind _ => exact ⟨_, _, rfl, plain (genuine _ (by simp)) (by simp [kind])⟩
  | decimal kind _ => exact ⟨_, _, rfl, plain (genuine _ (by simp)) (by simp [kind])⟩
  | character kind => exact ⟨_, _, rfl, plain (genuine _ (by simp)) (by simp [kind])⟩
  | string kind => exact ⟨_, _, rfl, plain (genuine _ (by simp)) (by simp [kind])⟩
  | group opening _ _ => exact ⟨_, _, rfl, by rw [opening]; decide⟩
  | list opening _ _ => exact ⟨_, _, rfl, by rw [opening]; decide⟩
  | access kind _ => exact ⟨_, _, rfl, plain (genuine _ (by simp)) (by simp [kind])⟩
  | element kind _ _ _ _ => exact ⟨_, _, rfl, plain (genuine _ (by simp)) (by simp [kind])⟩
  | call kind _ _ _ _ => exact ⟨_, _, rfl, plain (genuine _ (by simp)) (by simp [kind])⟩

/-- An expression begins with its first operand. -/
theorem Phrase.Level.begins {operators : List (List String)} {segment : List Token}
    {tree : Expr .bare} :
    Level operators segment tree → (∀ token ∈ segment, token.Genuine) →
      ∃ token others, segment = token :: others ∧ token.text ∉ stops
  | .primary phrase, genuine => phrase.begins genuine
  | .operand phrase, genuine => phrase.begins genuine
  | .binary left _ _, genuine => by
    obtain ⟨token, others, rfl, free⟩ :=
      left.begins fun token member => genuine token (List.mem_append_left _ member)
    exact ⟨token, _, rfl, free⟩

/-- Items begin with a token that is no stop. -/
theorem Phrase.Items.begins {trees : List (Expr .bare)} (phrase : Items segment trees)
    (genuine : ∀ token ∈ segment, token.Genuine) :
    ∃ token others, segment = token :: others ∧ token.text ∉ stops := by
  cases phrase with
  | last only => exact only.begins genuine
  | more first _ _ =>
    obtain ⟨token, others, rfl, free⟩ :=
      first.begins fun token member => genuine token (List.mem_append_left _ member)
    exact ⟨token, _, rfl, free⟩

/-! ## Expressions -/

/-- A literal token is an operand by itself. -/
theorem primary_literal {token : Token} {literal : Literal}
    (read : literal? token = some (.ok literal)) :
    (primary (token :: rest)).Gives (.literal () literal) rest := by
  rw [primary, read]
  exact behind_gives.mpr (nothing_gives.mpr ⟨rfl, rfl⟩)

/-- A name goes on with what stands behind it. -/
theorem primary_name {name : Token} {tree : Expr .bare} (genuine : name.Genuine)
    (kind : name.kind = .identifier) (free : name.text ∉ literalWords)
    (behind : (afterName name.text tokens).Gives tree rest) :
    (primary (name :: tokens)).Gives tree rest := by
  have none : literal? name = none := by
    rw [literal?_of_free free, kind]
  have plain := genuine.text_notMem_marks (by simp [kind])
  have round : ¬ name.text = "(" := by
    intro same
    exact plain (same ▸ by decide)
  have square : ¬ name.text = "[" := by
    intro same
    exact plain (same ▸ by decide)
  rw [primary, none]
  simp only [round, square, kind, ↓reduceIte]
  exact behind_gives.mpr behind

/-- Round brackets are read around an expression. -/
theorem primary_group {opening closing : Token} {tree : Expr .bare} (genuine : opening.Genuine)
    (opens : opening.text = "(") (closes : closing.text = ")")
    (inside : (level levels tokens).Gives tree (closing :: rest)) :
    (primary (opening :: tokens)).Gives (.group () tree) rest := by
  have none := literal?_mark genuine (by rw [opens]; decide)
  rw [primary, none]
  simp only [opens, ↓reduceIte, behind_gives]
  exact inside.andThen (wordAs_reads closes).giving

/-- Square brackets are read around the elements of a list. -/
theorem primary_list {opening : Token} {elements : List (Expr .bare)} (genuine : opening.Genuine)
    (opens : opening.text = "[") (inside : (arguments "]" tokens).Gives elements rest) :
    (primary (opening :: tokens)).Gives (.list () elements) rest := by
  have none := literal?_mark genuine (by rw [opens]; decide)
  have round : ¬ opening.text = "(" := by simp [opens]
  rw [primary, none]
  simp only [round, ↓reduceIte]
  rw [if_pos opens, behind_gives]
  exact inside.map

/-- An index in square brackets takes an element of what is named. -/
theorem afterName_element {name : String} {opening closing : Token} {offset : Expr .bare}
    (opens : opening.text = "[") (closes : closing.text = "]")
    (inside : (level levels tokens).Gives offset (closing :: rest)) :
    (afterName name (opening :: tokens)).Gives (.element () () name offset) rest := by
  rw [afterName, if_pos opens, lax_gives, behind_gives]
  exact inside.andThen (wordAs_reads closes).giving

/-- Arguments in round brackets call what is named. -/
theorem afterName_call {name : String} {opening : Token} {trees : List (Expr .bare)}
    (opens : opening.text = "(") (inside : (arguments ")" tokens).Gives trees rest) :
    (afterName name (opening :: tokens)).Gives (.call () () name trees) rest := by
  have square : ¬ opening.text = "[" := by simp [opens]
  rw [afterName, if_neg square, if_pos opens, lax_gives, behind_gives]
  exact inside.map

/-- The whole of a level is what is read once the rest of the level is. -/
theorem level_gives {loosest : List String} {tighter : List (List String)} {left tree : Expr .bare}
    {middle : List Token} (first : (level tighter tokens).Gives left middle)
    (later : (chain loosest tighter left middle).Gives tree rest) :
    (level (loosest :: tighter) tokens).Gives tree rest := by
  rw [level]
  exact first.andThen later

/-- An operator goes on with its right operand. -/
theorem chain_gives {loosest : List String} {tighter : List (List String)}
    {left right tree : Expr .bare} {operator : Token} {middle : List Token}
    (member : operator.text ∈ loosest) (operand : (level tighter tokens).Gives right middle)
    (later : (chain loosest tighter (.binary () operator.text left right) middle).Gives tree rest) :
    (chain loosest tighter left (operator :: tokens)).Gives tree rest := by
  rw [chain, if_pos (List.contains_iff_mem.mpr member), lax_gives, behind_gives]
  exact operand.andThen later

/-- What goes on behind a tighter level goes on behind the level as well. -/
theorem Phrase.Clear.tighter {operators : List (List String)}
    (clear : Clear (continuations operators) rest) : Clear (continuations operators.tail) rest := by
  apply clear.mono
  cases operators with
  | nil => exact List.Subset.refl _
  | cons loosest tighter => simp [continuations]

/-- A mark that closes or separates continues no expression. -/
theorem Phrase.Clear.stop {mark : Token} (stop : mark.text ∈ stops.take 6) :
    Clear (continuations levels) (mark :: rest) :=
  .cons ((by decide : ∀ word ∈ stops.take 6, word ∉ continuations levels) _ stop)

mutual

/-- An expression of some level is read up to where its operators end, and then
its level goes on behind it. The statement speaks of what follows the expression
because one loop reads all operands of a level. -/
theorem level_continues {operators : List (List String)} {segment : List Token}
    {tree : Expr .bare} :
    Level operators segment tree → (∀ token ∈ segment, token.Readable) → Apart operators →
      ∀ {rest last result}, Clear (continuations operators.tail) rest →
        (resume operators tree rest).Gives result last →
        (level operators (segment ++ rest)).Gives result last
  | .primary phrase, readable, _, rest, last, result, clear, goes => by
    obtain ⟨same, left⟩ := nothing_gives.mp goes
    rw [same, left, level]
    exact primary_complete phrase readable clear
  | .operand phrase, readable, apart, rest, last, result, clear, goes =>
    level_gives (level_continues phrase readable apart.2 clear.tighter (resume_stops clear)) goes
  | @Level.binary loosest tighter front back operator left right leftPhrase member rightPhrase,
      readable, apart, rest, last, result, clear, goes => by
    have later : ∀ token ∈ back, token.Readable :=
      fun token inside => readable token (by simp [inside])
    have operand := level_continues rightPhrase later apart.2 clear.tighter (resume_stops clear)
    have goesOn : (chain loosest tighter left (operator :: (back ++ rest))).Gives result last :=
      chain_gives member operand goes
    have earlier : ∀ token ∈ front, token.Readable :=
      fun token inside => readable token (by simp [inside])
    have separate : Clear (continuations tighter) (operator :: (back ++ rest)) :=
      .cons (apart.1 _ member)
    have whole := level_continues leftPhrase earlier apart separate goesOn
    rw [List.append_assoc, List.cons_append]
    exact whole

/-- A derived operand is read, when no parenthesis or bracket continues it. -/
theorem primary_complete {segment : List Token} {tree : Expr .bare} :
    Primary segment tree → (∀ token ∈ segment, token.Readable) →
      ∀ {rest}, Clear ["(", "["] rest → (primary (segment ++ rest)).Gives tree rest
  | .nil word, _, _, _ => primary_literal (by simp [literal?, word])
  | .true word, _, _, _ => primary_literal (by simp [literal?, word])
  | .false word, _, _, _ => primary_literal (by simp [literal?, word])
  | @Primary.integer token number kind denotes, readable, _, _ =>
    primary_literal (literal?_readable (readable token (by simp)) kind denotes)
  | @Primary.decimal token number kind reads, readable, _, _ => by
    apply primary_literal
    rw [literal?_of_class (readable token (by simp)).genuine (by simp [kind]), kind]
    simp only [reads, Except.map]
  | @Primary.character token kind, readable, _, _ =>
    primary_literal
      (by rw [literal?_of_class (readable token (by simp)).genuine (by simp [kind]), kind])
  | @Primary.string token kind, readable, _, _ =>
    primary_literal
      (by rw [literal?_of_class (readable token (by simp)).genuine (by simp [kind]), kind])
  | @Primary.group opening closing inner tree opens phrase closes, readable, rest, _ => by
    have inside : (level levels (inner ++ closing :: rest)).Gives tree (closing :: rest) :=
      level_continues phrase (fun token member => readable token (by simp [member])) levels_apart
        (Clear.stop (by rw [closes]; decide)).tighter
        (resume_stops (.stop (by rw [closes]; decide)))
    have shape : opening :: inner ++ [closing] ++ rest = opening :: (inner ++ closing :: rest) := by
      simp
    rw [shape]
    exact primary_group (readable opening (by simp)).genuine opens closes inside
  | @Primary.list opening closing inner elements opens phrase closes, readable, rest, _ => by
    have inside : (arguments closing.text (inner ++ closing :: rest)).Gives elements rest :=
      arguments_complete phrase (fun token member => readable token (by simp [member]))
        (by simp [closes])
    rw [closes] at inside
    have shape : opening :: inner ++ [closing] ++ rest = opening :: (inner ++ closing :: rest) := by
      simp
    rw [shape]
    exact primary_list (readable opening (by simp)).genuine opens inside
  | @Primary.access name kind free, readable, rest, clear => by
    apply primary_name (readable name (by simp)).genuine kind free
    cases rest with
    | nil => simp [afterName]
    | cons token others =>
      have other := clear token rfl
      simp only [List.mem_cons, List.not_mem_nil, or_false, not_or] at other
      simp [afterName, other]
  | @Primary.element name opening closing inner offset kind free opens phrase closes, readable,
      rest, _ => by
    have shape : name :: opening :: inner ++ [closing] ++ rest =
        name :: opening :: (inner ++ closing :: rest) := by
      simp
    rw [shape]
    apply primary_name (readable name (by simp)).genuine kind free
    have inside : (level levels (inner ++ closing :: rest)).Gives offset (closing :: rest) :=
      level_continues phrase (fun token member => readable token (by simp [member])) levels_apart
        (Clear.stop (by rw [closes]; decide)).tighter
        (resume_stops (.stop (by rw [closes]; decide)))
    exact afterName_element opens closes inside
  | @Primary.call name opening closing inner trees kind free opens phrase closes, readable,
      rest, _ => by
    have shape : name :: opening :: inner ++ [closing] ++ rest =
        name :: opening :: (inner ++ closing :: rest) := by
      simp
    rw [shape]
    apply primary_name (readable name (by simp)).genuine kind free
    have inside : (arguments closing.text (inner ++ closing :: rest)).Gives trees rest :=
      arguments_complete phrase (fun token member => readable token (by simp [member]))
        (by simp [closes])
    rw [closes] at inside
    exact afterName_call opens inside

/-- Derived items are read up to the mark that closes them. -/
theorem items_complete {segment : List Token} {trees : List (Expr .bare)} :
    Items segment trees → (∀ token ∈ segment, token.Readable) →
      ∀ {mark rest}, mark.text ∈ [")", "]"] →
        (items mark.text (segment ++ mark :: rest)).Gives trees rest
  | @Items.last segment tree only, readable, mark, rest, closing => by
    have stop : mark.text ∈ stops.take 6 := (by decide : [")", "]"] ⊆ stops.take 6) closing
    have first : (level levels (segment ++ mark :: rest)).Gives tree (mark :: rest) :=
      level_continues only readable levels_apart (Clear.stop stop).tighter
        (resume_stops (.stop stop))
    rw [items]
    refine first.andThen ?_
    simp [moreItems]
  | @Items.more front others comma tree trees phrase separates later, readable, mark, rest,
      closing => by
    have stop : comma.text ∈ stops.take 6 := by
      rw [separates]
      decide
    have first : (level levels (front ++ comma :: (others ++ mark :: rest))).Gives tree
        (comma :: (others ++ mark :: rest)) :=
      level_continues phrase (fun token member => readable token (by simp [member])) levels_apart
        (Clear.stop stop).tighter (resume_stops (.stop stop))
    have further : (items mark.text (others ++ mark :: rest)).Gives trees rest :=
      items_complete later (fun token member => readable token (by simp [member])) closing
    have other : ¬ comma.text = mark.text := by
      intro same
      rw [← same, separates] at closing
      simp at closing
    rw [List.append_assoc, List.cons_append, items]
    refine first.andThen (Reading.Gives.map ?_)
    rw [moreItems, if_neg other, if_pos separates, behind_gives]
    exact further

/-- Derived arguments are read up to the mark that closes them. -/
theorem arguments_complete {segment : List Token} {trees : List (Expr .bare)} :
    Arguments segment trees → (∀ token ∈ segment, token.Readable) →
      ∀ {mark rest}, mark.text ∈ [")", "]"] →
        (arguments mark.text (segment ++ mark :: rest)).Gives trees rest
  | .none, _, mark, rest, _ => by
    simp [arguments]
  | .some phrase, readable, mark, rest, closing => by
    have whole : (items mark.text (_ ++ mark :: rest)).Gives _ rest :=
      items_complete phrase readable closing
    obtain ⟨token, others, rfl, free⟩ := phrase.begins (genuine_of_readable readable)
    have other : ¬ token.text = mark.text := by
      intro same
      exact free ((by decide : [")", "]"] ⊆ stops) (same ▸ closing))
    rw [List.cons_append, arguments, if_neg other]
    exact whole

end

/-- An expression is read when no operator and no bracket comes next. -/
theorem expression_complete {tree : Expr .bare} (phrase : Expression segment tree)
    (readable : ∀ token ∈ segment, token.Readable) (clear : Clear (continuations levels) rest) :
    (expression (segment ++ rest)).Gives tree rest :=
  level_continues phrase readable levels_apart clear.tighter (resume_stops clear)

/-- A derived optional value is read, when nothing behind it continues it. -/
theorem optionalValue_complete {value : Option (Expr .bare)}
    (derived : Phrase.Optional "=" Expression segment value)
    (readable : ∀ token ∈ segment, token.Readable)
    (clear : Clear ("=" :: continuations levels) rest) :
    (optional "=" expression (segment ++ rest)).Gives value rest := by
  refine optional_complete ?_ derived (clear.startsWith (by simp))
  intro inner value suffix phrase
  exact expression_complete phrase (fun token member => readable token (suffix.mem member))
    (clear.mono (List.subset_cons_self _ _))

/-! ## Types -/

/-- The name of a type is read when no argument comes next. -/
theorem typeName_complete {name : String} (phrase : TypeName segment name) :
    ∀ {rest}, Clear ["<"] rest → (typeName (segment ++ rest)).Gives name rest := by
  induction phrase with
  | @plain name kind =>
    intro rest clear
    rw [List.singleton_append, typeName]
    refine (identifier_reads kind).andThen ?_
    cases rest with
    | nil => exact nothing_gives.mpr ⟨rfl, rfl⟩
    | cons token others =>
      have other : ¬ token.text = "<" := by
        have free := clear token rfl
        simpa using free
      simp only [other, ↓reduceIte]
      exact nothing_gives.mpr ⟨rfl, rfl⟩
  | @applied name opening closing inner argument kind opens _ closes inductionHypothesis =>
    intro rest _
    have shape : name :: opening :: inner ++ [closing] ++ rest =
        name :: opening :: (inner ++ closing :: rest) := by
      simp
    have inside : (typeName (inner ++ closing :: rest)).Gives argument (closing :: rest) :=
      inductionHypothesis (.cons (by rw [closes]; decide))
    rw [shape, typeName]
    refine (identifier_reads kind).andThen ?_
    simp only [opens, ↓reduceIte, lax_gives, behind_gives]
    exact inside.andThen (word_reads closes).giving

/-- A derived optional type is read, when nothing behind it continues it. -/
theorem optionalType_complete {type : Option String} (derived : OptionalType segment type)
    (clear : Clear ["<", ":"] rest) : (optionalType (segment ++ rest)).Gives type rest := by
  refine optional_complete ?_ derived (clear.startsWith (by simp))
  intro inner value _ phrase
  exact typeName_complete phrase (clear.mono (by simp))

/-- Neither a given value nor the semicolon without one goes on with a type. -/
theorem Phrase.Optional.endsType {value : List Token} {stop : Token} {tree : Option (Expr .bare)}
    (given : Phrase.Optional "=" Expression value tree) (closed : stop.text = ";") :
    Clear ["<", ":"] (value ++ stop :: rest) := by
  cases given with
  | absent => exact .cons (by rw [closed]; decide)
  | present same _ => exact .cons (by rw [same]; decide)

/-! ## Statements -/

/-- A statement begins with a word, or like an expression. -/
theorem Phrase.Statement.begins {tree : Stmt .bare} (phrase : Statement segment tree)
    (genuine : ∀ token ∈ segment, token.Genuine) :
    ∃ token others, segment = token :: others ∧ token.text ∉ stops := by
  cases phrase with
  | declaration start _ _ _ _ => exact ⟨_, _, rfl, by rw [start]; decide⟩
  | switch start _ _ _ => exact ⟨_, _, rfl, by rw [start]; decide⟩
  | conditional start _ _ _ _ => exact ⟨_, _, rfl, by rw [start]; decide⟩
  | alternative start _ _ _ _ _ _ => exact ⟨_, _, rfl, by rw [start]; decide⟩
  | loop start _ _ _ _ => exact ⟨_, _, rfl, by rw [start]; decide⟩
  | returning start _ _ => exact ⟨_, _, rfl, by rw [start]; decide⟩
  | expression first _ _ =>
    obtain ⟨token, others, rfl, free⟩ :=
      first.begins fun token member => genuine token (by simp [member])
    exact ⟨token, _, rfl, free⟩
  | assignment first _ _ _ _ _ =>
    obtain ⟨token, others, rfl, free⟩ :=
      first.begins fun token member => genuine token (by simp [member])
    exact ⟨token, _, rfl, free⟩

/-- Whether a block ends here: at one of its closing words, or with the tokens. -/
def Ends (tokens : List Token) : Prop :=
  ∀ token ∈ tokens.head?, token.text ∈ blockEnds

/-- A token that closes blocks ends one. -/
theorem Ends.cons {token : Token} (closes : token.text ∈ blockEnds) : Ends (token :: tokens) := by
  intro first same
  cases same
  exact closes

/-- A statement that starts with an expression is none of those with a word. -/
theorem statement_simple {first : Token} {tree : Stmt .bare}
    (clear : Clear statementWords (first :: tokens))
    (gives : (simple (first :: tokens)).Gives tree rest) :
    (statement (first :: tokens)).Gives tree rest := by
  have free := clear first rfl
  simp only [statementWords, List.mem_cons, List.not_mem_nil, or_false, not_or] at free
  obtain ⟨notLet, notSwitch, notIf, notWhile, notReturn⟩ := free
  rw [statement, if_neg notLet, if_neg notSwitch, if_neg notIf, if_neg notWhile, if_neg notReturn]
  exact gives

/-- The derived parts of a declaration are read behind its LET. -/
theorem declaration_complete {name stop : Token} {type value : List Token}
    {typeName : Option String} {tree : Option (Expr .bare)} (kind : name.kind = .identifier)
    (typed : OptionalType type typeName) (given : Phrase.Optional "=" Expression value tree)
    (readable : ∀ token ∈ value, token.Readable) (closed : stop.text = ";") :
    (declaration (name :: (type ++ (value ++ stop :: rest)))).Gives
      (.declaration () name.text typeName tree) rest := by
  have readValue : (optional "=" expression (value ++ stop :: rest)).Gives tree (stop :: rest) :=
    optionalValue_complete given readable (.cons (by rw [closed]; decide))
  rw [declaration]
  refine (identifier_reads kind).andThen ?_
  refine (optionalType_complete typed (given.endsType closed)).andThen ?_
  exact readValue.andThen (word_reads closed).giving

/-- A condition is read up to the word behind it. -/
theorem condition_complete {begin : Token} {tree : Expr .bare} (phrase : Expression segment tree)
    (readable : ∀ token ∈ segment, token.Readable) (begins : begin.text = "DO") :
    (expression (segment ++ begin :: tokens)).Gives tree (begin :: tokens) :=
  expression_complete phrase readable (.cons (by rw [begins]; decide))

/-- A conditional is read when its blocks are, whether the second is written or not. -/
theorem conditional_complete {condition after : List Token} {begin stop : Token}
    {tree : Expr .bare} {thenBlock elseBlock : List (Stmt .bare)}
    (phrase : Expression condition tree) (readable : ∀ token ∈ condition, token.Readable)
    (begins : begin.text = "DO") (readThen : (block tokens).Gives thenBlock after)
    (readElse : (otherwise after).Gives elseBlock (stop :: rest)) (closed : stop.text = "END") :
    (conditional (condition ++ begin :: tokens)).Gives
      (.conditional tree thenBlock elseBlock) rest := by
  rw [conditional]
  refine (condition_complete phrase readable begins).andThen ((word_reads begins).andThen ?_)
  exact readThen.andThen (readElse.andThen (word_reads closed).giving)

/-- The derived parts of a loop are read behind its WHILE. -/
theorem loop_complete {condition : List Token} {begin stop : Token} {tree : Expr .bare}
    {body : List (Stmt .bare)} (phrase : Expression condition tree)
    (readable : ∀ token ∈ condition, token.Readable) (begins : begin.text = "DO")
    (readBody : (block tokens).Gives body (stop :: rest)) (closed : stop.text = "END") :
    (loop (condition ++ begin :: tokens)).Gives (.loop tree body) rest := by
  rw [loop]
  refine (condition_complete phrase readable begins).andThen ((word_reads begins).andThen ?_)
  exact readBody.andThen (word_reads closed).giving

/-- The derived parts of a switch are read behind its SWITCH. -/
theorem switch_complete {subject : List Token} {stop : Token} {tree : Expr .bare}
    {trees : List (Case .bare)} (phrase : Expression subject tree)
    (readable : ∀ token ∈ subject, token.Readable) (next : Clear (continuations levels) tokens)
    (readCases : (cases tokens).Gives trees (stop :: rest)) (closed : stop.text = "END") :
    (switch (subject ++ tokens)).Gives (.switch tree trees) rest := by
  rw [switch]
  refine (expression_complete phrase readable next).andThen ?_
  exact readCases.andThen (word_reads closed).giving

/-- The derived value of a return is read behind its RETURN. -/
theorem returning_complete {value : List Token} {stop : Token} {tree : Expr .bare}
    (phrase : Expression value tree) (readable : ∀ token ∈ value, token.Readable)
    (closed : stop.text = ";") :
    (returning (value ++ stop :: rest)).Gives (.returning tree) rest := by
  have read : (expression (value ++ stop :: rest)).Gives tree (stop :: rest) :=
    expression_complete phrase readable (.stop (by rw [closed]; decide))
  rw [returning]
  exact read.andThen (word_reads closed).giving

/-- A derived expression with its semicolon is read as a statement. -/
theorem simple_expression {stop : Token} {tree : Expr .bare} (phrase : Expression segment tree)
    (readable : ∀ token ∈ segment, token.Readable) (closed : stop.text = ";") :
    (simple (segment ++ stop :: rest)).Gives (.expression tree) rest := by
  have read : (expression (segment ++ stop :: rest)).Gives tree (stop :: rest) :=
    expression_complete phrase readable (.stop (by rw [closed]; decide))
  have none : (optional "=" expression (stop :: rest)).Gives none (stop :: rest) :=
    optional_gives.mpr (.inr ⟨by simp [startsWith, closed], rfl, rfl⟩)
  rw [simple]
  refine read.andThen ?_
  split
  · exact none.andThen (word_reads closed).giving
  · exact (word_reads closed).giving

/-- A derived assignment to a place is read as a statement. -/
theorem simple_assignment {receiver value : List Token} {equals stop : Token}
    {receiverTree valueTree : Expr .bare} (phrase : Expression receiver receiverTree)
    (place : receiverTree.isPlace = true) (assigns : equals.text = "=")
    (valuePhrase : Expression value valueTree)
    (readable : ∀ token ∈ receiver, token.Readable)
    (valueReadable : ∀ token ∈ value, token.Readable) (closed : stop.text = ";") :
    (simple (receiver ++ equals :: (value ++ stop :: rest))).Gives
      (.assignment receiverTree valueTree) rest := by
  have read : (expression (receiver ++ equals :: (value ++ stop :: rest))).Gives receiverTree
      (equals :: (value ++ stop :: rest)) :=
    expression_complete phrase readable (.stop (by rw [assigns]; decide))
  have readValue : (expression (value ++ stop :: rest)).Gives valueTree (stop :: rest) :=
    expression_complete valuePhrase valueReadable (.stop (by rw [closed]; decide))
  have assigned : (optional "=" expression (equals :: (value ++ stop :: rest))).Gives
      (some valueTree) (stop :: rest) :=
    optional_gives.mpr (.inl ⟨equals, _, valueTree, assigns, rfl, readValue, rfl⟩)
  rw [simple]
  refine read.andThen ?_
  rw [if_pos place]
  exact assigned.andThen (word_reads closed).giving

/-- A block that is closed properly does not begin like a separator. -/
theorem Phrase.Block.begins {trees : List (Stmt .bare)} (phrase : Block segment trees)
    (genuine : ∀ token ∈ segment, token.Genuine) (ends : Ends rest) :
    Clear stops (segment ++ rest) := by
  cases phrase with
  | empty =>
    intro token first member
    exact (by decide : ∀ word ∈ blockEnds, word ∉ stops) _ (ends token first) member
  | cons first _ _ =>
    obtain ⟨token, others, rfl, free⟩ :=
      first.begins fun token member => genuine token (by simp [member])
    exact .cons free

/-- The default is the only case without a label, and what it reads is its block
behind an optional colon. -/
theorem cases_default {start : Token} {colon : Option Unit} {middle : List Token}
    {body : List (Stmt .bare)} (word : start.text = "DEFAULT")
    (mark : (optional ":" (nothing ()) tokens).Gives colon middle)
    (inside : (block middle).Gives body rest) :
    (cases (start :: tokens)).Gives [.mk none body] rest := by
  have other : ¬ start.text = "CASE" := by simp [word]
  have only : (case (start :: tokens)).Gives (.mk none body) rest := by
    rw [case, if_neg other, if_pos word, behind_gives, unlabelled]
    exact mark.andThen inside.map
  rw [cases, if_neg (by simp [startsWith, word]), if_pos (by simp [startsWith, word])]
  exact only.map

/-- Cases begin with one of their words. -/
theorem Phrase.Cases.begins {trees : List (Case .bare)} (phrase : Cases segment trees) :
    ∃ token others, segment = token :: others ∧ token.text ∈ ["CASE", "DEFAULT"] := by
  cases phrase with
  | labelled start _ _ _ _ => exact ⟨_, _, rfl, by simp [start]⟩
  | default start _ _ => exact ⟨_, _, rfl, by simp [start]⟩
  | bareDefault start _ => exact ⟨_, _, rfl, by simp [start]⟩

mutual

/-- A derived statement is read, whatever stands behind it. -/
theorem statement_complete {segment : List Token} {tree : Stmt .bare} :
    Statement segment tree → (∀ token ∈ segment, token.Readable) →
      ∀ {rest}, (statement (segment ++ rest)).Gives tree rest
  | @Statement.declaration start name stop type value typeName tree word kind typed given closed,
      readable, rest => by
    have shape : start :: name :: type ++ value ++ [stop] ++ rest =
        start :: name :: (type ++ (value ++ stop :: rest)) := by
      simp
    rw [shape, statement, if_pos word, behind_gives]
    exact declaration_complete kind typed given
      (fun token member => readable token (by simp [member])) closed
  | @Statement.switch start stop subject inside tree trees word phrase listed closed,
      readable, rest => by
    have shape : start :: subject ++ inside ++ [stop] ++ rest =
        start :: (subject ++ (inside ++ stop :: rest)) := by
      simp
    have next : Clear (continuations levels) (inside ++ stop :: rest) := by
      obtain ⟨token, others, same, begins⟩ := listed.begins
      rw [same]
      exact .cons ((by decide : ∀ word ∈ ["CASE", "DEFAULT"], word ∉ continuations levels) _ begins)
    have readCases : (cases (inside ++ stop :: rest)).Gives trees (stop :: rest) :=
      cases_complete listed (fun token member => readable token (by simp [member]))
        (.cons (by rw [closed]; decide))
    have notLet : ¬ start.text = "LET" := by simp [word]
    rw [shape, statement, if_neg notLet, if_pos word, behind_gives]
    exact switch_complete phrase (fun token member => readable token (by simp [member])) next
      readCases closed
  | @Statement.conditional start begin stop condition body tree thenBlock word phrase begins
      bodyPhrase closed, readable, rest => by
    have shape : start :: condition ++ begin :: body ++ [stop] ++ rest =
        start :: (condition ++ begin :: (body ++ stop :: rest)) := by
      simp
    have readThen : (block (body ++ stop :: rest)).Gives thenBlock (stop :: rest) :=
      block_complete bodyPhrase (fun token member => readable token (by simp [member]))
        (.cons (by rw [closed]; decide))
    have readElse : (otherwise (stop :: rest)).Gives [] (stop :: rest) := by
      simp [otherwise, closed]
    have notLet : ¬ start.text = "LET" := by simp [word]
    have notSwitch : ¬ start.text = "SWITCH" := by simp [word]
    rw [shape, statement, if_neg notLet, if_neg notSwitch, if_pos word, behind_gives]
    exact conditional_complete phrase (fun token member => readable token (by simp [member])) begins
      readThen readElse closed
  | @Statement.alternative start begin middle stop condition body other tree thenBlock elseBlock
      word phrase begins bodyPhrase divides otherPhrase closed, readable, rest => by
    have shape : start :: condition ++ begin :: body ++ middle :: other ++ [stop] ++ rest =
        start :: (condition ++ begin :: (body ++ middle :: (other ++ stop :: rest))) := by
      simp
    have readThen : (block (body ++ middle :: (other ++ stop :: rest))).Gives thenBlock
        (middle :: (other ++ stop :: rest)) :=
      block_complete bodyPhrase (fun token member => readable token (by simp [member]))
        (.cons (by rw [divides]; decide))
    have readElse : (otherwise (middle :: (other ++ stop :: rest))).Gives elseBlock
        (stop :: rest) := by
      rw [otherwise, if_pos divides, lax_gives, behind_gives]
      exact block_complete otherPhrase (fun token member => readable token (by simp [member]))
        (.cons (by rw [closed]; decide))
    have notLet : ¬ start.text = "LET" := by simp [word]
    have notSwitch : ¬ start.text = "SWITCH" := by simp [word]
    rw [shape, statement, if_neg notLet, if_neg notSwitch, if_pos word, behind_gives]
    exact conditional_complete phrase (fun token member => readable token (by simp [member])) begins
      readThen readElse closed
  | @Statement.loop start begin stop condition inside tree body word phrase begins bodyPhrase
      closed, readable, rest => by
    have shape : start :: condition ++ begin :: inside ++ [stop] ++ rest =
        start :: (condition ++ begin :: (inside ++ stop :: rest)) := by
      simp
    have readBody : (block (inside ++ stop :: rest)).Gives body (stop :: rest) :=
      block_complete bodyPhrase (fun token member => readable token (by simp [member]))
        (.cons (by rw [closed]; decide))
    have notLet : ¬ start.text = "LET" := by simp [word]
    have notSwitch : ¬ start.text = "SWITCH" := by simp [word]
    have notIf : ¬ start.text = "IF" := by simp [word]
    rw [shape, statement, if_neg notLet, if_neg notSwitch, if_neg notIf, if_pos word, behind_gives]
    exact loop_complete phrase (fun token member => readable token (by simp [member])) begins
      readBody closed
  | @Statement.returning start stop value tree word phrase closed, readable, rest => by
    have shape : start :: value ++ [stop] ++ rest = start :: (value ++ stop :: rest) := by
      simp
    have notLet : ¬ start.text = "LET" := by simp [word]
    have notSwitch : ¬ start.text = "SWITCH" := by simp [word]
    have notIf : ¬ start.text = "IF" := by simp [word]
    have notWhile : ¬ start.text = "WHILE" := by simp [word]
    rw [shape, statement, if_neg notLet, if_neg notSwitch, if_neg notIf, if_neg notWhile,
      if_pos word, behind_gives]
    exact returning_complete phrase (fun token member => readable token (by simp [member])) closed
  | @Statement.expression tokens stop tree phrase clear closed, readable, rest => by
    have inside : ∀ token ∈ tokens, token.Readable :=
      fun token member => readable token (by simp [member])
    have read : (simple (tokens ++ stop :: rest)).Gives (.expression tree) rest :=
      simple_expression phrase inside closed
    obtain ⟨token, others, same, _⟩ := phrase.begins (genuine_of_readable inside)
    rw [List.append_assoc, List.singleton_append]
    rw [same] at read clear ⊢
    exact statement_simple (.cons (clear token rfl)) read
  | @Statement.assignment receiver value equals stop receiverTree valueTree phrase clear place
      assigns valuePhrase closed, readable, rest => by
    have shape : receiver ++ equals :: value ++ [stop] ++ rest =
        receiver ++ equals :: (value ++ stop :: rest) := by
      simp
    have inside : ∀ token ∈ receiver, token.Readable :=
      fun token member => readable token (by simp [member])
    have read : (simple (receiver ++ equals :: (value ++ stop :: rest))).Gives
        (.assignment receiverTree valueTree) rest :=
      simple_assignment phrase place assigns valuePhrase inside
        (fun token member => readable token (by simp [member])) closed
    obtain ⟨token, others, same, _⟩ := phrase.begins (genuine_of_readable inside)
    rw [shape]
    rw [same] at read clear ⊢
    exact statement_simple (.cons (clear token rfl)) read

/-- A derived block is read up to a token that ends blocks. -/
theorem block_complete {segment : List Token} {trees : List (Stmt .bare)} :
    Block segment trees → (∀ token ∈ segment, token.Readable) →
      ∀ {rest}, Ends rest → (block (segment ++ rest)).Gives trees rest
  | .empty, _, rest, ends => by
    cases rest with
    | nil => simp [block]
    | cons token others =>
      rw [List.nil_append, block, if_pos (List.contains_iff_mem.mpr (ends token rfl))]
      exact nothing_gives.mpr ⟨rfl, rfl⟩
  | @Block.cons first others statement statements phrase clear later, readable, rest, ends => by
    have inside : ∀ token ∈ first, token.Readable :=
      fun token member => readable token (by simp [member])
    have read : (Grammar.statement (first ++ (others ++ rest))).Gives statement (others ++ rest) :=
      statement_complete phrase inside
    have further : (block (others ++ rest)).Gives statements rest :=
      block_complete later (fun token member => readable token (by simp [member])) ends
    obtain ⟨token, more, same, _⟩ := phrase.begins (genuine_of_readable inside)
    rw [List.append_assoc]
    rw [same] at read clear ⊢
    have goesOn : ¬ blockEnds.contains token.text = true := by
      intro closes
      exact clear token rfl (List.contains_iff_mem.mp closes)
    rw [List.cons_append, block, if_neg goesOn, lax_gives]
    exact read.andThen further.map

/-- Derived cases are read up to a token that ends blocks. -/
theorem cases_complete {segment : List Token} {trees : List (Case .bare)} :
    Cases segment trees → (∀ token ∈ segment, token.Readable) →
      ∀ {rest}, Ends rest → (cases (segment ++ rest)).Gives trees rest
  | @Cases.labelled start colon label inside others tree body trees word phrase colons bodyPhrase
      later, readable, rest, ends => by
    have shape : start :: label ++ colon :: inside ++ others ++ rest =
        start :: (label ++ colon :: (inside ++ (others ++ rest))) := by
      simp
    have read : (expression (label ++ colon :: (inside ++ (others ++ rest)))).Gives tree
        (colon :: (inside ++ (others ++ rest))) :=
      expression_complete phrase (fun token member => readable token (by simp [member]))
        (.stop (by rw [colons]; decide))
    have bodyEnds : Ends (others ++ rest) := by
      obtain ⟨token, more, same, begins⟩ := later.begins
      rw [same]
      exact .cons ((by decide : ["CASE", "DEFAULT"] ⊆ blockEnds) begins)
    have readBody : (block (inside ++ (others ++ rest))).Gives body (others ++ rest) :=
      block_complete bodyPhrase (fun token member => readable token (by simp [member])) bodyEnds
    have further : (cases (others ++ rest)).Gives trees rest :=
      cases_complete later (fun token member => readable token (by simp [member])) ends
    have first : (case (start :: (label ++ colon :: (inside ++ (others ++ rest))))).Gives
        (.mk (some tree) body) (others ++ rest) := by
      rw [case, if_pos word, behind_gives, labelled]
      exact read.andThen ((word_reads colons).andThen readBody.map)
    rw [shape, cases, if_pos (by simp [startsWith, word])]
    exact first.andThen further.map
  | @Cases.default start colon inside body word colons bodyPhrase, readable, rest, ends => by
    have readBody : (block (inside ++ rest)).Gives body rest :=
      block_complete bodyPhrase (fun token member => readable token (by simp [member])) ends
    have mark : (optional ":" (nothing ()) (colon :: (inside ++ rest))).Gives (some ())
        (inside ++ rest) :=
      optional_gives.mpr (.inl ⟨colon, _, (), colons, rfl, nothing_gives.mpr ⟨rfl, rfl⟩, rfl⟩)
    exact cases_default word mark readBody
  | @Cases.bareDefault start inside body word bodyPhrase, readable, rest, ends => by
    have readBody : (block (inside ++ rest)).Gives body rest :=
      block_complete bodyPhrase (fun token member => readable token (by simp [member])) ends
    have absent : startsWith ":" (inside ++ rest) = false :=
      (bodyPhrase.begins (fun token member => (readable token (by simp [member])).genuine)
        ends).startsWith
        (by decide)
    have mark : (optional ":" (nothing ()) (inside ++ rest)).Gives none (inside ++ rest) :=
      optional_gives.mpr (.inr ⟨absent, rfl, rfl⟩)
    exact cases_default word mark readBody

end

/-! ## Programs -/

/-- A derived global is read, whatever stands behind it. -/
theorem globalDef_complete {tree : GlobalDef .bare} (phrase : Global segment tree)
    (readable : ∀ token ∈ segment, token.Readable) :
    (globalDef (segment ++ rest)).Gives tree rest := by
  cases phrase with
  | @list start name equals opening closing stop type inside element elements word kind typed
      assigns opens phrase closes closed =>
    have shape : start :: name :: type ++ equals :: opening :: inside ++ [closing, stop] ++ rest =
        start :: name :: (type ++ equals :: opening :: (inside ++ closing :: stop :: rest)) := by
      simp
    have readType : (optionalType
        (type ++ equals :: opening :: (inside ++ closing :: stop :: rest))).Gives element
        (equals :: opening :: (inside ++ closing :: stop :: rest)) :=
      optionalType_complete typed (.cons (by rw [assigns]; decide))
    have within : ∀ token ∈ inside, token.Readable :=
      fun token member => readable token (by simp [member])
    have readItems : (items closing.text (inside ++ closing :: stop :: rest)).Gives elements
        (stop :: rest) :=
      items_complete phrase within (by simp [closes])
    have filled : ¬ startsWith "]" (inside ++ closing :: stop :: rest) = true := by
      obtain ⟨token, others, rfl, free⟩ := phrase.begins (genuine_of_readable within)
      have other := Clear.startsWith (Clear.cons free : Clear stops (token :: others))
        (by decide : "]" ∈ stops)
      simpa [startsWith] using other
    rw [closes] at readItems
    rw [shape]
    simp only [globalDef, word, ↓reduceIte, behind_gives]
    refine Reading.Gives.andThen ?_ (word_reads closed).giving
    refine (identifier_reads kind).andThen (readType.andThen ?_)
    refine (word_reads assigns).andThen ((word_reads opens).andThen ?_)
    rw [if_neg filled]
    exact readItems.map
  | @mutable start name stop type value typeName tree word kind typed given closed =>
    have shape : start :: name :: type ++ value ++ [stop] ++ rest =
        start :: name :: (type ++ (value ++ stop :: rest)) := by
      simp
    have readValue : (optional "=" expression (value ++ stop :: rest)).Gives tree (stop :: rest) :=
      optionalValue_complete given (fun token member => readable token (by simp [member]))
        (.cons (by rw [closed]; decide))
    have readType : (optionalType (type ++ (value ++ stop :: rest))).Gives typeName
        (value ++ stop :: rest) :=
      optionalType_complete typed (given.endsType closed)
    rw [shape]
    simp only [globalDef, word, String.reduceEq, ↓reduceIte, behind_gives]
    refine Reading.Gives.andThen ?_ (word_reads closed).giving
    exact (identifier_reads kind).andThen (readType.andThen readValue.map)
  | @immutable start name equals stop type value typeName tree word kind typed assigns phrase
      closed =>
    have shape : start :: name :: type ++ equals :: value ++ [stop] ++ rest =
        start :: name :: (type ++ equals :: (value ++ stop :: rest)) := by
      simp
    have readType : (optionalType (type ++ equals :: (value ++ stop :: rest))).Gives typeName
        (equals :: (value ++ stop :: rest)) :=
      optionalType_complete typed (.cons (by rw [assigns]; decide))
    have readValue : (expression (value ++ stop :: rest)).Gives tree (stop :: rest) :=
      expression_complete phrase (fun token member => readable token (by simp [member]))
        (.stop (by rw [closed]; decide))
    rw [shape]
    simp only [globalDef, word, String.reduceEq, ↓reduceIte, behind_gives]
    refine Reading.Gives.andThen ?_ (word_reads closed).giving
    refine (identifier_reads kind).andThen (readType.andThen ?_)
    exact (wordAs_reads assigns).andThen readValue.map

/-- A derived parameter is read, when nothing behind it continues its type. -/
theorem parameter_complete {tree : String × Option String} (phrase : Parameter segment tree)
    (clear : Clear ["<", ":"] rest) : (parameter (segment ++ rest)).Gives tree rest := by
  obtain ⟨kind, typed⟩ := phrase
  rw [parameter]
  exact (identifier_reads kind).andThen (optionalType_complete typed clear).map

/-- Derived parameters are read up to the closing parenthesis. -/
theorem parameters_complete {trees : List (String × Option String)}
    (phrase : Parameters segment trees) :
    ∀ {mark rest}, mark.text = ")" → (parameters (segment ++ mark :: rest)).Gives trees rest := by
  induction phrase with
  | @last segment tree only =>
    intro mark rest closes
    have first : (parameter (segment ++ mark :: rest)).Gives tree (mark :: rest) :=
      parameter_complete only (.cons (by rw [closes]; decide))
    rw [parameters]
    refine first.andThen ?_
    simp [moreParameters, closes]
  | @more segment others comma tree trees only separates _ inductionHypothesis =>
    intro mark rest closes
    have first : (parameter (segment ++ comma :: (others ++ mark :: rest))).Gives tree
        (comma :: (others ++ mark :: rest)) :=
      parameter_complete only (.cons (by rw [separates]; decide))
    have other : ¬ comma.text = ")" := by simp [separates]
    rw [List.append_assoc, List.cons_append, parameters]
    refine first.andThen (Reading.Gives.map ?_)
    rw [moreParameters, if_neg other, if_pos separates, behind_gives]
    exact inductionHypothesis closes

/-- A parameter begins with its name, which is no mark. -/
theorem parameterList_complete {mark : Token} {trees : List (String × Option String)}
    (phrase : ParameterList segment trees) (genuine : ∀ token ∈ segment, token.Genuine)
    (closes : mark.text = ")") :
    (parameterList (segment ++ mark :: rest)).Gives trees rest := by
  cases phrase with
  | none => simp [parameterList, closes]
  | some listed =>
    have read : (parameters (segment ++ mark :: rest)).Gives trees rest :=
      parameters_complete listed closes
    have named : ∃ token others, segment = token :: others ∧ token.kind = .identifier := by
      cases listed with
      | last only =>
        obtain ⟨kind, _⟩ := only
        exact ⟨_, _, rfl, kind⟩
      | more first _ _ =>
        obtain ⟨kind, _⟩ := first
        exact ⟨_, _, rfl, kind⟩
    obtain ⟨token, others, rfl, kind⟩ := named
    have other : ¬ token.text = ")" := by
      intro same
      have free := (genuine token (by simp)).text_notMem_marks (by simp [kind])
      exact free (same ▸ by decide)
    rw [List.cons_append, parameterList, if_neg other]
    exact read

/-- A derived function is read, whatever stands behind it. -/
theorem functionDef_complete {tree : FunctionDef .bare} (phrase : Function segment tree)
    (readable : ∀ token ∈ segment, token.Readable) :
    (functionDef (segment ++ rest)).Gives tree rest := by
  cases phrase with
  | @mk start name opening closing begin stop inside type body parameters result statements word
      kind opens listed closes typed begins bodyPhrase closed =>
    have shape : start :: name :: opening :: inside ++ closing :: type ++ begin :: body ++ [stop] ++
        rest = start :: name :: opening :: (inside ++ closing ::
          (type ++ begin :: (body ++ stop :: rest))) := by
      simp
    have readParameters : (parameterList
        (inside ++ closing :: (type ++ begin :: (body ++ stop :: rest)))).Gives parameters
        (type ++ begin :: (body ++ stop :: rest)) :=
      parameterList_complete listed
        (fun token member => (readable token (by simp [member])).genuine) closes
    have readType : (optionalType (type ++ begin :: (body ++ stop :: rest))).Gives result
        (begin :: (body ++ stop :: rest)) :=
      optionalType_complete typed (.cons (by rw [begins]; decide))
    have readBody : (block (body ++ stop :: rest)).Gives statements (stop :: rest) :=
      block_complete bodyPhrase (fun token member => readable token (by simp [member]))
        (.cons (by rw [closed]; decide))
    rw [shape, functionDef]
    refine (word_reads word).andThen ((identifier_reads kind).andThen ?_)
    refine (word_reads opens).andThen (readParameters.andThen (readType.andThen ?_))
    exact (word_reads begins).andThen (readBody.andThen (word_reads closed).giving)

/-- A derived sequence of globals is read, when no further global follows. -/
theorem globals_complete {trees : List (GlobalDef .bare)}
    (phrases : Sequence Global segment trees) :
    (∀ token ∈ segment, token.Readable) → ∀ {rest}, Clear globalStarts rest →
      (globals (segment ++ rest)).Gives trees rest := by
  induction phrases with
  | empty =>
    intro _ rest clear
    cases rest with
    | nil => simp [globals]
    | cons token others =>
      have stops : ¬ globalStarts.contains token.text = true := by
        intro starts
        exact clear token rfl (List.contains_iff_mem.mp starts)
      rw [List.nil_append, globals, if_neg stops]
      exact nothing_gives.mpr ⟨rfl, rfl⟩
  | @cons first others tree trees phrase _ inductionHypothesis =>
    intro readable rest clear
    have read : (globalDef (first ++ (others ++ rest))).Gives tree (others ++ rest) :=
      globalDef_complete phrase fun token member => readable token (by simp [member])
    have further : (globals (others ++ rest)).Gives trees rest :=
      inductionHypothesis (fun token member => readable token (by simp [member])) clear
    have starts : ∃ token more, first = token :: more ∧ token.text ∈ globalStarts := by
      cases phrase with
      | list word => exact ⟨_, _, rfl, by rw [word]; decide⟩
      | mutable word => exact ⟨_, _, rfl, by rw [word]; decide⟩
      | immutable word => exact ⟨_, _, rfl, by rw [word]; decide⟩
    obtain ⟨token, more, rfl, member⟩ := starts
    rw [List.append_assoc]
    rw [List.cons_append] at read ⊢
    rw [globals, if_pos (List.contains_iff_mem.mpr member), lax_gives]
    exact read.andThen further.map

/-- A derived sequence of functions is read to the end of the tokens. -/
theorem functions_complete {trees : List (FunctionDef .bare)}
    (phrases : Sequence Function segment trees) :
    (∀ token ∈ segment, token.Readable) → (functions segment).Gives trees [] := by
  induction phrases with
  | empty => simp [functions]
  | @cons first others tree trees phrase _ inductionHypothesis =>
    intro readable
    have read : (functionDef (first ++ others)).Gives tree others :=
      functionDef_complete phrase fun token member => readable token (by simp [member])
    have further := inductionHypothesis fun token member => readable token (by simp [member])
    have starts : ∃ token more, first = token :: more ∧ token.text = "FUN" := by
      obtain ⟨word⟩ := phrase
      exact ⟨_, _, rfl, word⟩
    obtain ⟨token, more, rfl, word⟩ := starts
    rw [List.cons_append] at read ⊢
    rw [functions, if_pos word, lax_gives]
    exact read.andThen further.map

/-- A program that derives is read, all of it. -/
theorem program_complete {tree : Blockscript.Program .bare} (phrase : Phrase.Program tokens tree)
    (readable : ∀ token ∈ tokens, token.Readable) : (program tokens).Gives tree [] := by
  obtain ⟨front, back⟩ := phrase
  have next : ∀ {segment trees}, Sequence Function segment trees → Clear globalStarts segment := by
    intro segment trees functions
    cases functions with
    | empty => simp [Clear]
    | cons first _ =>
      obtain ⟨word⟩ := first
      exact .cons (by rw [word]; decide)
  rw [program]
  refine (globals_complete front (fun token member => readable token (by simp [member]))
    (next back)).andThen ?_
  refine (functions_complete back fun token member => readable token (by simp [member])).andThen ?_
  exact Reading.Gives.giving (nothing_gives.mpr ⟨rfl, rfl⟩)

end Blockscript.Grammar
