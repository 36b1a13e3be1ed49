import Blockscript.Operator

/-!
# How Java reads operators

Java's expressions as trees, and the reading of words as such a tree. Operators come
in six levels, each associating to the left; everything that is enclosed in marks is
one operand. A reader goes through the words once. It keeps the levels that are still
open, and it attaches an operand where the operators before it allow.

The reader is characterised by what it gives: a tree that keeps all words in their
order and in which no operator stands above a looser one. There is one such tree at
most.
-/

namespace Blockscript.Java

/-- The binary operators by level, loosest first. -/
def levels : List (List String) :=
  [["||"], ["&&"], ["==", "!="], ["<", ">"], ["+", "-"], ["*", "/"]]

/-- The level of an operator. The higher the level is, the tighter the operator binds. -/
def rank (operator : String) : Nat :=
  levels.findIdx (·.contains operator)

/-- What opens an operand in marks. -/
inductive Opening where
  | group
  | braces
  | index (name : String)
  | call (name : String)
deriving DecidableEq

namespace Opening

/-- The mark that closes what has been opened. -/
def closing : Opening → Char
  | group => ')'
  | braces => '}'
  | index _ => ']'
  | call _ => ')'

/-- Whether so many expressions may stand inside. -/
def admits : Opening → Nat → Bool
  | group, count | index _, count => count = 1
  | braces, _ | call _, _ => true

end Opening

/-- Expressions as Java groups them. -/
inductive Tree where
  | operand (text : String)
  | operation (operator : String) (left right : Tree)
  | enclosed (opening : Opening) (items : List Tree)

/-- What an expression is made of. A name that opens something belongs to its mark. -/
inductive Word where
  | operand (text : String)
  | operator (text : String)
  | opening (opening : Opening)
  | comma
  | closing (mark : Char)
deriving DecidableEq

namespace Tree

mutual

/-- The words of a tree, in their order. -/
def words : Tree → List Word
  | operand text => [.operand text]
  | operation operator left right => left.words ++ .operator operator :: right.words
  | enclosed opening items => .opening opening :: separated items ++ [.closing opening.closing]

/-- The words of trees with commas between them. -/
def separated : List Tree → List Word
  | [] => []
  | first :: rest => first.words ++ further rest

/-- The words of trees with a comma before each. -/
def further : List Tree → List Word
  | [] => []
  | first :: rest => .comma :: first.words ++ further rest

end

/-- How tightly a tree holds together: an operation as its operator binds, anything
else more than any operator. -/
def rank : Tree → Nat
  | operation operator _ _ => Java.rank operator
  | operand _ | enclosed _ _ => levels.length + 1

/-- No operator stands above a looser one, nor to the left of one of its own level. -/
inductive Grouped : Tree → Prop where
  | operand {text : String} : Grouped (.operand text)
  | operation {operator : String} {left right : Tree} :
      Grouped left → Grouped right → Java.rank operator ≤ left.rank →
      Java.rank operator < right.rank → Grouped (.operation operator left right)
  | enclosed {opening : Opening} {items : List Tree} :
      opening.admits items.length = true → (∀ item ∈ items, Grouped item) →
      Grouped (.enclosed opening items)

/-- An operation is grouped when its operands are, the left one binds no looser than it, and the
right one tighter. -/
@[simp] theorem grouped_operation {operator : String} {left right : Tree} :
    (Tree.operation operator left right).Grouped ↔
      left.Grouped ∧ right.Grouped ∧ Java.rank operator ≤ left.rank ∧
        Java.rank operator < right.rank := by
  constructor
  · intro grouped
    cases grouped with
    | operation leftGrouped rightGrouped leftTight rightTight =>
      exact ⟨leftGrouped, rightGrouped, leftTight, rightTight⟩
  · rintro ⟨leftGrouped, rightGrouped, leftTight, rightTight⟩
    exact .operation leftGrouped rightGrouped leftTight rightTight

/-- What is enclosed is grouped when there are as many items as fit, all of them grouped. -/
@[simp] theorem grouped_enclosed {opening : Opening} {items : List Tree} :
    (Tree.enclosed opening items).Grouped ↔
      opening.admits items.length = true ∧ ∀ item ∈ items, item.Grouped := by
  constructor
  · intro grouped
    cases grouped with
    | enclosed admitted inside => exact ⟨admitted, inside⟩
  · rintro ⟨admitted, inside⟩
    exact .enclosed admitted inside

/-- Puts an operator and an operand behind a tree. The operands on the right of looser
operators become operands of the new one. -/
def attach : Tree → String → Tree → Tree
  | operation outer left right, operator, behind =>
    if Java.rank outer < Java.rank operator then
      operation outer left (right.attach operator behind)
    else
      operation operator (operation outer left right) behind
  | tree, operator, behind => operation operator tree behind

variable {tree left right : Tree} {operator tighter : String}

/-- A tree without an operator on top is at least as tight as any operator. -/
theorem le_rank (plain : ∀ outer left right, tree = .operation outer left right → False) :
    Java.rank operator ≤ tree.rank := by
  cases tree with
  | operation outer left right => exact (plain outer left right rfl).elim
  | operand text => exact Nat.le_succ_of_le List.findIdx_le_length
  | enclosed opening items => exact Nat.le_succ_of_le List.findIdx_le_length

/-- Attaching keeps the words. -/
theorem words_attach : (tree.attach operator right).words =
    tree.words ++ .operator operator :: right.words := by
  fun_induction attach tree operator right with
  | case1 outer left inner operator behind looser inductionHypothesis =>
    rw [words, inductionHypothesis, words]
    simp
  | case2 outer left inner operator behind closed => rw [words]
  | case3 tree operator behind plain => rw [words]

/-- An operator that is not tighter than a tree goes on top. -/
theorem attach_of_le (loose : Java.rank operator ≤ left.rank) :
    left.attach operator right = .operation operator left right := by
  cases left with
  | operation outer front inner => exact if_neg (Nat.not_lt.mpr loose)
  | operand text => simp [attach]
  | enclosed opening items => simp [attach]

/-- A tighter operator behind an operand takes the operand alone. -/
theorem attach_attach (tight : Java.rank operator < Java.rank tighter) :
    (tree.attach operator left).attach tighter right =
      tree.attach operator (left.attach tighter right) := by
  fun_induction attach tree operator left with
  | case1 outer front inner operator behind looser inductionHypothesis =>
    rw [attach, if_pos (Nat.lt_trans looser tight), inductionHypothesis tight, attach,
      if_pos looser]
  | case2 outer front inner operator behind closed =>
    rw [attach, if_pos tight, attach, if_neg closed]
  | case3 tree operator behind plain =>
    rw [attach, if_pos tight, attach_of_le (le_rank plain)]

/-- What is looser than a tree and an operator is looser than the two together. -/
theorem lt_rank_attach {bound : Nat} (below : bound < tree.rank)
    (loose : bound < Java.rank operator) : bound < (tree.attach operator right).rank := by
  fun_cases attach tree operator right with
  | case1 outer front inner looser => exact below
  | case2 outer front inner closed => exact loose
  | case3 plain => exact loose

/-- Attaching what is tighter than the operator keeps a tree grouped. -/
theorem Grouped.attach (grouped : tree.Grouped) (behind : right.Grouped)
    (tight : Java.rank operator < right.rank) : (tree.attach operator right).Grouped := by
  fun_induction Tree.attach tree operator right with
  | case1 outer front inner operator behind looser inductionHypothesis =>
    cases grouped with
    | operation frontGrouped innerGrouped frontTight innerTight =>
      exact .operation frontGrouped (inductionHypothesis innerGrouped ‹_› tight) frontTight
        (lt_rank_attach innerTight looser)
  | case2 outer front inner operator right closed =>
    exact .operation grouped behind (Nat.not_lt.mp closed) tight
  | case3 tree operator right plain =>
    exact .operation grouped behind (le_rank plain) tight

end Tree

/-! ## The reader -/

/-- How far an expression has been read. -/
inductive Reached where
  | start
  | operand (tree : Tree)
  | pending (left : Tree) (operator : String)

/-- Expressions with commas between them, as far as they have been read. -/
structure Row where
  items : List Tree
  reached : Reached

/-- The row being read, and the rows around it that are still open, each with what
opened the next one. -/
structure Reader where
  row : Row
  outer : List (Row × Opening)

/-- The row before its first expression. -/
def Row.empty : Row :=
  ⟨[], .start⟩

/-- The reader before the first word. -/
def Reader.initial : Reader :=
  ⟨.empty, []⟩

/-- The expressions of a row that is complete. -/
def Row.items? : Row → Option (List Tree)
  | ⟨[], .start⟩ => some []
  | ⟨items, .operand last⟩ => some (items ++ [last])
  | _ => none

/-- Puts an operand where an operand has to stand. -/
def Reached.put : Reached → Tree → Option Reached
  | start, tree => some (.operand tree)
  | pending left operator, tree => some (.operand (left.attach operator tree))
  | operand _, _ => none

namespace Reader

/-- Goes on in the innermost row. -/
def inRow (reader : Reader) (reached : Reached) : Reader :=
  { reader with row := { reader.row with reached := reached } }

/-- Puts an operand into the innermost row. -/
def put (reader : Reader) (tree : Tree) : Option Reader :=
  (reader.row.reached.put tree).map reader.inRow

/-- Leaves the innermost row, which becomes an operand of the row around it. -/
def leave (reader : Reader) (mark : Char) : Option Reader :=
  match reader.outer, reader.row.items? with
  | (row, opening) :: outer, some items =>
    if opening.closing = mark ∧ opening.admits items.length then
      put ⟨row, outer⟩ (.enclosed opening items)
    else
      none
  | _, _ => none

/-- Reads a word. -/
def read (reader : Reader) : Word → Option Reader
  | .operand text => reader.put (.operand text)
  | .operator operator =>
    match reader.row.reached with
    | .operand left => some (reader.inRow (.pending left operator))
    | _ => none
  | .opening opening =>
    match reader.row.reached with
    | .operand _ => none
    | _ => some ⟨.empty, (reader.row, opening) :: reader.outer⟩
  | .comma =>
    match reader.row.reached with
    | .operand last => some { reader with row := ⟨reader.row.items ++ [last], .start⟩ }
    | _ => none
  | .closing mark => reader.leave mark

/-- The expression of a reader that has reached the end. -/
def tree? : Reader → Option Tree
  | ⟨⟨[], .operand tree⟩, []⟩ => some tree
  | _ => none

end Reader

/-- The expression that words are read as. -/
def readWords (words : List Word) : Option Tree :=
  (words.foldlM Reader.read .initial).bind Reader.tree?

/-! ## Reading keeps the words -/

namespace Tree

/-- One more expression behind others with their commas. -/
theorem separated_append (items : List Tree) (last : Tree) :
    separated (items ++ [last]) = items.flatMap (fun item => item.words ++ [.comma]) ++
      last.words := by
  have behind : ∀ items : List Tree, further (items ++ [last]) =
      .comma :: items.flatMap (fun item => item.words ++ [.comma]) ++ last.words := by
    intro items
    induction items with
    | nil => simp [further]
    | cons first rest inductionHypothesis => simp [further, inductionHypothesis]
  cases items with
  | nil => simp [separated, further]
  | cons first rest => simp [separated, behind]

end Tree

/-- The words that have been read. -/
def Reached.words : Reached → List Word
  | start => []
  | operand tree => tree.words
  | pending left operator => left.words ++ [.operator operator]

/-- The words of a row. -/
def Row.words (row : Row) : List Word :=
  row.items.flatMap (fun item => item.words ++ [.comma]) ++ row.reached.words

/-- The words of open rows, the innermost of which comes first. -/
def openWords : List (Row × Opening) → List Word
  | [] => []
  | (row, opening) :: outer => openWords outer ++ row.words ++ [.opening opening]

/-- The words that a reader has read. -/
def Reader.words (reader : Reader) : List Word :=
  openWords reader.outer ++ reader.row.words

/-- All expressions that are read are grouped. -/
def Reached.Grouped : Reached → Prop
  | start => True
  | operand tree | pending tree _ => tree.Grouped

/-- All expressions of a row are grouped. -/
structure Row.Grouped (row : Row) : Prop where
  items : ∀ item ∈ row.items, item.Grouped
  reached : row.reached.Grouped

/-- All expressions of a reader are grouped. -/
structure Reader.Grouped (reader : Reader) : Prop where
  row : reader.row.Grouped
  outer : ∀ level ∈ reader.outer, level.1.Grouped

/-- The items of a row that is complete have its words with commas between them, and are grouped
when it is. -/
theorem Row.items?_sound {row : Row} {items : List Tree} (complete : row.items? = some items) :
    row.words = Tree.separated items ∧ (row.Grouped → ∀ item ∈ items, item.Grouped) := by
  unfold Row.items? at complete
  split at complete
  · cases complete
    exact ⟨rfl, fun _ => by simp⟩
  · next front last =>
    cases complete
    refine ⟨(Tree.separated_append front last).symm, ?_⟩
    intro grouped item member
    rcases List.mem_append.mp member with earlier | final
    · exact grouped.items item earlier
    · rw [List.mem_singleton.mp final]
      exact grouped.reached
  · cases complete

namespace Reader

variable {reader next : Reader} {word : Word} {tree : Tree}

/-- An operand that is tighter than any operator is put behind the words. -/
theorem put_sound (operand : tree.rank = levels.length + 1)
    (put : reader.put tree = some next) :
    next.words = reader.words ++ tree.words ∧
      (reader.Grouped → tree.Grouped → next.Grouped) := by
  obtain ⟨⟨items, reached⟩, outer⟩ := reader
  obtain ⟨placed, fits, rfl⟩ := Option.map_eq_some_iff.mp put
  cases reached with
  | start =>
    cases fits
    refine ⟨by simp [words, Row.words, inRow, Reached.words], ?_⟩
    intro grouped treeGrouped
    exact ⟨⟨grouped.row.items, treeGrouped⟩, grouped.outer⟩
  | operand left => cases fits
  | pending left operator =>
    cases fits
    refine ⟨by simp [words, Row.words, inRow, Reached.words, Tree.words_attach], ?_⟩
    intro grouped treeGrouped
    refine ⟨⟨grouped.row.items, ?_⟩, grouped.outer⟩
    refine Tree.Grouped.attach grouped.row.reached treeGrouped ?_
    rw [operand]
    exact Nat.lt_succ_of_le List.findIdx_le_length

/-- Leaving what is open adds the closing mark to the words, and keeps what is grouped. -/
theorem leave_sound {mark : Char} (left : reader.leave mark = some next) :
    next.words = reader.words ++ [.closing mark] ∧ (reader.Grouped → next.Grouped) := by
  obtain ⟨row, outer⟩ := reader
  unfold leave at left
  split at left
  · next around opening further items same complete =>
    split at left
    · next closes =>
      obtain ⟨rfl, admitted⟩ := closes
      obtain ⟨kept, inside⟩ := Row.items?_sound complete
      obtain ⟨keeps, groups⟩ := put_sound rfl left
      dsimp only at same kept
      subst same
      refine ⟨?_, ?_⟩
      · rw [keeps]
        simp [words, openWords, Tree.words, kept]
      · intro grouped
        refine groups ⟨grouped.outer (around, opening) (by simp), ?_⟩
          (.enclosed admitted (inside grouped.row))
        intro level member
        exact grouped.outer level (by simp [member])
    · cases left
  · cases left

/-- A word that is read stands behind the words before it. -/
theorem read_sound (read : reader.read word = some next) :
    next.words = reader.words ++ [word] ∧ (reader.Grouped → next.Grouped) := by
  cases word with
  | operand text =>
    obtain ⟨keeps, groups⟩ := put_sound rfl read
    exact ⟨keeps, fun grouped => groups grouped .operand⟩
  | operator operator =>
    obtain ⟨⟨items, reached⟩, outer⟩ := reader
    cases reached with
    | operand left =>
      cases read
      refine ⟨by simp [words, Row.words, inRow, Reached.words], ?_⟩
      intro grouped
      exact ⟨⟨grouped.row.items, grouped.row.reached⟩, grouped.outer⟩
    | start => cases read
    | pending left other => cases read
  | opening opening =>
    obtain ⟨row, outer⟩ := reader
    simp only [Reader.read] at read
    split at read
    · cases read
    · cases read
      refine ⟨by simp [words, openWords, Row.empty, Row.words, Reached.words], ?_⟩
      intro grouped
      refine ⟨⟨by simp [Row.empty], trivial⟩, ?_⟩
      intro level member
      rcases List.mem_cons.mp member with rfl | further
      · exact grouped.row
      · exact grouped.outer level further
  | comma =>
    obtain ⟨⟨items, reached⟩, outer⟩ := reader
    cases reached with
    | operand last =>
      cases read
      refine ⟨by simp [words, Row.words, Reached.words], ?_⟩
      intro grouped
      refine ⟨⟨?_, trivial⟩, grouped.outer⟩
      intro item member
      rcases List.mem_append.mp member with earlier | final
      · exact grouped.row.items item earlier
      · rw [List.mem_singleton.mp final]
        exact grouped.row.reached
    | start => cases read
    | pending left other => cases read
  | closing mark => exact leave_sound read

/-- A run over words keeps all of them. -/
theorem foldlM_sound {words : List Word} {reader last : Reader}
    (run : words.foldlM Reader.read reader = some last) :
    last.words = reader.words ++ words ∧ (reader.Grouped → last.Grouped) := by
  induction words generalizing reader with
  | nil =>
    cases run
    exact ⟨(List.append_nil _).symm, id⟩
  | cons word rest inductionHypothesis =>
    obtain ⟨next, read, further⟩ := Option.bind_eq_some_iff.mp run
    obtain ⟨keeps, groups⟩ := read_sound read
    obtain ⟨keepsRest, groupsRest⟩ := inductionHypothesis further
    refine ⟨?_, groupsRest ∘ groups⟩
    rw [keepsRest, keeps, List.append_assoc]
    rfl

end Reader

/-! ## A grouped tree is read from its words -/

/-- Whether a tree that comes next becomes one operand: it comes first, or it is
tighter than the operator before it. -/
def Reached.Fits : Reached → Tree → Prop
  | start, _ => True
  | operand _, _ => False
  | pending _ operator, tree => rank operator < tree.rank

/-- A row behind its last expression is complete. -/
theorem Row.items?_operand (items : List Tree) (last : Tree) :
    Row.items? ⟨items, .operand last⟩ = some (items ++ [last]) := by
  cases items with
  | nil => rfl
  | cons first rest => rfl

mutual

/-- The words of a grouped tree are read as one operand. -/
theorem Tree.reads : ∀ {tree : Tree}, tree.Grouped → ∀ {reader : Reader},
    reader.row.reached.Fits tree → tree.words.foldlM Reader.read reader = reader.put tree
  | .operand text, _, reader, _ => by
    simp [Tree.words, Reader.read]
  | .operation operator left right, .operation leftGrouped rightGrouped leftTight rightTight,
      ⟨⟨items, reached⟩, outer⟩, fits => by
    have leftFits : reached.Fits left := by
      cases reached with
      | start => trivial
      | operand other => exact fits
      | pending other before => exact Nat.lt_of_lt_of_le fits leftTight
    rw [Tree.words, List.foldlM_append, Tree.reads leftGrouped leftFits]
    -- The right operand goes to the operator alone, which no looser one before it changes.
    cases reached with
    | start =>
      simp only [Reader.put, Reached.put, Option.map_some, Reader.inRow, List.foldlM_cons,
        Reader.read, Option.bind_eq_bind, Option.bind_some]
      rw [@Tree.reads right rightGrouped ⟨⟨items, .pending left operator⟩, outer⟩ rightTight]
      simp [Reader.put, Reached.put, Reader.inRow, Tree.attach_of_le leftTight]
    | operand other => exact fits.elim
    | pending other before =>
      simp only [Reader.put, Reached.put, Option.map_some, Reader.inRow, List.foldlM_cons,
        Reader.read, Option.bind_eq_bind, Option.bind_some]
      rw [@Tree.reads right rightGrouped
        ⟨⟨items, .pending (other.attach before left) operator⟩, outer⟩ rightTight]
      simp [Reader.put, Reached.put, Reader.inRow, Tree.attach_attach fits,
        Tree.attach_of_le leftTight]
  | .enclosed opening items, .enclosed admitted inside, ⟨row, outer⟩, fits => by
    obtain ⟨last, run, complete⟩ := Tree.separated_reads items inside ((row, opening) :: outer)
    have opens : Reader.read ⟨row, outer⟩ (.opening opening) =
        some ⟨.empty, (row, opening) :: outer⟩ := by
      cases same : row.reached with
      | operand other => exact (same ▸ fits : Reached.Fits (.operand other) _).elim
      | _ => simp [Reader.read, same]
    simp only [Tree.words, List.cons_append, List.foldlM_cons, List.foldlM_append, opens,
      Option.bind_eq_bind, Option.bind_some, run]
    simp [Reader.read, Reader.leave, complete, admitted]

/-- The words of grouped trees with commas are read as a row. -/
theorem Tree.separated_reads : ∀ items : List Tree, (∀ item ∈ items, item.Grouped) →
    ∀ outer, ∃ row, (Tree.separated items).foldlM Reader.read ⟨.empty, outer⟩ = some ⟨row, outer⟩ ∧
      row.items? = some items
  | [], _, outer => ⟨.empty, rfl, rfl⟩
  | first :: rest, grouped, outer => by
    have start : first.words.foldlM Reader.read ⟨.empty, outer⟩ =
        some ⟨⟨[], .operand first⟩, outer⟩ :=
      Tree.reads (grouped first (by simp)) trivial
    obtain ⟨row, run, complete⟩ := Tree.further_reads rest
      (fun item member => grouped item (by simp [member])) [] first outer
    refine ⟨row, ?_, complete⟩
    simp only [Tree.separated, List.foldlM_append, start, Option.bind_eq_bind, Option.bind_some,
      run]

/-- The words of further items are read behind a first one, and are those items again. -/
theorem Tree.further_reads : ∀ items : List Tree, (∀ item ∈ items, item.Grouped) →
    ∀ before last outer, ∃ row,
      (Tree.further items).foldlM Reader.read ⟨⟨before, .operand last⟩, outer⟩ =
        some ⟨row, outer⟩ ∧ row.items? = some (before ++ last :: items)
  | [], _, before, last, outer => ⟨_, rfl, Row.items?_operand before last⟩
  | first :: rest, grouped, before, last, outer => by
    have next : first.words.foldlM Reader.read ⟨⟨before ++ [last], .start⟩, outer⟩ =
        some ⟨⟨before ++ [last], .operand first⟩, outer⟩ :=
      Tree.reads (grouped first (by simp)) trivial
    obtain ⟨row, run, complete⟩ := Tree.further_reads rest
      (fun item member => grouped item (by simp [member])) (before ++ [last]) first outer
    refine ⟨row, ?_, by simpa using complete⟩
    simp only [Tree.further, List.cons_append, List.foldlM_cons, List.foldlM_append, Reader.read,
      Option.bind_eq_bind, Option.bind_some, next, run]

end

/-- Words are read as a tree exactly when they are its words and it is grouped. -/
theorem readWords_iff {words : List Word} {tree : Tree} :
    readWords words = some tree ↔ tree.Grouped ∧ tree.words = words := by
  constructor
  · intro read
    obtain ⟨⟨⟨items, reached⟩, outer⟩, run, ends⟩ := Option.bind_eq_some_iff.mp read
    obtain ⟨keeps, groups⟩ := Reader.foldlM_sound run
    unfold Reader.tree? at ends
    split at ends
    · next same =>
      cases same
      cases ends
      refine ⟨(groups ⟨⟨by simp [Reader.initial, Row.empty], trivial⟩, ?_⟩).row.reached, ?_⟩
      · simp [Reader.initial]
      · simpa [Reader.words, Row.words, openWords, Reader.initial, Row.empty, Reached.words]
          using keeps
    · cases ends
  · rintro ⟨grouped, rfl⟩
    have run : tree.words.foldlM Reader.read .initial =
        some ⟨⟨[], .operand tree⟩, []⟩ :=
      Tree.reads grouped trivial
    rw [readWords, run]
    rfl

/-- What words are read as is the only grouped tree with these words. -/
theorem Tree.Grouped.unique {first second : Tree} (grouped : first.Grouped)
    (groupedToo : second.Grouped) (same : first.words = second.words) : first = second := by
  have firstRead := readWords_iff.mpr ⟨grouped, rfl⟩
  have secondRead := readWords_iff.mpr ⟨groupedToo, same.symm⟩
  exact Option.some.inj (firstRead.symm.trans secondRead)

end Blockscript.Java
