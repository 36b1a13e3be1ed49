import Blockscript.Proofs.Java.Wording
import Blockscript.Proofs.Typing.Programs

/-!
# Emitted expressions keep their structure

The language has one level for `&&` and `||` where Java has two, and one for comparisons
where Java has two. For comparisons this makes no difference, since no comparison has
operands that are comparisons themselves: truth values are not ordered. For `&&` and
`||` it does: a disjunction to the left of `&&` is emitted without parentheses, and Java
gives its right operand to `&&`. This and hyphens in names are the only ways in which
Java reads an emitted expression as another one.
-/

namespace Blockscript.Java

variable {ν : Notes}

/-- A conjunction with a bare disjunction on its left. -/
def Regrouped : Expr ν → Prop
  | .binary _ operator left _ => operator = "&&" ∧ left.operator? = some "||"
  | _ => False

/-- The operators that compare. -/
def comparisons : List String :=
  ["<", ">", "==", "!="]

/-- A comparison with a bare comparison on its left. -/
def Stacked : Expr ν → Prop
  | .binary _ operator left _ =>
    operator ∈ comparisons ∧ ∃ other ∈ comparisons, left.operator? = some other
  | _ => False

/-! ## Typed expressions have no comparison of comparisons -/

/-- A comparison is of truth value, and its left operand is not. -/
theorem comparison_typed {operator : String} {left right type : Ty}
    (comparison : operator ∈ comparisons)
    (typed : Typing.binaryType operator left right = .ok type) :
    type = .boolean ∧ Ty.comparable.isAssignable left = true := by
  simp only [comparisons, List.mem_cons, List.not_mem_nil, or_false] at comparison
  have passes : Typing.comparisonType left right = .ok type := by
    rcases comparison with rfl | rfl | rfl | rfl <;> exact typed
  obtain ⟨boolean, _, comparable⟩ := Typing.comparisonType_ok.mp passes
  exact ⟨boolean, comparable⟩

/-- Nowhere in a typed expression is a comparison compared without parentheses. -/
theorem typed_not_stacked {seen : Scopes → Expr .checked → Prop} {scopes : Scopes}
    {tree : Expr .checked} (typed : ExprTyped seen scopes tree) :
    tree.Every fun inner => ¬ Stacked inner := by
  induction typed with
  | literal _ => exact Expr.every_literal.mpr id
  | group _ inductionHypothesis => exact Expr.every_group.mpr ⟨id, inductionHypothesis⟩
  | @binary type operator left right leftTyped _ typed leftHypothesis rightHypothesis =>
    refine Expr.every_binary.mpr ⟨?_, leftHypothesis, rightHypothesis⟩
    rintro ⟨comparison, other, otherComparison, below⟩
    obtain ⟨_, comparable⟩ := comparison_typed comparison typed
    cases leftTyped with
    | binary _ _ leftTypes =>
      cases below
      obtain ⟨boolean, _⟩ := comparison_typed otherComparison leftTypes
      rw [Expr.type, boolean] at comparable
      cases comparable
    | _ => cases below
  | access _ _ => exact Expr.every_access.mpr id
  | element _ _ _ _ _ inductionHypothesis => exact Expr.every_element.mpr ⟨id, inductionHypothesis⟩
  | call _ _ _ _ _ inductionHypothesis => exact Expr.every_call.mpr ⟨id, inductionHypothesis⟩
  | list _ _ inductionHypothesis => exact Expr.every_list.mpr ⟨id, inductionHypothesis⟩

/-! ## Levels here and levels there -/

/-- How tightly Java takes what is emitted for an expression with an operator on top, or
without one. -/
def rankOf (operator? : Option String) : Nat :=
  match operator? with
  | some operator => if operator = "^" then levels.length + 1 else rank operator
  | none => levels.length + 1

/-- The tree of an expression binds as the operator on top of the expression tells. -/
theorem rank_shape (tree : Expr ν) : (shape tree).rank = rankOf tree.operator? := by
  cases tree with
  | binary type operator left right =>
    rw [shape, Expr.operator?, rankOf]
    split
    · rfl
    · rfl
  | _ => rfl

/-- The operators that an expression can have on top. -/
def tops : List (Option String) :=
  none :: Grammar.levels.flatten.map some

/-- An expression as the parser gives it has one of the operators on top, or none. -/
theorem operator?_mem_tops {tree : Expr ν} (written : Grammar.Written tree) :
    tree.operator? ∈ tops := by
  cases tree with
  | binary type operator left right => exact List.mem_cons_of_mem _ (List.mem_map_of_mem written.1)
  | _ => exact List.mem_cons_self

/-- Behind an operator Java groups as the language does. -/
theorem rank_lt_of_tier : ∀ operator ∈ Grammar.levels.flatten, operator ≠ "^" → ∀ top ∈ tops,
    Grammar.tier (some operator) < Grammar.tier top → rank operator < rankOf top := by
  decide

/-- Before an operator the two differ about comparisons of comparisons and about `||`
before `&&`. -/
theorem rank_le_iff : ∀ operator ∈ Grammar.levels.flatten, operator ≠ "^" → ∀ top ∈ tops,
    Grammar.tier (some operator) ≤ Grammar.tier top →
      ¬ (operator ∈ comparisons ∧ ∃ other ∈ comparisons, top = some other) →
      (rank operator ≤ rankOf top ↔ ¬ (operator = "&&" ∧ top = some "||")) := by
  decide

/-- The trees of expressions are taken one by one. -/
theorem shapes_eq_map (trees : List (Expr ν)) : shapes trees = trees.map shape := by
  induction trees with
  | nil => rfl
  | cons first rest inductionHypothesis => rw [shapes, inductionHypothesis, List.map_cons]

/-- Java groups an emitted expression as it is written exactly when no disjunction stands
bare to the left of `&&`. -/
theorem grouped_shape (tree : Expr ν) (written : tree.Every Grammar.Written)
    (apart : tree.Every fun inner => ¬ Stacked inner) :
    (shape tree).Grouped ↔ tree.Every fun inner => ¬ Regrouped inner := by
  induction tree using Expr.induction_parts with
  | step tree inductionHypothesis =>
    have parts : (∀ inner ∈ tree.parts, (shape inner).Grouped) ↔
        ∀ inner ∈ tree.parts, inner.Every fun inner => ¬ Regrouped inner :=
      forall₂_congr fun inner member =>
        inductionHypothesis inner member (written.part member) (apart.part member)
    rw [Expr.every_iff, ← parts]
    cases tree with
    | literal type value => simp [shape, Regrouped, Expr.parts, Tree.Grouped.operand]
    | group type inner => simp [shape, Regrouped, Expr.parts, Opening.admits]
    | binary type operator left right =>
      obtain ⟨known, leftTier, rightTier⟩ := written.here
      by_cases power : operator = "^"
      · simp [shape, power, Regrouped, Expr.parts, Opening.admits]
      · have leftWritten : left.Every Grammar.Written := written.part (by simp [Expr.parts])
        have rightWritten : right.Every Grammar.Written := written.part (by simp [Expr.parts])
        have before := rank_le_iff operator known power left.operator?
          (operator?_mem_tops leftWritten.here) leftTier apart.here
        have behind := rank_lt_of_tier operator known power right.operator?
          (operator?_mem_tops rightWritten.here) rightTier
        simp only [shape, power, ↓reduceIte, Tree.grouped_operation, rank_shape, before, behind,
          and_true, Regrouped, Expr.parts, List.forall_mem_cons]
        tauto
    | access type entry name => simp [shape, Regrouped, Expr.parts, Tree.Grouped.operand]
    | element type entry name offset => simp [shape, Regrouped, Expr.parts, Opening.admits]
    | call type routine name arguments =>
      simp [shape, shapes_eq_map, Regrouped, Expr.parts, Opening.admits]
    | list type elements => simp [shape, shapes_eq_map, Regrouped, Expr.parts, Opening.admits]

/-! ## Hyphens -/

/-- The words of each tree are among those of all, with a comma before each. -/
theorem words_further {trees : List Tree} {tree : Tree} (member : tree ∈ trees) :
    tree.words ⊆ Tree.further trees := by
  induction trees with
  | nil => cases member
  | cons first rest inductionHypothesis =>
    intro word inside
    rw [Tree.further]
    rcases List.mem_cons.mp member with rfl | later
    · simp [inside]
    · simp [inductionHypothesis later inside]

/-- The words of each tree are among those of all, with commas between them. -/
theorem words_separated {trees : List Tree} {tree : Tree} (member : tree ∈ trees) :
    tree.words ⊆ Tree.separated trees := by
  cases trees with
  | nil => cases member
  | cons first rest =>
    intro word inside
    rw [Tree.separated]
    rcases List.mem_cons.mp member with rfl | later
    · simp [inside]
    · simp [words_further later inside]

/-- What stands in an expression is among its words. -/
theorem words_part {tree inner : Expr ν} (member : inner ∈ tree.parts) :
    (shape inner).words ⊆ (shape tree).words := by
  have enclosed {opening : Opening} {items : List Tree} (among : shape inner ∈ items) :
      (shape inner).words ⊆ (Tree.enclosed opening items).words := by
    intro word inside
    simp [Tree.words, words_separated among inside]
  cases tree with
  | literal type value => cases member
  | group type inside => exact enclosed (by simp_all [Expr.parts])
  | binary type operator left right =>
    simp only [Expr.parts, List.mem_cons, List.not_mem_nil, or_false] at member
    rw [shape]
    split
    · exact enclosed (by rcases member with rfl | rfl <;> simp)
    · intro word inside
      rcases member with rfl | rfl
      · simp [Tree.words, inside]
      · simp [Tree.words, inside]
  | access type entry name => cases member
  | element type entry name offset => exact enclosed (by simp_all [Expr.parts])
  | call type routine name arguments =>
    rw [shape, shapes_eq_map]
    exact enclosed (List.mem_map_of_mem member)
  | list type elements =>
    rw [shape, shapes_eq_map]
    exact enclosed (List.mem_map_of_mem member)

/-- An expression whose words are whole has no hyphen in its names. -/
theorem unhyphenated_of_whole (tree : Expr ν) (written : tree.Every Grammar.Written)
    (whole : ∀ word ∈ (shape tree).words, word.Whole) :
    tree.Every fun inner => ¬ Hyphenated inner := by
  induction tree using Expr.induction_parts with
  | step tree inductionHypothesis =>
    refine Expr.every_iff.mpr ⟨?_, fun inner member =>
      inductionHypothesis inner member (written.part member) fun word inside =>
        whole word (words_part member inside)⟩
    have begins {name : String} (isName : TokenKind.IsName name.toList) :
        beginsName name.toList = true := by
      obtain ⟨first, rest, same, starts, _⟩ := isName
      rw [same]
      exact starts
    have here := written.here
    cases tree with
    | access type entry name =>
      exact whole (.operand name) (by simp [shape, Tree.words]) (begins here)
    | element type entry name offset =>
      exact whole (.opening (.index name)) (by simp [shape, Tree.words]) (begins here)
    | call type routine name arguments =>
      have opens := whole (.opening (.call (functionName name arguments.length)))
        (by simp [shape, Tree.words])
      unfold functionName at opens
      split at opens
      · next print =>
        simp only [Bool.and_eq_true, decide_eq_true_eq] at print
        simp [Hyphenated, print.1]
      · exact opens (begins here)
    | _ => exact id

/-- An emitted expression is read as its own tree exactly when no disjunction stands bare
to the left of `&&` in it and none of its names has a hyphen. -/
theorem read_expression (tree : Expr ν) (written : tree.Every Grammar.Written)
    (apart : tree.Every fun inner => ¬ Stacked inner) {text : String}
    (emitted : expression tree = .ok text) :
    read text = some (shape tree) ↔
      tree.Every fun inner => ¬ Regrouped inner ∧ ¬ Hyphenated inner := by
  constructor
  · intro readBack
    obtain ⟨words, scanned, readWords⟩ := Option.bind_eq_some_iff.mp readBack
    obtain ⟨grouped, rfl⟩ := readWords_iff.mp readWords
    have start : Place.Whole (.outside []) := by
      intro name
      cases name
    have unhyphenated := unhyphenated_of_whole tree written (scan_whole start scanned)
    have ungrouped := (grouped_shape tree written apart).mp grouped
    exact fun inner within => ⟨ungrouped inner within, unhyphenated inner within⟩
  · intro plain
    have grouped :=
      (grouped_shape tree written apart).mpr fun inner within => (plain inner within).1
    have spells := spelled_expression tree written fun inner within => (plain inner within).2
    have scanned := spells text emitted [] [] (by simp [Stops]) rfl
    rw [List.append_nil, List.append_nil] at scanned
    rw [read, scanned, Option.bind_some]
    exact readWords_iff.mpr ⟨grouped, rfl⟩

mutual

/-- The operator tree of an expression is that of the parsed one. -/
theorem shape_erase : ∀ tree : Expr ν, shape tree.erase = shape tree
  | .literal _ _ => rfl
  | .group _ inner => by rw [Expr.erase, shape, shape, shape_erase inner]
  | .binary _ operator left right => by
    rw [Expr.erase, shape, shape, shape_erase left, shape_erase right]
  | .access _ _ _ => rfl
  | .element _ _ _ offset => by rw [Expr.erase, shape, shape, shape_erase offset]
  | .call _ _ name arguments => by
    rw [Expr.erase, shape, shape, shapes_erase arguments, Expr.eraseAll_eq_map, List.length_map]
  | .list _ elements => by rw [Expr.erase, shape, shape, shapes_erase elements]

/-- Erasing the notes of expressions leaves their trees. -/
theorem shapes_erase : ∀ trees : List (Expr ν), shapes (Expr.eraseAll trees) = shapes trees
  | [] => rfl
  | first :: rest => by rw [Expr.eraseAll, shapes, shapes, shape_erase first, shapes_erase rest]

end

/-- Java reads every expression of an accepted program as the tree that was parsed, unless
a disjunction stands bare to the left of `&&` in it or one of its names has a hyphen; and
then it does not. -/
theorem expressions_read_back {source : String} {program : Program .bare} {tree : Program .checked}
    {checker : Typing.Checker} (parsed : parseProgram source = .ok program)
    (accepted : Typing.check program = .ok (tree, checker)) :
    tree.erase = program ∧ ∀ inner, tree.Contains inner →
      ∃ text, expression inner = .ok text ∧
        (read text = some (shape inner.erase) ↔
          inner.Every fun part => ¬ Regrouped part ∧ ¬ Hyphenated part) := by
  have same := Typing.check_erase accepted
  refine ⟨same, ?_⟩
  rintro inner ⟨root, member, within⟩
  obtain ⟨tokens, phrase⟩ := Grammar.parseProgram_derives parsed
  obtain ⟨typed, _⟩ := Typing.check_sound phrase accepted
  obtain ⟨scopes, rootTyped⟩ := typed.roots root member
  have rootWritten : root.erase.Every Grammar.Written := by
    apply Grammar.program_written parsed
    rw [← same, Program.roots_erase]
    exact List.mem_map_of_mem member
  have written : root.Every Grammar.Written :=
    fun part inside => (rootWritten part.erase inside.erase).of_erase
  obtain ⟨text, emitted⟩ := exists_expression inner ((typed_legible rootTyped).within within)
  rw [shape_erase]
  exact ⟨text, emitted, read_expression inner (written.within within)
    ((typed_not_stacked rootTyped).within within) emitted⟩

/-- A text with a conjunction in a disjunction, and with a disjunction in a conjunction. -/
def mixing : String :=
  "FUN main(): Integer DO " ++
    "LET a: Boolean = TRUE && FALSE || 2 * 3 ^ 2 < 7; " ++
    "LET b: Boolean = TRUE || FALSE && FALSE; RETURN -1; END"

/-- The value of `a`, of which the operators stand as Java takes them. -/
def conjunctionFirst : Expr .checked :=
  .binary .boolean "||"
    (.binary .boolean "&&" (.literal .boolean (.boolean true)) (.literal .boolean (.boolean false)))
    (.binary .boolean "<"
      (.binary .integer "^"
        (.binary .integer "*" (.literal .integer (.integer 2)) (.literal .integer (.integer 3)))
        (.literal .integer (.integer 2)))
      (.literal .integer (.integer 7)))

/-- The value of `b`, of which they do not. -/
def disjunctionFirst : Expr .checked :=
  .binary .boolean "&&"
    (.binary .boolean "||" (.literal .boolean (.boolean true)) (.literal .boolean (.boolean false)))
    (.literal .boolean (.boolean false))

/-- The checked program. -/
def mixingTree : Program .checked where
  globals := []
  functions := [⟨"main", [], [], some "Integer",
    [.declaration ⟨"a", .boolean, true, ()⟩ "a" (some "Boolean") (some conjunctionFirst),
      .declaration ⟨"b", .boolean, true, ()⟩ "b" (some "Boolean") (some disjunctionFirst),
      .returning (.literal .integer (.integer (-1)))], ⟨[], .integer⟩⟩]

/-- The example is parsed. -/
theorem mixing_parsed : parseProgram mixing = .ok mixingTree.erase := by cbv

/-- The example is accepted by the checker. -/
theorem mixing_accepted : ∃ checker, Typing.check mixingTree.erase = .ok (mixingTree, checker) :=
  ⟨⟨⟨#[{ parent := none, entries := [],
         functions := [Typing.printSignature, ⟨"main", [], some .integer, none⟩] }]⟩,
    ⟨none, none⟩⟩, by cbv⟩

/-- Java reads the first value as it was parsed, and the second one otherwise. -/
theorem mixing_read_back : ∃ checker,
    parseProgram mixing = .ok mixingTree.erase ∧
      Typing.check mixingTree.erase = .ok (mixingTree, checker) ∧
      mixingTree.Contains conjunctionFirst ∧
      (∃ text, expression conjunctionFirst = .ok text ∧
        read text = some (shape conjunctionFirst.erase)) ∧
      mixingTree.Contains disjunctionFirst ∧
      ∃ text, expression disjunctionFirst = .ok text ∧
        read text ≠ some (shape disjunctionFirst.erase) := by
  obtain ⟨checker, accepted⟩ := mixing_accepted
  have first : mixingTree.Contains conjunctionFirst :=
    ⟨_, by simp [mixingTree, Program.roots, Stmt.rootsOf, Stmt.roots], .whole⟩
  have second : mixingTree.Contains disjunctionFirst :=
    ⟨_, by simp [mixingTree, Program.roots, Stmt.rootsOf, Stmt.roots], .whole⟩
  refine ⟨checker, mixing_parsed, accepted, first, ?_, second, ?_⟩
  · obtain ⟨text, emitted, readBack⟩ := (expressions_read_back mixing_parsed accepted).2 _ first
    refine ⟨text, emitted, readBack.mpr ?_⟩
    simp [conjunctionFirst, Regrouped, Hyphenated, Expr.operator?]
  · obtain ⟨text, emitted, readBack⟩ := (expressions_read_back mixing_parsed accepted).2 _ second
    refine ⟨text, emitted, fun same => ?_⟩
    exact (readBack.mp same).here.1 ⟨rfl, rfl⟩

/-- Java takes `true || false && false` for `true || (false && false)`, where the accepted
program has `(true || false) && false`. -/
theorem disjunct_taken : ∃ source program tree checker inner,
    parseProgram source = .ok program ∧ Typing.check program = .ok (tree, checker) ∧
      tree.Contains inner ∧ expression inner = .ok "true || false && false" ∧
      read "true || false && false" = some (.operation "||" (.operand "true")
        (.operation "&&" (.operand "false") (.operand "false"))) ∧
      read "true || false && false" ≠ some (shape inner.erase) := by
  obtain ⟨checker, accepted⟩ := mixing_accepted
  have among : disjunctionFirst ∈ mixingTree.roots := by
    simp [mixingTree, Program.roots, Stmt.rootsOf, Stmt.roots]
  have taken : read "true || false && false" = some (.operation "||" (.operand "true")
      (.operation "&&" (.operand "false") (.operand "false"))) := by
    cbv
  have emitted : expression disjunctionFirst = .ok "true || false && false" := by cbv
  refine ⟨mixing, _, mixingTree, checker, disjunctionFirst, mixing_parsed, accepted,
    ⟨_, among, .whole⟩, emitted, taken, ?_⟩
  rw [taken]
  simp [disjunctionFirst, Expr.erase, shape]

end Blockscript.Java
