import Blockscript.Proofs.Decimal.Comparison
import Blockscript.Proofs.Running.Operations
import Blockscript.Proofs.Values.Equality
import Mathlib.Data.String.Basic

/-!
# Order of values

The two comparing operators put the values of each ordered kind into one order, read in its
two directions. It is the order of a rank that a value has: of the number, of the rational
number that a decimal is, of the text. Where different values never share a rank, exactly one
of below, equal and above holds. Decimals share theirs with the other ways to write the number,
and equality tells these apart by the exponent.
-/

namespace Blockscript

open Running

/-- The operator for less finds that the one value is below the other one. -/
def Precedes (store : Store) (left right : Value) : Prop :=
  apply store "<" left right = .ok (.boolean true)

/-- The operator for greater finds that the one value is above the other one. -/
def Follows (store : Store) (left right : Value) : Prop :=
  apply store ">" left right = .ok (.boolean true)

/-- Exactly one of three statements holds. -/
def ExactlyOne (first second third : Prop) : Prop :=
  (first ∨ second ∨ third) ∧ ¬ (first ∧ second) ∧ ¬ (first ∧ third) ∧ ¬ (second ∧ third)

/-- The numbers of the characters of a text. -/
def codePoints (text : String) : List Nat :=
  text.toList.map Char.toNat

variable {store : Store} {left right value : Value} {type : Ty}

/-- The first sign asks whether the left value is below the right one. -/
theorem apply_less (store : Store) (left right : Value) :
    apply store "<" left right = Running.compare left right (left.isBelow? right) := rfl

/-- The other sign asks whether the right value is below the left one. -/
theorem apply_greater (store : Store) (left right : Value) :
    apply store ">" left right = Running.compare left right (right.isBelow? left) := rfl

/-- A comparison is true when the values are ordered and the question is answered so. -/
theorem compare_eq_true_iff {below : Option Bool} :
    Running.compare left right below = .ok (.boolean true) ↔ below = some true := by
  cases below <;> simp [Running.compare]

/-- A value precedes another when it is below it. -/
theorem precedes_iff : Precedes store left right ↔ left.isBelow? right = some true := by
  rw [Precedes, apply_less, compare_eq_true_iff]

/-- The operator for greater is the one for less, read from the other side. -/
theorem follows_iff_precedes : Follows store left right ↔ Precedes store right left := by
  rw [Follows, apply_greater, compare_eq_true_iff, precedes_iff]

/-- Values of one ordered kind are compared, in either direction. -/
theorem compared (store : Store) (ordered : type ∈ Ty.ordered) (leftKind : left.kind = type)
    (rightKind : right.kind = type) :
    (∃ truth, apply store "<" left right = .ok (.boolean truth)) ∧
      ∃ truth, apply store ">" left right = .ok (.boolean truth) := by
  have there {left right : Value} (leftKind : left.kind = type) (rightKind : right.kind = type) :
      ∃ truth, left.isBelow? right = some truth := by
    refine Option.isSome_iff_exists.mp (Chronicle.isBelow?_isSome_iff.mpr ?_)
    rw [leftKind, rightKind]
    exact ⟨rfl, by simp [Ty.isAssignable, ordered]⟩
  obtain ⟨truth, below⟩ := there leftKind rightKind
  obtain ⟨other, above⟩ := there rightKind leftKind
  exact ⟨⟨truth, by rw [apply_less, below, Running.compare]⟩,
    ⟨other, by rw [apply_greater, above, Running.compare]⟩⟩

/-! ## The ranks of the ordered kinds -/

/-- Integers are in the order of numbers. -/
theorem precedes_integer {left right : Int} :
    Precedes store (.integer left) (.integer right) ↔ left < right := by
  simp [precedes_iff, Value.isBelow?]

/-- Decimals are in the order of their values. -/
theorem precedes_decimal {left right : Decimal} :
    Precedes store (.decimal left) (.decimal right) ↔ left.value < right.value := by
  simp [precedes_iff, Value.isBelow?, Decimal.isBelow_iff_value]

/-- Characters are in the order of texts. -/
theorem precedes_character {left right : String} :
    Precedes store (.character left) (.character right) ↔ left < right := by
  simp [precedes_iff, Value.isBelow?]

/-- Strings are in the order of texts. -/
theorem precedes_string {left right : String} :
    Precedes store (.string left) (.string right) ↔ left < right := by
  simp [precedes_iff, Value.isBelow?]

/-- Characters are ordered by their numbers. -/
theorem char_lt_iff (left right : Char) : left < right ↔ left.toNat < right.toNat :=
  UInt32.lt_iff_toNat_lt

/-- The order of sequences is that of the numbers in them, when the members are ordered by
these. -/
theorem lex_map_iff {Part : Type*} [LinearOrder Part] {number : Part → Nat}
    (order : ∀ left right, left < right ↔ number left < number right) {left right : List Part} :
    List.Lex (· < ·) (left.map number) (right.map number) ↔ List.Lex (· < ·) left right := by
  induction left generalizing right with
  | nil => cases right <;> simp
  | cons first rest inductionHypothesis =>
    cases right with
    | nil => simp
    | cons other others =>
      rcases lt_trichotomy first other with below | rfl | above
      · exact iff_of_true (.rel ((order _ _).mp below)) (.rel below)
      · rw [List.map_cons, List.map_cons, List.lex_cons_iff, List.lex_cons_iff,
          inductionHypothesis]
      · exact iff_of_false (fun lex => (List.head_le_of_lt lex).not_gt ((order _ _).mp above))
          fun lex => (List.head_le_of_lt lex).not_gt above

/-- Texts are ordered by the numbers of their characters, the first difference deciding. -/
theorem text_lt_iff (left right : String) :
    left < right ↔ List.Lex (· < ·) (codePoints left) (codePoints right) := by
  rw [codePoints, codePoints, lex_map_iff char_lt_iff]
  exact String.lt_iff_toList_lt

/-- An order by rank is a strict weak order. -/
theorem strictWeakOrder_of_rank {Part Rank : Type*} [LinearOrder Rank] (build : Part → Value)
    (rank : Part → Rank) (every : ∀ value, value.kind = type → ∃ part, value = build part)
    (order : ∀ left right, Precedes store (build left) (build right) ↔ rank left < rank right) :
    IsStrictWeakOrder {value : Value // value.kind = type}
      fun left right => Precedes store left.1 right.1 := by
  choose part built using fun value : {value : Value // value.kind = type} =>
    every value.1 value.2
  have ranked (left right : {value : Value // value.kind = type}) :
      Precedes store left.1 right.1 ↔ rank (part left) < rank (part right) := by
    rw [← order, ← built, ← built]
  simp only [ranked]
  have weak : IsStrictWeakOrder Rank (· < ·) := isStrictWeakOrder_of_isOrderConnected
  exact Order.Preimage.instIsStrictWeakOrder

/-- The order of each ordered kind is a strict weak order. -/
theorem precedes_strictWeakOrder (store : Store) (ordered : type ∈ Ty.ordered) :
    IsStrictWeakOrder {value : Value // value.kind = type}
      fun left right => Precedes store left.1 right.1 := by
  simp only [Ty.ordered, List.mem_cons, List.not_mem_nil, or_false] at ordered
  rcases ordered with rfl | rfl | rfl | rfl
  · exact strictWeakOrder_of_rank .integer id (fun _ => Value.exists_integer)
      fun _ _ => precedes_integer
  · exact strictWeakOrder_of_rank .decimal Decimal.value (fun _ => Value.exists_decimal)
      fun _ _ => precedes_decimal
  · exact strictWeakOrder_of_rank .character id (fun _ => Value.exists_character)
      fun _ _ => precedes_character
  · exact strictWeakOrder_of_rank .string id (fun _ => Value.exists_string)
      fun _ _ => precedes_string

/-! ## Order and equality -/

/-- Where a value is given by its rank, exactly one of below, equal and above holds. -/
theorem exactlyOne_of_rank {Rank : Type*} [LinearOrder Rank] {build : Rank → Value}
    (order : ∀ left right, Precedes store (build left) (build right) ↔ left < right)
    (equal : ∀ left right, (build left).isEqual store (build right) = true ↔ left = right)
    (left right : Rank) :
    ExactlyOne (Precedes store (build left) (build right))
      ((build left).isEqual store (build right) = true)
      (Follows store (build left) (build right)) := by
  rw [ExactlyOne, follows_iff_precedes, order, order, equal]
  refine ⟨lt_trichotomy left right, ?_, ?_, ?_⟩
  · exact fun ⟨below, same⟩ => below.ne same
  · exact fun ⟨below, above⟩ => below.asymm above
  · exact fun ⟨same, above⟩ => above.ne same.symm

/-- Integers, characters and strings are below, equal or above. -/
theorem precedes_exactlyOne (store : Store) (simple : type = .integer ∨ type = .character ∨
    type = .string) (leftKind : left.kind = type) (rightKind : right.kind = type) :
    ExactlyOne (Precedes store left right) (left.isEqual store right = true)
      (Follows store left right) := by
  rcases simple with rfl | rfl | rfl
  · obtain ⟨left, rfl⟩ := Value.exists_integer leftKind
    obtain ⟨right, rfl⟩ := Value.exists_integer rightKind
    exact exactlyOne_of_rank (fun _ _ => precedes_integer)
      (fun _ _ => by simp [Value.isEqual, Value.equalWithin]) left right
  · obtain ⟨left, rfl⟩ := Value.exists_character leftKind
    obtain ⟨right, rfl⟩ := Value.exists_character rightKind
    exact exactlyOne_of_rank (fun _ _ => precedes_character)
      (fun _ _ => by simp [Value.isEqual, Value.equalWithin]) left right
  · obtain ⟨left, rfl⟩ := Value.exists_string leftKind
    obtain ⟨right, rfl⟩ := Value.exists_string rightKind
    exact exactlyOne_of_rank (fun _ _ => precedes_string)
      (fun _ _ => by simp [Value.isEqual, Value.equalWithin]) left right

/-- Decimals are neither below nor above exactly when they are one number. -/
theorem precedes_decimal_neither (store : Store) (left right : Decimal) :
    ¬ Precedes store (.decimal left) (.decimal right) ∧
        ¬ Follows store (.decimal left) (.decimal right) ↔ left.value = right.value := by
  rw [follows_iff_precedes, precedes_decimal, precedes_decimal, not_lt, not_lt]
  exact ⟨fun ⟨above, below⟩ => below.antisymm above, fun same => ⟨same.ge, same.le⟩⟩

/-- Decimals are equal when they are one number at one exponent. -/
theorem decimal_isEqual_iff (store : Store) (left right : Decimal) :
    (Value.decimal left).isEqual store (.decimal right) = true ↔
      left.value = right.value ∧ left.exponent = right.exponent := by
  rw [← Decimal.isSame_iff_value, Value.isEqual, Value.equalWithin]

/-! ## Equality and order together -/

/-- Equality looks at contents alone, whichever lists hold them, and it is an equivalence. Each
ordered kind has one strict weak order, that of numbers or that of code points, which the two
operators read in its two directions and always answer. Integers, characters and strings are
below, equal or above, and never two of these. Decimals are neither below nor above when they
are one number, and equal when they also have one exponent. -/
theorem equality_and_order_coherent (store : Store) :
    (∀ left right : Value, left.Loopless store → right.Loopless store →
      (∃ shown other, (∀ contents, store.Shows left contents ↔ contents = shown) ∧
        (∀ contents, store.Shows right contents ↔ contents = other) ∧
        (left.isEqual store right = true ↔ shown.withPlainZeros = other.withPlainZeros)) ∧
      (left.isEqual store right = true → left.kind = right.kind) ∧
      ∀ first second, left = .list first → right = .list second →
        (left.isEqual store right = true ↔
          List.Forall₂ (fun one other => one.isEqual store other = true)
            (store.elements first) (store.elements second))) ∧
    (Equivalence fun left right : {value : Value // value.Loopless store} =>
      left.1.isEqual store right.1 = true) ∧
    (∀ type ∈ Ty.ordered,
      (IsStrictWeakOrder {value : Value // value.kind = type}
        fun left right => Precedes store left.1 right.1) ∧
      ∀ left right : Value, left.kind = type → right.kind = type →
        (∃ truth, apply store "<" left right = .ok (.boolean truth)) ∧
        (∃ truth, apply store ">" left right = .ok (.boolean truth)) ∧
        (Follows store left right ↔ Precedes store right left)) ∧
    (∀ left right : Int, Precedes store (.integer left) (.integer right) ↔ left < right) ∧
    (∀ left right : Decimal,
      Precedes store (.decimal left) (.decimal right) ↔ left.value < right.value) ∧
    (∀ left right : Char, Precedes store (.character (String.singleton left))
      (.character (String.singleton right)) ↔ left.toNat < right.toNat) ∧
    (∀ left right : String,
      (Precedes store (.character left) (.character right) ↔
        List.Lex (· < ·) (codePoints left) (codePoints right)) ∧
      (Precedes store (.string left) (.string right) ↔
        List.Lex (· < ·) (codePoints left) (codePoints right))) ∧
    (∀ type, type = .integer ∨ type = .character ∨ type = .string → ∀ left right : Value,
      left.kind = type → right.kind = type →
        ExactlyOne (Precedes store left right) (left.isEqual store right = true)
          (Follows store left right)) ∧
    ∀ left right : Decimal,
      (¬ Precedes store (.decimal left) (.decimal right) ∧
        ¬ Follows store (.decimal left) (.decimal right) ↔ left.value = right.value) ∧
      ((Value.decimal left).isEqual store (.decimal right) = true ↔
        left.value = right.value ∧ left.exponent = right.exponent) := by
  refine ⟨fun left right leftLoopless rightLoopless => ⟨?_, isEqual_kind, ?_⟩,
    isEqual_equivalence store, fun type ordered => ⟨precedes_strictWeakOrder store ordered, ?_⟩,
    fun _ _ => precedes_integer, fun _ _ => precedes_decimal, fun left right => ?_,
    fun left right => ⟨?_, ?_⟩, fun type simple _ _ => precedes_exactlyOne store simple,
    fun left right => ⟨precedes_decimal_neither store left right,
      decimal_isEqual_iff store left right⟩⟩
  · obtain ⟨shown, leftShows⟩ := loopless_iff_shows.mp leftLoopless
    obtain ⟨other, rightShows⟩ := loopless_iff_shows.mp rightLoopless
    exact ⟨shown, other, fun _ => leftShows.iff_eq, fun _ => rightShows.iff_eq,
      isEqual_iff leftShows rightShows⟩
  · rintro first second rfl rfl
    exact list_isEqual_iff leftLoopless rightLoopless
  · intro left right leftKind rightKind
    obtain ⟨below, above⟩ := compared store ordered leftKind rightKind
    exact ⟨below, above, follows_iff_precedes⟩
  · rw [precedes_character, text_lt_iff]
    simp [codePoints, List.lex_singleton_iff]
  · rw [precedes_character, text_lt_iff]
  · rw [precedes_string, text_lt_iff]

/-- Two lists, of a zero and of a zero with a sign. -/
def listsOfZeros : Store :=
  ⟨#[[.decimal ⟨false, 0, -1⟩], [.decimal ⟨true, 0, -1⟩]]⟩

/-- The two lists are different ones and equal, as their elements are. -/
theorem equality_and_order_of_zeros :
    (Value.list 0).Loopless listsOfZeros ∧ (Value.list 1).Loopless listsOfZeros ∧
      List.Forall₂ (fun one other : Value => one.isEqual listsOfZeros other = true)
        [.decimal ⟨false, 0, -1⟩] [.decimal ⟨true, 0, -1⟩] := by
  have first : (Value.list 0).Loopless listsOfZeros :=
    loopless_iff_shows.mpr ⟨.list [.decimal _], .list (by decide) (.cons .decimal .nil)⟩
  have second : (Value.list 1).Loopless listsOfZeros :=
    loopless_iff_shows.mpr ⟨.list [.decimal _], .list (by decide) (.cons .decimal .nil)⟩
  obtain ⟨-, -, lists⟩ :=
    (equality_and_order_coherent listsOfZeros).1 (.list 0) (.list 1) first second
  exact ⟨first, second, (lists 0 1 rfl rfl).mp (by decide)⟩

end Blockscript
