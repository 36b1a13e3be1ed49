import Blockscript.Proofs.Values.Contents

/-!
# Equality of values

Two values are equal when their contents are, without regard to the sign of zero. The kinds,
the exponents of decimals, the lengths of lists and all that stands in them have to match, and
which handles the lists have does not matter. So equality is an equivalence among the values
without a loop, and two lists are equal when their elements are, one by one.
-/

namespace Blockscript

variable {store : Store} {left right value : Value}

/-- Two numbers are the same when the one is the other, the sign of zero apart. -/
theorem Decimal.isSame_iff_withPlainZero (left right : Decimal) :
    left.isSame right = true ↔ left.withPlainZero = right.withPlainZero := by
  obtain ⟨negative, coefficient, exponent⟩ := left
  obtain ⟨sign, digits, place⟩ := right
  simp only [isSame, signed, withPlainZero, isZero, Bool.and_eq_true, decide_eq_true_eq,
    Decimal.mk.injEq]
  by_cases none : coefficient = 0
  · subst none
    by_cases other : digits = 0
    · subst other
      simp
    · cases sign <;> simp [other, Ne.symm other, eq_comm]
  · cases negative <;> cases sign <;> simp [none] <;> omega

namespace Value

/-- Sequences are related when they are as long and their members are. -/
theorem allRelated_iff {related : Value → Value → Bool} {lefts rights : List Value} :
    allRelated related lefts rights = true ↔
      List.Forall₂ (fun left right => related left right = true) lefts rights := by
  induction lefts generalizing rights with
  | nil => cases rights <;> simp [allRelated]
  | cons left lefts inductionHypothesis =>
    cases rights with
    | nil => simp [allRelated]
    | cons right rights => simp [allRelated, inductionHypothesis]

end Value

/-- Contents are compared one by one. -/
theorem all_equal_iff {equal : Value → Value → Bool} {lefts rights : List Value}
    {leftShown rightShown : List Contents}
    (leftShows : List.Forall₂ store.Shows lefts leftShown)
    (rightShows : List.Forall₂ store.Shows rights rightShown)
    (each : ∀ left right shown other, store.Shows left shown → store.Shows right other →
      shown ∈ leftShown → (equal left right = true ↔ shown.withPlainZeros = other.withPlainZeros)) :
    List.Forall₂ (fun left right => equal left right = true) lefts rights ↔
      leftShown.map Contents.withPlainZeros = rightShown.map Contents.withPlainZeros := by
  induction leftShows generalizing rights rightShown with
  | nil =>
    cases rightShows with
    | nil => simp
    | cons => simp
  | @cons left shown lefts leftShown shows _ inductionHypothesis =>
    cases rightShows with
    | nil => simp
    | @cons right other rights rightShown showsOther restShows =>
      have here := each left right shown other shows showsOther (List.mem_cons_self ..)
      have further := inductionHypothesis restShows fun left right shown other one two member =>
        each left right shown other one two (List.mem_cons_of_mem _ member)
      simp [here, further]

/-- Followed deep enough, values are equal when their contents are, the signs of zeros apart. -/
theorem equalWithin_iff (depth : Nat) {left right : Value} {shown other : Contents}
    (leftShows : store.Shows left shown) (rightShows : store.Shows right other)
    (within : shown.Within depth) :
    Value.equalWithin store depth left right = true ↔
      shown.withPlainZeros = other.withPlainZeros := by
  induction depth generalizing left right shown other with
  | zero =>
    cases leftShows with
    | list => exact within.elim
    | decimal =>
      cases rightShows <;>
        simp [Value.equalWithin, Contents.withPlainZeros, Decimal.isSame_iff_withPlainZero]
    | _ => cases rightShows <;> simp [Value.equalWithin, Contents.withPlainZeros]
  | succ depth inductionHypothesis =>
    cases leftShows with
    | list _ shown =>
      cases rightShows with
      | list _ other =>
        simp only [Value.equalWithin, Contents.withPlainZeros, Value.allRelated_iff,
          Contents.list.injEq]
        exact all_equal_iff shown other fun left right one two leftShows rightShows member =>
          inductionHypothesis leftShows rightShows (within one member)
      | _ => simp [Value.equalWithin, Contents.withPlainZeros]
    | decimal =>
      cases rightShows <;>
        simp [Value.equalWithin, Contents.withPlainZeros, Decimal.isSame_iff_withPlainZero]
    | _ => cases rightShows <;> simp [Value.equalWithin, Contents.withPlainZeros]

/-- Values are equal when their contents are, the signs of zeros apart. -/
theorem isEqual_iff {shown other : Contents} (leftShows : store.Shows left shown)
    (rightShows : store.Shows right other) :
    left.isEqual store right = true ↔ shown.withPlainZeros = other.withPlainZeros := by
  have loopless : left.Loopless store := loopless_iff_shows.mpr ⟨shown, leftShows⟩
  obtain ⟨contents, shows, within⟩ := loopless.exists_shows
  obtain rfl := Store.Shows.unique contents shows leftShows
  exact equalWithin_iff _ leftShows rightShows within

/-- Equal values are of one kind. -/
theorem isEqual_kind (equal : left.isEqual store right = true) : left.kind = right.kind := by
  unfold Value.isEqual Value.equalWithin at equal
  split at equal <;> first | rfl | simp at equal

/-- Two lists are equal when their elements are, one by one. -/
theorem list_isEqual_iff {first second : Nat} (leftLoopless : (Value.list first).Loopless store)
    (rightLoopless : (Value.list second).Loopless store) :
    (Value.list first).isEqual store (.list second) = true ↔
      List.Forall₂ (fun left right => left.isEqual store right = true)
        (store.elements first) (store.elements second) := by
  obtain ⟨shown, leftShows⟩ := loopless_iff_shows.mp leftLoopless
  obtain ⟨other, rightShows⟩ := loopless_iff_shows.mp rightLoopless
  rw [isEqual_iff leftShows rightShows]
  cases leftShows with
  | list _ shown =>
    cases rightShows with
    | list _ other =>
      rw [Contents.withPlainZeros, Contents.withPlainZeros, Contents.list.injEq]
      exact (all_equal_iff shown other fun left right one two leftShows rightShows _ =>
        isEqual_iff leftShows rightShows).symm

/-- Equality is an equivalence among the values without a loop. -/
theorem isEqual_equivalence (store : Store) :
    Equivalence fun left right : {value : Value // value.Loopless store} =>
      left.1.isEqual store right.1 = true := by
  choose contents shows using fun value : {value : Value // value.Loopless store} =>
    loopless_iff_shows.mp value.2
  have same (left right : {value : Value // value.Loopless store}) :
      left.1.isEqual store right.1 = true ↔
        (contents left).withPlainZeros = (contents right).withPlainZeros :=
    isEqual_iff (shows left) (shows right)
  refine ⟨fun value => (same value value).mpr rfl, fun equal => ?_, fun first second => ?_⟩
  · exact (same _ _).mpr ((same _ _).mp equal).symm
  · exact (same _ _).mpr (((same _ _).mp first).trans ((same _ _).mp second))

end Blockscript
