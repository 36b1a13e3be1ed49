import Blockscript.Value

/-!
# Writing values

Not every value has a text: an integer with too many digits is not written, and neither is
a list in which one is met. All others are, whatever they hold.
-/

namespace Blockscript

variable {store : Store} {value : Value} {depth : Nat}

/-- An integer with more digits than are written is met in the value, with lists followed to
the given depth. -/
inductive Overlong (store : Store) : Nat → Value → Prop where
  | integer {depth : Nat} {number : Int} : digitLimit < digitCount number.natAbs →
      Overlong store depth (.integer number)
  | element {depth handle : Nat} {value : Value} : value ∈ store.elements handle →
      Overlong store depth value → Overlong store (depth + 1) (.list handle)

/-- An integer has no text when it has more digits than are written. -/
theorem integerText?_eq_none_iff {number : Int} :
    integerText? number = none ↔ digitLimit < digitCount number.natAbs := by
  rw [← Nat.not_le]
  unfold integerText?
  split
  · next short => exact iff_of_false (by simp) (not_not_intro short)
  · next long => exact iff_of_true rfl long

/-- One text that is missing leaves a list of values without texts. -/
theorem mapM_eq_none_iff {α β : Type} {find : α → Option β} {items : List α} :
    items.mapM find = none ↔ ∃ item ∈ items, find item = none := by
  induction items with
  | nil => simp
  | cons first rest inductionHypothesis =>
    rw [List.mapM_cons]
    cases found : find first with
    | none => simp [found]
    | some result =>
      cases others : rest.mapM find with
      | none =>
        obtain ⟨item, member, missing⟩ := inductionHypothesis.mp others
        exact iff_of_true rfl ⟨item, List.mem_cons_of_mem first member, missing⟩
      | some results =>
        refine iff_of_false (by simp) ?_
        rintro ⟨item, member, missing⟩
        rcases List.mem_cons.mp member with rfl | later
        · simp [found] at missing
        · simp [inductionHypothesis.mpr ⟨item, later, missing⟩] at others

/-- A value has no text when an integer in it is too long. -/
theorem textWithin?_eq_none_iff : value.textWithin? store depth = none ↔
    Overlong store depth value := by
  induction depth generalizing value with
  | zero =>
    cases value with
    | integer number =>
      rw [Value.textWithin?, integerText?_eq_none_iff]
      exact ⟨.integer, fun | .integer long => long⟩
    | _ => exact iff_of_false (by simp [Value.textWithin?]) nofun
  | succ depth inductionHypothesis =>
    cases value with
    | integer number =>
      rw [Value.textWithin?, integerText?_eq_none_iff]
      exact ⟨.integer, fun | .integer long => long⟩
    | list handle =>
      rw [Value.textWithin?, Option.map_eq_none_iff, mapM_eq_none_iff]
      constructor
      · rintro ⟨value, member, missing⟩
        exact .element member (inductionHypothesis.mp missing)
      · rintro (_ | ⟨member, long⟩)
        exact ⟨_, member, inductionHypothesis.mpr long⟩
    | _ => exact iff_of_false (by simp [Value.textWithin?]) nofun

/-- A value is printed and joined unless an integer in it is too long. -/
theorem text?_eq_none_iff : value.text? store = none ↔ Overlong store store.depth value :=
  textWithin?_eq_none_iff

end Blockscript
