import Blockscript.Typing.Rules

/-!
# When the rules without a scope pass

What is assignable to what, and which operands an operator takes, as the checker decides
it.
-/

namespace Blockscript.Typing

/-- What asks for an assignable type passes when the type is one. -/
theorem requireAssignable_ok {target source : Ty} {done : Unit} :
    requireAssignable target source = .ok done ↔ target.isAssignable source = true := by
  unfold requireAssignable
  split
  · next assignable => simp [assignable]
  · next refused => simp [refused]

/-- Every type is assignable to itself. -/
theorem isAssignable_refl (type : Ty) : type.isAssignable type = true := by
  simp [Ty.isAssignable]

/-- A rule behind a demand passes when the demand is met and the rule passes. -/
theorem demand_bind_ok {demand : Except TypeFault Unit} {next : Except TypeFault Ty} {type : Ty} :
    (demand >>= fun _ => next) = .ok type ↔ demand = .ok () ∧ next = .ok type := by
  cases demand with
  | ok done => exact ⟨fun passes => ⟨rfl, passes⟩, fun passes => passes.2⟩
  | error fault =>
    constructor
    · intro fails
      cases fails
    · intro fails
      cases fails.1

/-- The type of a comparison that has one: both sides are of one comparable type. -/
theorem comparisonType_ok {left right type : Ty} :
    comparisonType left right = .ok type ↔
      type = .boolean ∧ left = right ∧ Ty.comparable.isAssignable left = true := by
  simp only [comparisonType, demand_bind_ok, requireAssignable_ok]
  constructor
  · rintro ⟨ordered, _, typed⟩
    split at typed
    · next same =>
      cases typed
      exact ⟨rfl, same, ordered⟩
    · cases typed
  · rintro ⟨rfl, rfl, ordered⟩
    exact ⟨ordered, ordered, if_pos rfl⟩

/-- Arithmetic is of integers or of decimals, and has their type. -/
theorem arithmeticType_ok {operator : Operator} {left right type : Ty} :
    arithmeticType operator left right = .ok type ↔
      left = type ∧ right = type ∧ (type = .integer ∨ type = .decimal) := by
  unfold arithmeticType
  constructor
  · intro typed
    split at typed
    · next numbers =>
      cases typed
      simp only [Bool.and_eq_true, Bool.or_eq_true, decide_eq_true_eq] at numbers
      exact ⟨rfl, numbers.1.symm, numbers.2⟩
    · cases typed
  · rintro ⟨rfl, rfl, number⟩
    simp [number]

end Blockscript.Typing
