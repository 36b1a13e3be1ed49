import Blockscript.Proofs.Decimal.Division

/-!
# Decimals are compared as numbers

A comparison looks at signs and orders of magnitude before it builds any digits. What it
finds is the order of the rational numbers that the decimals are, and equality is that of
the rational numbers at one exponent.
-/

namespace Blockscript.Decimal

variable {left right : Decimal}

/-- The value of a number is its magnitude, with its sign. -/
theorem value_magnitude (number : Decimal) :
    number.value = sign number.negative * number.magnitude := by
  rw [value_eq, magnitude, mul_assoc]

/-- A number has the sign of its signed coefficient. -/
theorem value_sign (number : Decimal) :
    number.signed.sign = -1 ∧ number.value < 0 ∨ number.signed.sign = 0 ∧ number.value = 0 ∨
      number.signed.sign = 1 ∧ 0 < number.value := by
  have scale : (0 : ℚ) < 10 ^ number.exponent := zpow_pos (by norm_num) _
  rcases lt_trichotomy number.signed 0 with below | zero | above
  · exact .inl ⟨Int.sign_eq_neg_one_of_neg below,
      mul_neg_of_neg_of_pos (Int.cast_lt_zero.mpr below) scale⟩
  · exact .inr (.inl ⟨by simp [zero], by simp [value, zero]⟩)
  · exact .inr (.inr ⟨Int.sign_eq_one_of_pos above, mul_pos (Int.cast_pos.mpr above) scale⟩)

/-- Only zeros are of one sign although they are written with different ones. -/
theorem sign_of_apart (apart : left.negative ≠ right.negative)
    (same : left.signed.sign = right.signed.sign) : left.signed.sign = 0 := by
  have leftSign := Int.sign_nonneg_iff.mpr (Int.natCast_nonneg left.coefficient)
  have rightSign := Int.sign_nonneg_iff.mpr (Int.natCast_nonneg right.coefficient)
  unfold signed at same ⊢
  cases first : left.negative with
  | false =>
    have second : right.negative = true := by simpa [first] using apart
    simp only [first, second, if_true, Bool.false_eq_true, if_false, Int.sign_neg] at same ⊢
    omega
  | true =>
    have second : right.negative = false := by simpa [first] using apart
    simp only [first, second, if_true, Bool.false_eq_true, if_false, Int.sign_neg] at same ⊢
    omega

/-- Numbers are ordered by their signs, unless both have the same one and are not zero. -/
theorem value_lt_of_signs
    (apart : left.signed.sign = right.signed.sign → left.signed.sign = 0) :
    left.value < right.value ↔ left.signed.sign < right.signed.sign := by
  rcases value_sign left with ⟨sign, order⟩ | ⟨sign, order⟩ | ⟨sign, order⟩
  · rcases value_sign right with ⟨other, place⟩ | ⟨other, place⟩ | ⟨other, place⟩
    · simp [sign, other] at apart
    · simp [sign, other, place, order]
    · simp [sign, other, order.trans place]
  · rcases value_sign right with ⟨other, place⟩ | ⟨other, place⟩ | ⟨other, place⟩
    · simp [sign, other, order, place.le]
    · simp [sign, other, place, order]
    · simp [sign, other, place, order]
  · rcases value_sign right with ⟨other, place⟩ | ⟨other, place⟩ | ⟨other, place⟩
    · simp [sign, other, (place.trans order).le]
    · simp [sign, other, place, order.le]
    · simp [sign, other] at apart

/-- Of two orders of magnitude the greater one belongs to the greater magnitude. -/
theorem magnitude_lt_of_adjusted (nonzero : right.coefficient ≠ 0)
    (order : left.adjusted < right.adjusted) : left.magnitude < right.magnitude :=
  calc
    left.magnitude < 10 ^ (left.adjusted + 1) := left.magnitude_lt
    _ ≤ 10 ^ right.adjusted := zpow_le_zpow_right₀ (by norm_num) (by omega)
    _ ≤ right.magnitude := le_magnitude nonzero

/-- Numbers of one sign are ordered by their magnitudes, in this or the other direction. -/
theorem value_lt_of_same (same : left.negative = right.negative) :
    left.value < right.value ↔
      if left.negative then right.magnitude < left.magnitude
      else left.magnitude < right.magnitude := by
  rw [value_magnitude, value_magnitude, ← same]
  cases left.negative <;> simp [sign]

/-- Numbers are compared in units of the lesser exponent. -/
theorem value_lt_iff_aligned (left right : Decimal) :
    left.value < right.value ↔
      left.alignedTo (min left.exponent right.exponent) <
        right.alignedTo (min left.exponent right.exponent) := by
  have scale : (0 : ℚ) < 10 ^ min left.exponent right.exponent := zpow_pos (by norm_num) _
  rw [← @alignedTo_value left _ (min_le_left _ right.exponent),
    ← @alignedTo_value right _ (min_le_right left.exponent _), mul_lt_mul_iff_left₀ scale,
    Int.cast_lt]

/-- A number is below another one when it is the lesser rational number. -/
theorem isBelow_iff_value (left right : Decimal) :
    left.isBelow right = true ↔ left.value < right.value := by
  have zero (number : Decimal) (none : number.coefficient = 0) : number.signed.sign = 0 := by
    simp [signed, none]
  unfold isBelow
  split
  · next early =>
    rw [decide_eq_true_eq]
    refine (value_lt_of_signs fun same => ?_).symm
    simp only [isZero, Bool.or_eq_true, decide_eq_true_eq, bne_iff_ne] at early
    rcases early with (none | none) | apart
    · exact zero left none
    · exact same.trans (zero right none)
    · exact sign_of_apart apart same
  · next late =>
    simp only [isZero, Bool.or_eq_true, decide_eq_true_eq, bne_iff_ne, not_or,
      Decidable.not_not] at late
    obtain ⟨⟨leftSome, rightSome⟩, same⟩ := late
    split
    · rw [decide_eq_true_eq, value_lt_iff_aligned]
    · next apart =>
      rw [value_lt_of_same same]
      by_cases order : left.adjusted < right.adjusted
      · have lesser := magnitude_lt_of_adjusted rightSome order
        cases left.negative <;> simp [order, lesser, lesser.le]
      · have lesser := magnitude_lt_of_adjusted leftSome
          (lt_of_le_of_ne (not_lt.mp order) (Ne.symm apart))
        cases left.negative <;> simp [order, lesser, lesser.le]

/-- Two numbers are the same when they are one rational number at one exponent. -/
theorem isSame_iff_value (left right : Decimal) :
    left.isSame right = true ↔ left.value = right.value ∧ left.exponent = right.exponent := by
  rw [isSame, Bool.and_eq_true, decide_eq_true_eq, decide_eq_true_eq]
  constructor
  · rintro ⟨exponent, signed⟩
    exact ⟨by rw [value, value, exponent, signed], exponent⟩
  · rintro ⟨equal, exponent⟩
    have scale : (10 : ℚ) ^ right.exponent ≠ 0 := zpow_ne_zero _ (by norm_num)
    rw [value, value, exponent] at equal
    exact ⟨exponent, Int.cast_injective (mul_right_cancel₀ scale equal)⟩

end Blockscript.Decimal
