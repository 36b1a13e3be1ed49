import Blockscript.Proofs.Decimal.Digits
import Blockscript.Typing.Rules
import Mathlib.Algebra.Order.Field.Power
import Mathlib.Algebra.Order.Ring.Rat

/-!
# Magnitudes of decimal numbers

Which decimal literals have room in a double is decided on digits, so that no long number
is built where the order of magnitude settles it. Here the decision is told on the numbers
themselves.
-/

namespace Blockscript

namespace Decimal

variable {number : Decimal}

/-- How large a number is, whatever its sign. -/
def magnitude (number : Decimal) : ℚ :=
  number.coefficient * 10 ^ number.exponent

/-- A power of ten is the same among the rational numbers. -/
theorem cast_tenTo (exponent : Nat) : (tenTo exponent : ℚ) = 10 ^ (exponent : Int) := by
  rw [tenTo, zpow_natCast]
  exact Nat.cast_pow 10 exponent

/-- A number is below the power of ten behind its order of magnitude. -/
theorem magnitude_lt (number : Decimal) : number.magnitude < 10 ^ (number.adjusted + 1) := by
  have digits : (number.coefficient : ℚ) < 10 ^ (digitCount number.coefficient : Int) := by
    rw [← cast_tenTo]
    exact Nat.cast_lt.mpr (lt_tenTo_digitCount number.coefficient)
  have scale : (0 : ℚ) < 10 ^ number.exponent := zpow_pos (by norm_num) _
  calc
    number.magnitude < 10 ^ (digitCount number.coefficient : Int) * 10 ^ number.exponent :=
      mul_lt_mul_of_pos_right digits scale
    _ = 10 ^ (number.adjusted + 1) := by
      rw [← zpow_add₀ (by norm_num)]
      congr 1
      unfold adjusted
      omega

/-- A number other than zero is at least the power of ten of its order of magnitude. -/
theorem le_magnitude (nonzero : number.coefficient ≠ 0) :
    10 ^ number.adjusted ≤ number.magnitude := by
  have digits : (10 : ℚ) ^ ((digitCount number.coefficient - 1 : Nat) : Int) ≤
      number.coefficient := by
    rw [← cast_tenTo]
    exact Nat.cast_le.mpr (tenTo_le_of_digits nonzero)
  have scale : (0 : ℚ) ≤ 10 ^ number.exponent := zpow_nonneg (by norm_num) _
  have some := digitCount_pos number.coefficient
  calc
    (10 : ℚ) ^ number.adjusted =
        10 ^ ((digitCount number.coefficient - 1 : Nat) : Int) * 10 ^ number.exponent := by
      rw [← zpow_add₀ (by norm_num)]
      congr 1
      unfold adjusted
      omega
    _ ≤ number.magnitude := mul_le_mul_of_nonneg_right digits scale

/-- A magnitude is compared with a whole number on whole numbers. -/
theorem magnitude_lt_cast (number : Decimal) (limit : Nat) :
    number.magnitude < limit ↔
      number.coefficient * tenTo number.exponent.toNat <
        limit * tenTo (-number.exponent).toNat := by
  have scale : (0 : ℚ) < tenTo (-number.exponent).toNat := Nat.cast_pos.mpr (tenTo_pos _)
  have shifted : number.magnitude * tenTo (-number.exponent).toNat =
      ((number.coefficient * tenTo number.exponent.toNat : Nat) : ℚ) := by
    rw [magnitude, Nat.cast_mul, cast_tenTo, cast_tenTo, mul_assoc, ← zpow_add₀ (by norm_num)]
    congr 2
    omega
  rw [← mul_lt_mul_iff_left₀ scale, shifted, ← Nat.cast_mul, Nat.cast_lt]

end Decimal

namespace Typing

/-- The limit lies between the powers of ten that the decision looks at. -/
theorem doubleLimit_between : tenTo 308 < doubleLimit ∧ doubleLimit < tenTo 309 := by
  decide +kernel

/-- A difference of powers of two is the same among the rational numbers. -/
theorem cast_powers {low high : Nat} (order : low ≤ high) :
    ((Nat.pow 2 high - Nat.pow 2 low : Nat) : ℚ) = 2 ^ high - 2 ^ low := by
  have powers : Nat.pow 2 low ≤ Nat.pow 2 high := Nat.pow_le_pow_right Nat.two_pos order
  rw [Nat.cast_sub powers]
  exact congrArg₂ (· - ·) (Nat.cast_pow 2 high) (Nat.cast_pow 2 low)

/-- The limit in powers of two. -/
theorem cast_doubleLimit : (doubleLimit : ℚ) = 2 ^ 1024 - 2 ^ 970 := by
  unfold doubleLimit
  apply cast_powers
  omega

/-- A decimal literal is accepted when its magnitude rounds to a finite double, which it
does below the middle between the greatest double and the next power of two. -/
theorem fitsDecimal_iff (number : Decimal) :
    fitsDecimal number = true ↔ number.magnitude < doubleLimit := by
  have ten : (1 : ℚ) ≤ 10 := by norm_num
  have limits := doubleLimit_between
  unfold fitsDecimal
  -- From here on the limit is some number between the two powers of ten.
  generalize doubleLimit = limit at limits ⊢
  by_cases zero : number.coefficient = 0
  · have nothing : number.magnitude = 0 := by
      simp [Decimal.magnitude, zero]
    have positive : (0 : ℚ) < limit := Nat.cast_pos.mpr (Nat.zero_lt_of_lt limits.1)
    simp [Decimal.isZero, zero, nothing, positive]
  · by_cases lower : number.adjusted < 308
    · have below : number.magnitude < limit := by
        calc
          number.magnitude < 10 ^ (number.adjusted + 1) := number.magnitude_lt
          _ ≤ 10 ^ ((308 : Nat) : Int) := zpow_le_zpow_right₀ ten (by omega)
          _ = tenTo 308 := (Decimal.cast_tenTo 308).symm
          _ < limit := Nat.cast_lt.mpr limits.1
      simp [lower, below]
    · by_cases higher : 308 < number.adjusted
      · have above : (limit : ℚ) ≤ number.magnitude := by
          calc
            (limit : ℚ) ≤ tenTo 309 := Nat.cast_le.mpr (Nat.le_of_lt limits.2)
            _ = 10 ^ ((309 : Nat) : Int) := Decimal.cast_tenTo 309
            _ ≤ 10 ^ number.adjusted := zpow_le_zpow_right₀ ten (by omega)
            _ ≤ number.magnitude := Decimal.le_magnitude zero
        simp [Decimal.isZero, zero, lower, higher, above]
      · simp [Decimal.isZero, zero, lower, higher, Decimal.magnitude_lt_cast]

end Typing

end Blockscript
