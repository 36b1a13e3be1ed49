import Blockscript.Decimal.Arithmetic
import Mathlib.Data.Nat.Log

/-!
# Digits of decimal numbers

How many digits a coefficient has, and what is left of it when its last digits are
dropped. Digits are counted by halving; the count is that of the logarithm.
-/

namespace Blockscript

/-- A power of ten is positive. -/
theorem tenTo_pos (exponent : Nat) : 0 < tenTo exponent :=
  Nat.pow_pos (by decide)

/-- Powers of ten are multiplied by adding their exponents. -/
theorem tenTo_add (first second : Nat) :
    tenTo (first + second) = tenTo first * tenTo second :=
  Nat.pow_add 10 first second

/-- A greater exponent gives no smaller power of ten. -/
theorem tenTo_le {first second : Nat} (order : first ≤ second) : tenTo first ≤ tenTo second :=
  Nat.pow_le_pow_right (by decide) order

/-- Powers of ten are in the order of their exponents. -/
theorem tenTo_lt {first second : Nat} : tenTo first < tenTo second ↔ first < second :=
  Nat.pow_lt_pow_iff_right (by decide)

/-- Splitting the digits in halves counts them, if there are no more than the level can
tell apart. -/
theorem digitCountAt_log (level : Nat) :
    ∀ number, number < tenTo (twoTo level) →
      digitCountAt level number = Nat.log 10 number + 1 := by
  induction level with
  | zero =>
    intro number small
    have digit : number < 10 := small
    rw [Nat.log_of_lt digit]
    rfl
  | succ level inductionHypothesis =>
    intro number small
    simp only [digitCountAt]
    by_cases lower : number < tenTo (twoTo level)
    · rw [if_pos lower]
      exact inductionHypothesis number lower
    · rw [if_neg lower]
      have halves : twoTo (level + 1) = twoTo level + twoTo level := by
        simp only [twoTo, Nat.pow_eq, Nat.pow_succ]
        omega
      have upper : number / tenTo (twoTo level) < tenTo (twoTo level) := by
        rw [halves, tenTo_add] at small
        exact Nat.div_lt_of_lt_mul small
      have atLeast : twoTo level ≤ Nat.log 10 number :=
        Nat.le_log_of_pow_le (by decide) (Nat.le_of_not_lt lower)
      have split : Nat.log 10 (number / tenTo (twoTo level)) = Nat.log 10 number - twoTo level :=
        Nat.log_div_base_pow 10 number (twoTo level)
      rw [inductionHypothesis _ upper, split]
      omega

/-- The number of digits of a number. -/
theorem digitCount_log (number : Nat) : digitCount number = Nat.log 10 number + 1 := by
  apply digitCountAt_log
  have binary : number < 2 ^ (number.log2 + 1) := Nat.lt_log2_self
  have enough : number.log2 + 1 ≤ twoTo (digitLevel number) := Nat.le_of_lt Nat.lt_log2_self
  calc
    number < 2 ^ (number.log2 + 1) := binary
    _ ≤ 2 ^ twoTo (digitLevel number) := Nat.pow_le_pow_right (by decide) enough
    _ ≤ tenTo (twoTo (digitLevel number)) := Nat.pow_le_pow_left (by decide) _

/-- A number has no more digits than the power of ten that it is below tells. -/
theorem digitCount_le_iff {number count : Nat} (some : 0 < count) :
    digitCount number ≤ count ↔ number < tenTo count := by
  by_cases zero : number = 0
  · subst zero
    have one : digitCount 0 = 1 := by
      rw [digitCount_log]
      rfl
    rw [one]
    exact ⟨fun _ => tenTo_pos count, fun _ => some⟩
  · rw [digitCount_log, Nat.add_one_le_iff]
    exact Nat.log_lt_iff_lt_pow (by decide) zero

/-- A number is below the power of ten that has one digit more. -/
theorem lt_tenTo_digitCount (number : Nat) : number < tenTo (digitCount number) :=
  (digitCount_le_iff (digitCount_pos number)).mp (Nat.le_refl _)

/-- A number is at least the power of ten with as many digits. -/
theorem tenTo_le_of_digits {number : Nat} (positive : number ≠ 0) :
    tenTo (digitCount number - 1) ≤ number := by
  rw [digitCount_log, Nat.add_sub_cancel]
  exact Nat.pow_log_le_self 10 positive

/-- A number up to a power of ten has at most the digits of that. -/
theorem digitCount_le_succ {number exponent : Nat} (bound : number ≤ tenTo exponent) :
    digitCount number ≤ exponent + 1 :=
  (digitCount_le_iff (Nat.succ_pos exponent)).mpr
    (Nat.lt_of_le_of_lt bound (tenTo_lt.mpr (Nat.lt_succ_self exponent)))

/-- Zero has one digit. -/
theorem digitCount_zero : digitCount 0 = 1 :=
  Nat.le_antisymm (digitCount_le_succ (Nat.zero_le _)) (digitCount_pos 0)

/-- One has one digit. -/
theorem digitCount_one : digitCount 1 = 1 :=
  Nat.le_antisymm ((digitCount_le_iff Nat.one_pos).mpr (by decide)) (digitCount_pos 1)

namespace Decimal

/-! ## Dropping digits -/

/-- The nearest integer is one of the two around the fraction. -/
theorem nearest_le (numerator denominator : Nat) :
    nearest numerator denominator ≤ numerator / denominator + 1 := by
  unfold nearest
  simp only
  split
  · exact Nat.le_refl _
  · exact Nat.le_succ _

/-- A fraction without a remainder is its own nearest integer. -/
theorem nearest_of_dvd {numerator denominator : Nat} (positive : 0 < denominator)
    (whole : numerator % denominator = 0) :
    nearest numerator denominator = numerator / denominator := by
  unfold nearest
  simp only [whole]
  rw [if_neg]
  simp only [Bool.or_eq_true, decide_eq_true_eq, Bool.and_eq_true]
  omega

/-- A fraction below one half is nearest to zero. -/
theorem nearest_small {numerator denominator : Nat} (small : 2 * numerator < denominator) :
    nearest numerator denominator = 0 := by
  unfold nearest
  rw [Nat.div_eq_of_lt (by omega), Nat.mod_eq_of_lt (by omega)]
  simp only
  rw [if_neg]
  simp only [Bool.or_eq_true, decide_eq_true_eq, Bool.and_eq_true]
  omega

/-- A number up to a power of ten stays up to that when digits are dropped. -/
theorem roundOff_le {coefficient exponent dropped : Nat} (bound : coefficient ≤ tenTo exponent)
    (inside : dropped ≤ exponent) :
    roundOff coefficient dropped ≤ tenTo (exponent - dropped) := by
  have split : tenTo exponent = tenTo dropped * tenTo (exponent - dropped) := by
    rw [← tenTo_add, Nat.add_sub_cancel' inside]
  have positive := tenTo_pos dropped
  unfold roundOff
  by_cases few : digitCount coefficient < dropped
  · rw [if_pos few]
    exact Nat.zero_le _
  · rw [if_neg few]
    rcases Nat.lt_or_eq_of_le bound with below | rfl
    · have quotient : coefficient / tenTo dropped < tenTo (exponent - dropped) := by
        rw [split] at below
        exact Nat.div_lt_of_lt_mul below
      exact (nearest_le _ _).trans quotient
    · rw [split, nearest_of_dvd positive (Nat.mul_mod_right _ _),
        Nat.mul_div_cancel_left _ positive]

/-- When more digits are dropped than a number has, nothing is left. -/
theorem roundOff_eq_zero {coefficient exponent dropped : Nat}
    (bound : coefficient ≤ tenTo exponent) (outside : exponent < dropped) :
    roundOff coefficient dropped = 0 := by
  unfold roundOff
  by_cases few : digitCount coefficient < dropped
  · rw [if_pos few]
  · rw [if_neg few]
    apply nearest_small
    have more : tenTo (exponent + 1) ≤ tenTo dropped := tenTo_le outside
    rw [tenTo_add, show tenTo 1 = 10 from rfl] at more
    have positive := tenTo_pos exponent
    omega

/-- Dropping digits leaves no more digits. -/
theorem digitCount_roundOff_le {coefficient dropped : Nat} (some : 0 < dropped) :
    digitCount (roundOff coefficient dropped) ≤ digitCount coefficient := by
  have bound : coefficient ≤ tenTo (digitCount coefficient) :=
    Nat.le_of_lt (lt_tenTo_digitCount coefficient)
  have positive := digitCount_pos coefficient
  by_cases inside : dropped ≤ digitCount coefficient
  · have left := digitCount_le_succ (roundOff_le bound inside)
    omega
  · rw [roundOff_eq_zero bound (Nat.lt_of_not_le inside), digitCount_zero]
    exact positive

end Decimal

end Blockscript
