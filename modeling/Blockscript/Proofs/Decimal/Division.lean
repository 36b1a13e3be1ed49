import Blockscript.Proofs.Decimal.Exactness
import Blockscript.Proofs.Decimal.Nearest
import Mathlib.Data.Int.Log
import Mathlib.Data.Nat.Cast.Field

/-!
# What a division rounds to

A quotient is rounded twice, to the working precision and then to the exponent of the
dividend. Inside of the exponent range it always has that exponent, and it is the nearest
number there, ties to the even one, unless the first rounding has misjudged it: unless the
exact quotient lies just past the middle of two numbers next to an even one, no further than
half of the last digit of the working precision. A divisor with at most 29 digits, of which
none lies before the units, does not divide anything so closely.
-/

namespace Blockscript.Decimal

open Context (largest smallest)

variable {context : Context} {number left right : Decimal} {order : Int}

/-! ## One rounding -/

/-- A number in the range is brought into it as it is. -/
theorem bound_inside (top : number.adjusted ≤ largest) (bottom : smallest ≤ number.adjusted) :
    context.bound number = .ok number := by
  unfold Context.bound
  rw [if_neg (by omega), if_neg (by simp; omega)]

/-- A zero whose exponent is in the range is kept as it is. -/
theorem finish_zero (some : 0 < context.precision) (zero : number.coefficient = 0)
    (top : number.exponent ≤ largest) (bottom : smallest ≤ number.exponent) :
    context.finish number = .ok number := by
  have alone := adjusted_of_zero zero
  have fits : digitCount number.coefficient ≤ context.precision := by
    rw [zero, digitCount_zero]
    exact some
  rw [finish_of_fits fits]
  exact bound_inside (by omega) (by omega)

/-- The number of digits of a power of ten. -/
theorem digitCount_tenTo (exponent : Nat) : digitCount (tenTo exponent) = exponent + 1 := by
  apply Nat.le_antisymm (digitCount_le_succ (Nat.le_refl _))
  by_contra fewer
  have some := digitCount_pos (tenTo exponent)
  have below := lt_tenTo_digitCount (tenTo exponent)
  have order := tenTo_le (show digitCount (tenTo exponent) ≤ exponent by omega)
  omega

/-- Where the last digit of a number lies that is rounded to the precision. -/
def Context.grid (context : Context) (number : Decimal) : Int :=
  number.adjusted - context.precision + 1

/-- A magnitude in units of a power of ten. -/
theorem magnitude_div (number : Decimal) (exponent : Int) :
    number.magnitude / 10 ^ exponent = number.coefficient * 10 ^ (number.exponent - exponent) := by
  rw [magnitude, mul_div_assoc, zpow_sub₀ (by norm_num)]

/-- Rounding off lengthens a number to a power of ten at most, and only to that. -/
theorem roundOff_carry {coefficient dropped room : Nat}
    (digits : digitCount coefficient = room + dropped) (some : 0 < room)
    (longer : room < digitCount (roundOff coefficient dropped)) :
    roundOff coefficient dropped = tenTo room := by
  apply Nat.le_antisymm
  · have bound : coefficient ≤ tenTo (room + dropped) := by
      rw [← digits]
      exact Nat.le_of_lt (lt_tenTo_digitCount coefficient)
    have rounded := roundOff_le bound (Nat.le_add_left dropped room)
    rwa [Nat.add_sub_cancel] at rounded
  · by_contra less
    have fits := (digitCount_le_iff some).mpr (Nat.lt_of_not_le less)
    omega

/-- A number that rounding off lengthens ends in a zero, without which it has the right
length. -/
theorem carry_digits {coefficient dropped room : Nat}
    (digits : digitCount coefficient = room + dropped) (some : 0 < room)
    (longer : room < digitCount (roundOff coefficient dropped)) :
    ∃ shorter, roundOff coefficient dropped = shorter * 10 ∧ digitCount shorter = room := by
  have power := roundOff_carry digits some longer
  obtain ⟨count, rfl⟩ : ∃ count, room = count + 1 := ⟨room - 1, by omega⟩
  exact ⟨tenTo count, power.trans (tenTo_add count 1), digitCount_tenTo count⟩

/-- A number that is not near the ends of the range is rounded to the precision of a
context: to the nearest multiple of the last digit kept. -/
theorem finish_rounds (some : 0 < context.precision) (top : number.adjusted < largest)
    (bottom : smallest ≤ number.adjusted) :
    ∃ result rounded, context.finish number = .ok result ∧ result.negative = number.negative ∧
      HalfEven (number.magnitude / 10 ^ context.grid number) rounded ∧
      result.magnitude = rounded * 10 ^ context.grid number := by
  have scale : (10 : ℚ) ^ context.grid number ≠ 0 := zpow_ne_zero _ (by norm_num)
  have place : context.grid number =
      number.exponent + digitCount number.coefficient - context.precision := by
    unfold Context.grid Decimal.adjusted
    omega
  simp only [Context.finish, bound_inside top.le bottom, bind, Except.bind, Context.round]
  by_cases fits : digitCount number.coefficient ≤ context.precision
  · -- No digit is dropped: the number is a multiple of the last one kept.
    have whole : number.magnitude / 10 ^ context.grid number =
        (number.coefficient * tenTo (number.exponent - context.grid number).toNat : Nat) := by
      rw [magnitude_div, Nat.cast_mul, cast_tenTo]
      congr 2
      omega
    rw [if_pos (by omega)]
    refine ⟨number, _, rfl, rfl, whole ▸ halfEven_self _, ?_⟩
    rw [← whole, div_mul_cancel₀ _ scale]
  · obtain ⟨excess, digits⟩ : ∃ excess, digitCount number.coefficient =
        context.precision + excess :=
      ⟨digitCount number.coefficient - context.precision, by omega⟩
    have dropped : digitCount number.coefficient - context.precision = excess := by
      omega
    have grid : context.grid number = number.exponent + excess := by
      omega
    have fraction : number.magnitude / 10 ^ context.grid number =
        number.coefficient / 10 ^ excess := by
      rw [magnitude_div, grid, sub_add_cancel_left, zpow_neg, zpow_natCast, div_eq_mul_inv]
    have rounded : HalfEven (number.magnitude / 10 ^ context.grid number)
        (roundOff number.coefficient excess) :=
      fraction ▸ roundOff_halfEven number.coefficient excess
    rw [dropped, if_neg (by omega)]
    by_cases longer : context.precision < digitCount (roundOff number.coefficient excess)
    · obtain ⟨shorter, whole, count⟩ := carry_digits digits some longer
      have tenth : roundOff number.coefficient excess / 10 = shorter := by
        rw [whole]
        exact Nat.mul_div_cancel _ (by norm_num)
      have adjusted : (⟨number.negative, shorter, number.exponent + excess + 1⟩ :
          Decimal).adjusted = number.adjusted + 1 := by
        simp only [Decimal.adjusted, count, digits]
        omega
      rw [if_pos longer, tenth, bound_inside (by omega) (by omega)]
      refine ⟨_, _, rfl, rfl, rounded, ?_⟩
      rw [whole, grid, magnitude, zpow_add₀ (by norm_num)]
      push_cast
      ring
    · rw [if_neg longer]
      refine ⟨_, _, rfl, rfl, rounded, ?_⟩
      rw [grid]
      rfl

/-- Moving a number to another exponent rounds it there. -/
theorem moved_rounds (number : Decimal) (exponent : Int) :
    HalfEven (number.magnitude / 10 ^ exponent) (number.moved exponent).coefficient := by
  rw [magnitude_div]
  unfold moved
  split
  · next wide =>
    have whole : (number.coefficient : ℚ) * 10 ^ (number.exponent - exponent) =
        (number.coefficient * tenTo (number.exponent - exponent).toNat : Nat) := by
      rw [Nat.cast_mul, cast_tenTo]
      congr 2
      omega
    rw [whole]
    exact halfEven_self _
  · next narrow =>
    have fraction : (number.coefficient : ℚ) * 10 ^ (number.exponent - exponent) =
        number.coefficient / 10 ^ (-(number.exponent - exponent)).toNat := by
      rw [div_eq_mul_inv, ← zpow_natCast, ← zpow_neg]
      congr 2
      omega
    rw [fraction]
    exact roundOff_halfEven _ _

/-- A number that stays in the range is given another exponent, and rounded there. -/
theorem rescale_rounds {exponent : Int} (atMost : AtMost order number) (top : order ≤ largest)
    (inside : smallest ≤ exponent ∧ exponent ≤ largest) (some : 0 < context.precision)
    (room : order + 1 - exponent ≤ context.precision) :
    ∃ result, rescale context number exponent = .ok result ∧
      result.negative = number.negative ∧ result.exponent = exponent ∧
      HalfEven (number.magnitude / 10 ^ exponent) result.coefficient := by
  have tiny : context.tiny = smallest - context.precision + 1 := rfl
  by_cases zero : number.coefficient = 0
  · refine ⟨⟨number.negative, number.coefficient, exponent⟩, ?_, rfl, rfl, ?_⟩
    · unfold rescale
      rw [if_neg (by simp; omega), if_pos (by simpa [isZero] using zero)]
      exact finish_zero some zero inside.2 inside.1
    · rw [magnitude, zero, Nat.cast_zero, zero_mul, zero_div]
      exact_mod_cast halfEven_self 0
  · have most := (atMost.moved zero exponent).adjusted_le
    have least := exponent_le_adjusted (number.moved exponent)
    rw [moved_exponent] at most least
    have fits : digitCount (number.moved exponent).coefficient ≤ context.precision := by
      rcases atMost.moved zero exponent with none | ⟨_, bound⟩
      · rw [none, digitCount_zero]
        exact some
      · rw [moved_exponent] at bound
        have digits := digitCount_le_succ bound
        omega
    refine ⟨number.moved exponent, ?_, ?_, moved_exponent number exponent,
      moved_rounds number exponent⟩
    · rw [rescale_moved zero atMost (by omega) room, if_neg (by simp; omega),
        finish_of_fits fits]
      exact bound_inside (by omega) (by omega)
    · unfold moved
      split
      · rfl
      · rfl

/-! ## The quotient -/

/-- The quotient without its sign, in units of the last digit of the dividend. -/
def units (left right : Decimal) : ℚ :=
  left.coefficient / right.magnitude

/-- A fraction of whole numbers stays one when it is moved by a power of ten: the power goes
to the numerator or to the denominator. -/
theorem fraction_shift (numerator denominator : Nat) (shift : Int) :
    (numerator : ℚ) / denominator * 10 ^ shift =
      (numerator * tenTo shift.toNat : Nat) / (denominator * tenTo (-shift).toNat : Nat) := by
  have low : (0 : ℚ) < 10 ^ ((-shift).toNat : Int) := zpow_pos (by norm_num) _
  have split : (10 : ℚ) ^ (shift.toNat : Int) = 10 ^ shift * 10 ^ ((-shift).toNat : Int) := by
    rw [← zpow_add₀ (by norm_num)]
    congr 1
    omega
  rw [Nat.cast_mul, Nat.cast_mul, cast_tenTo, cast_tenTo, split, ← mul_assoc,
    mul_div_mul_right _ _ low.ne', div_mul_eq_mul_div]

/-- The exact quotient in units of the dividend is the quotient of the coefficients, shifted by
the exponent of the divisor. -/
theorem units_shift (left right : Decimal) :
    units left right = left.coefficient / right.coefficient * 10 ^ (-right.exponent) := by
  rw [units, magnitude, zpow_neg, div_mul_eq_div_div, div_eq_mul_inv _ (10 ^ right.exponent)]

/-- The exact quotient in units, as a fraction of whole numbers. -/
theorem units_fraction (left right : Decimal) :
    units left right = (left.coefficient * tenTo (-right.exponent).toNat : Nat) /
      (right.coefficient * tenTo right.exponent.toNat : Nat) := by
  rw [units_shift, fraction_shift, neg_neg]

/-- How many digits behind the last one of the dividend are computed of a quotient: one or
two more than the precision in all. -/
def Context.depth (context : Context) (left right : Decimal) : Int :=
  digitCount right.coefficient - digitCount left.coefficient + context.precision + 1 +
    right.exponent

/-- What is computed of a quotient stands for it. -/
theorem quotient_stands (context : Context) (dividend : left.coefficient ≠ 0)
    (divisor : right.coefficient ≠ 0) :
    ∃ raw, ∃ digits : Nat, quotient context left right = context.finish raw ∧
      raw.negative = (left.negative != right.negative) ∧
      raw.magnitude = digits * 10 ^ (left.exponent - context.depth left right) ∧
      StandsFor digits (units left right * 10 ^ context.depth left right) := by
  unfold quotient
  rw [if_neg (by simpa [isZero] using dividend)]
  have depth : context.depth left right = (digitCount right.coefficient -
      digitCount left.coefficient + context.precision + 1 : Int) + right.exponent := rfl
  simp only
  generalize (digitCount right.coefficient - digitCount left.coefficient + context.precision + 1 :
    Int) = shift at depth ⊢
  have positive : 0 < right.coefficient * tenTo (-shift).toNat :=
    Nat.mul_pos (Nat.pos_of_ne_zero divisor) (tenTo_pos _)
  have quotient : units left right * 10 ^ context.depth left right =
      (left.coefficient * tenTo shift.toNat : Nat) /
        (right.coefficient * tenTo (-shift).toNat : Nat) := by
    rw [← fraction_shift, units_shift, mul_assoc, ← zpow_add₀ (by norm_num), depth]
    congr 2
    omega
  have place : left.exponent - context.depth left right =
      left.exponent - right.exponent - shift := by
    omega
  rw [quotient, place]
  generalize left.coefficient * tenTo shift.toNat = numerator
  generalize right.coefficient * tenTo (-shift).toNat = denominator at positive
  split
  · next whole =>
    have whole_eq : (stripZeros (numerator / denominator) shift.toNat).1 *
        tenTo (stripZeros (numerator / denominator) shift.toNat).2 = numerator / denominator :=
      stripZerosAt_eq _ _ _
    generalize stripZeros (numerator / denominator) shift.toNat = stripped at whole_eq ⊢
    refine ⟨_, numerator / denominator, rfl, rfl, ?_, ?_⟩
    · have cast : ((numerator / denominator : Nat) : ℚ) =
          stripped.1 * 10 ^ (stripped.2 : Int) := by
        rw [← cast_tenTo, ← Nat.cast_mul, whole_eq]
      rw [cast, magnitude, mul_assoc, ← zpow_add₀ (by norm_num)]
      congr 2
      exact Int.add_comm _ _
    · have exactly : (numerator : ℚ) / denominator = (numerator / denominator : Nat) :=
        (Nat.cast_div (Nat.dvd_of_mod_eq_zero whole) (by exact_mod_cast positive.ne')).symm
      rw [exactly]
      exact standsFor_self _
  · next inexact => exact ⟨_, _, rfl, rfl, rfl, standsFor_quotient positive inexact⟩

/-- The quotient is the magnitudes divided, as a number of units. -/
theorem units_eq (left right : Decimal) :
    units left right = left.magnitude / (right.magnitude * 10 ^ left.exponent) := by
  have scale : (10 : ℚ) ^ left.exponent ≠ 0 := zpow_ne_zero _ (by norm_num)
  rw [units, magnitude.eq_def left, mul_div_mul_right _ _ scale]

/-- The magnitude of a number that is not zero is positive. -/
theorem magnitude_pos (nonzero : number.coefficient ≠ 0) : 0 < number.magnitude :=
  mul_pos (Nat.cast_pos.mpr (Nat.pos_of_ne_zero nonzero)) (zpow_pos (by norm_num) _)

/-- The quotient of two numbers that are not zero is positive in units, too. -/
theorem units_pos (dividend : left.coefficient ≠ 0) (divisor : right.coefficient ≠ 0) :
    0 < units left right :=
  div_pos (Nat.cast_pos.mpr (Nat.pos_of_ne_zero dividend)) (magnitude_pos divisor)

/-- The orders of magnitude of the operands tell that of the quotient, or one more. -/
theorem units_log (dividend : left.coefficient ≠ 0) (divisor : right.coefficient ≠ 0) :
    left.adjusted - right.adjusted - left.exponent - 1 ≤ Int.log 10 (units left right) ∧
      Int.log 10 (units left right) ≤ left.adjusted - right.adjusted - left.exponent := by
  have power (exponent : Int) : (0 : ℚ) < 10 ^ exponent := zpow_pos (by norm_num) _
  have below : 0 < right.magnitude * 10 ^ left.exponent :=
    mul_pos (magnitude_pos divisor) (power _)
  have positive := units_pos dividend divisor
  constructor
  · rw [← Int.zpow_le_iff_le_log (by norm_num) positive, units_eq, le_div_iff₀ below]
    have above := mul_le_mul_of_nonneg_right right.magnitude_lt.le (power left.exponent).le
    calc
      (10 : ℚ) ^ (left.adjusted - right.adjusted - left.exponent - 1) *
            (right.magnitude * 10 ^ left.exponent)
          ≤ 10 ^ (left.adjusted - right.adjusted - left.exponent - 1) *
            (10 ^ (right.adjusted + 1) * 10 ^ left.exponent) :=
        mul_le_mul_of_nonneg_left above (power _).le
      _ = 10 ^ left.adjusted := by
        rw [← zpow_add₀ (by norm_num), ← zpow_add₀ (by norm_num)]
        congr 1
        omega
      _ ≤ left.magnitude := le_magnitude dividend
  · rw [← Int.lt_add_one_iff, ← Int.lt_zpow_iff_log_lt (by norm_num) positive, units_eq,
      div_lt_iff₀ below]
    have least := mul_le_mul_of_nonneg_right (le_magnitude divisor) (power left.exponent).le
    calc
      left.magnitude < 10 ^ (left.adjusted + 1) := left.magnitude_lt
      _ = 10 ^ (left.adjusted - right.adjusted - left.exponent + 1) *
            (10 ^ right.adjusted * 10 ^ left.exponent) := by
        rw [← zpow_add₀ (by norm_num), ← zpow_add₀ (by norm_num)]
        congr 1
        omega
      _ ≤ 10 ^ (left.adjusted - right.adjusted - left.exponent + 1) *
            (right.magnitude * 10 ^ left.exponent) :=
        mul_le_mul_of_nonneg_left least (power _).le

/-- A power of ten moves the order of magnitude. -/
theorem log_mul_zpow {number : ℚ} (positive : 0 < number) (exponent : Int) :
    Int.log 10 (number * 10 ^ exponent) = Int.log 10 number + exponent := by
  have power : (0 : ℚ) < 10 ^ exponent := zpow_pos (by norm_num) _
  have product : 0 < number * 10 ^ exponent := mul_pos positive power
  have moves (order : Int) : (10 : ℚ) ^ (order + exponent) = 10 ^ order * 10 ^ exponent :=
    zpow_add₀ (by norm_num) _ _
  apply le_antisymm
  · rw [← Int.lt_add_one_iff, ← Int.lt_zpow_iff_log_lt (by norm_num) product,
      add_right_comm]
    push_cast
    rw [moves]
    exact mul_lt_mul_of_pos_right (Int.lt_zpow_succ_log_self (by norm_num) number) power
  · rw [← Int.zpow_le_iff_le_log (by norm_num) product]
    push_cast
    rw [moves]
    exact mul_le_mul_of_nonneg_right (Int.zpow_log_le_self (by norm_num) positive) power.le

/-- The order of magnitude of a number is that of its leading digit. -/
theorem log_magnitude (nonzero : number.coefficient ≠ 0) :
    Int.log 10 number.magnitude = number.adjusted := by
  rw [magnitude, log_mul_zpow (Nat.cast_pos.mpr (Nat.pos_of_ne_zero nonzero)), Int.log_natCast,
    adjusted, digitCount_log]
  push_cast
  omega

/-- Digits that stand for a number are as many as those before its point. -/
theorem StandsFor.log {digits : Nat} {exact : ℚ} (stands : StandsFor digits exact)
    (more : 10 ≤ exact) : (digitCount digits : Int) = Int.log 10 exact + 1 := by
  have positive : 0 < exact := by linarith
  -- A power of ten is a multiple of five, so the digits reach it if the number does.
  have reaches (count : Nat) : (10 : ℚ) ^ ((count + 1 : Nat) : Int) ≤ exact ↔
      tenTo (count + 1) ≤ digits := by
    have fives := (stands (2 * tenTo count)).1
    have power : tenTo (count + 1) = 5 * (2 * tenTo count) := by
      rw [tenTo_add, show tenTo 1 = 10 from rfl]
      omega
    rw [← cast_tenTo, power]
    push_cast at fives ⊢
    exact fives.trans (by norm_cast)
  obtain ⟨count, log⟩ : ∃ count : Nat, Int.log 10 exact = (count + 1 : Nat) := by
    have least : 1 ≤ Int.log 10 exact :=
      (Int.zpow_le_iff_le_log (by norm_num) positive).mp (by simpa using more)
    exact ⟨(Int.log 10 exact).toNat - 1, by omega⟩
  have reached := (reaches count).mp
    (log ▸ Int.zpow_log_le_self (by norm_num) positive)
  have missed : ¬tenTo (count + 1 + 1) ≤ digits := by
    rw [← reaches, not_le]
    have next := Int.lt_zpow_succ_log_self (b := 10) (by norm_num) exact
    rw [log] at next
    exact_mod_cast next
  have upper := (digitCount_le_iff (Nat.succ_pos (count + 1))).mpr (Nat.lt_of_not_le missed)
  have lower := mt (digitCount_le_iff (Nat.succ_pos count)).mp (Nat.not_lt_of_le reached)
  omega

/-- How many digits behind the last one of the dividend the first rounding keeps. -/
def Context.guard (context : Context) (left right : Decimal) : Nat :=
  (context.precision - 1 - Int.log 10 (units left right)).toNat

/-- The quotient of two numbers away from the ends of the range is rounded to the precision
of the context. -/
theorem quotient_rounds (some : 0 < context.precision) (dividend : left.coefficient ≠ 0)
    (divisor : right.coefficient ≠ 0) (top : left.adjusted - right.adjusted < largest)
    (bottom : smallest < left.adjusted - right.adjusted)
    (kept : Int.log 10 (units left right) < context.precision) :
    ∃ raw, ∃ first : Nat, quotient context left right = .ok raw ∧
      raw.negative = (left.negative != right.negative) ∧
      HalfEven (units left right * 10 ^ context.guard left right) first ∧
      raw.magnitude = first * 10 ^ (left.exponent - context.guard left right) := by
  obtain ⟨exact, digits, shape, sign, magnitude, stands⟩ :=
    quotient_stands context dividend divisor
  obtain ⟨least, most⟩ := units_log dividend divisor
  have depth : context.depth left right =
      right.adjusted - left.adjusted + left.exponent + context.precision + 1 := by
    unfold Context.depth Decimal.adjusted
    omega
  have power (exponent : Int) : (0 : ℚ) < 10 ^ exponent := zpow_pos (by norm_num) _
  have positive : 0 < units left right := units_pos dividend divisor
  have order := log_mul_zpow positive (context.depth left right)
  have enough : (10 : ℚ) ≤ units left right * 10 ^ context.depth left right := by
    have least : (1 : Int) ≤ Int.log 10 (units left right * 10 ^ context.depth left right) := by
      omega
    simpa using (Int.zpow_le_iff_le_log (by norm_num) (mul_pos positive (power _))).mpr least
  have count := stands.log enough
  have digit : digits ≠ 0 := by
    rintro rfl
    rw [digitCount_zero] at count
    omega
  have adjusted : exact.adjusted = left.exponent + Int.log 10 (units left right) := by
    have nonzero : exact.coefficient ≠ 0 := by
      intro none
      rw [Decimal.magnitude, none, Nat.cast_zero, zero_mul] at magnitude
      exact (mul_pos (Nat.cast_pos.mpr (Nat.pos_of_ne_zero digit)) (power _)).ne magnitude
    rw [← log_magnitude nonzero, magnitude,
      log_mul_zpow (Nat.cast_pos.mpr (Nat.pos_of_ne_zero digit)), Int.log_natCast]
    rw [digitCount_log] at count
    push_cast at count
    omega
  have grid : context.grid exact = left.exponent - context.guard left right := by
    unfold Context.grid Context.guard
    omega
  obtain ⟨raw, first, given, same, rounded, size⟩ :=
    @finish_rounds context exact some (by omega) (by omega)
  obtain ⟨dropped, places⟩ : ∃ dropped : Nat,
      context.depth left right = context.guard left right + (dropped + 1 : Nat) :=
    ⟨(context.depth left right - context.guard left right - 1).toNat, by
      unfold Context.guard
      omega⟩
  have digitsBehind : exact.magnitude / 10 ^ context.grid exact = digits / 10 ^ (dropped + 1) := by
    rw [magnitude, mul_div_assoc, ← zpow_sub₀ (by norm_num), div_eq_mul_inv, ← zpow_natCast,
      ← zpow_neg]
    congr 2
    omega
  have unitsBehind : units left right * 10 ^ context.guard left right =
      units left right * 10 ^ context.depth left right / 10 ^ (dropped + 1) := by
    rw [places, zpow_add₀ (by norm_num), zpow_natCast, zpow_natCast, ← mul_assoc,
      mul_div_cancel_right₀ _ (by positivity)]
  refine ⟨raw, first, shape.trans given, same.trans sign, ?_, grid ▸ size⟩
  rw [unitsBehind]
  exact stands.halfEven (digitsBehind ▸ rounded)

/-! ## The quotient at the exponent of the dividend -/

/-- The exponent and the order of magnitude of a number are far from the ends of the
range. -/
def Moderate (number : Decimal) : Prop :=
  number.exponent.natAbs ≤ 1000 ∧ number.adjusted.natAbs ≤ 1000

instance (number : Decimal) : Decidable number.Moderate :=
  inferInstanceAs (Decidable (_ ∧ _))

/-- The first rounding keeps 29 digits at least behind the last place of the dividend. -/
theorem guard_most (dividend : left.coefficient ≠ 0) (divisor : right.coefficient ≠ 0) :
    29 ≤ (divisionContext left right).guard left right ∧
      Int.log 10 (units left right) < (divisionContext left right).precision := by
  have most := (units_log dividend divisor).2
  have room := (divisionContext_room left right).2
  unfold Context.guard
  omega

/-- The quotient of zero is zero, at the difference of the exponents. -/
theorem quotient_of_zero (some : 0 < context.precision) (zero : left.coefficient = 0)
    (top : left.exponent - right.exponent ≤ largest)
    (bottom : smallest ≤ left.exponent - right.exponent) :
    quotient context left right =
      .ok ⟨left.negative != right.negative, 0, left.exponent - right.exponent⟩ := by
  unfold quotient
  rw [if_pos (by simpa [isZero] using zero)]
  exact finish_zero some rfl top bottom

/-- A division rounds the quotient twice: to so many digits behind the last place of the
dividend, and to that place. -/
theorem divide_rounds (moderate : Moderate left ∧ Moderate right)
    (divisor : right.coefficient ≠ 0) :
    ∃ result, ∃ first : Nat, divide left right = .ok result ∧
      result.negative = (left.negative != right.negative) ∧ result.exponent = left.exponent ∧
      HalfEven (units left right * 10 ^ (divisionContext left right).guard left right) first ∧
      HalfEven (first / 10 ^ (divisionContext left right).guard left right)
        result.coefficient := by
  have top : largest = 999999 := rfl
  have bottom : smallest = -999999 := rfl
  obtain ⟨⟨leftExponent, leftAdjusted⟩, rightExponent, rightAdjusted⟩ := moderate
  obtain ⟨some, room⟩ := divisionContext_room left right
  have guard := @guard_most left right
  unfold divide
  simp only
  generalize divisionContext left right = context at some room guard
  obtain ⟨raw, first, given, sign, fine, size⟩ : ∃ raw, ∃ first : Nat,
      quotient context left right = .ok raw ∧
      raw.negative = (left.negative != right.negative) ∧
      HalfEven (units left right * 10 ^ context.guard left right) first ∧
      raw.magnitude = first * 10 ^ (left.exponent - context.guard left right) := by
    by_cases zero : left.coefficient = 0
    · refine ⟨⟨_, 0, left.exponent - right.exponent⟩, 0, ?_, rfl, ?_, ?_⟩
      · exact quotient_of_zero (by omega) zero (by omega) (by omega)
      · rw [units, zero, Nat.cast_zero, zero_div, zero_mul]
        exact_mod_cast halfEven_self 0
      · rw [magnitude, Nat.cast_zero, zero_mul, zero_mul]
    · exact quotient_rounds (by omega) zero divisor (by omega) (by omega) (guard zero divisor).2
  have atMost : AtMost (left.adjusted - right.adjusted + 1) raw := by
    obtain ⟨exact, shape, atMost⟩ := quotient_finish context left divisor
    exact finish_ok (shape ▸ given) atMost
  have unit : context.finish { one with exponent := left.exponent } =
      .ok { one with exponent := left.exponent } := by
    rw [finish_of_fits (by simp only [one, digitCount_one]; omega)]
    exact bound_inside (by rw [one, adjusted_unit]; omega) (by rw [one, adjusted_unit]; omega)
  obtain ⟨result, rescaled, same, exponent, coarse⟩ :=
    @rescale_rounds context raw _ left.exponent atMost (by omega) (by omega) (by omega) (by omega)
  refine ⟨result, first, ?_, same.trans sign, exponent, fine, ?_⟩
  · simp only [given, unit, bind, Except.bind]
    exact rescaled
  · have behind : raw.magnitude / 10 ^ left.exponent =
        first / 10 ^ context.guard left right := by
      rw [size, mul_div_assoc, ← zpow_sub₀ (by norm_num), div_eq_mul_inv, ← zpow_natCast,
        ← zpow_neg]
      congr 2
      omega
    exact behind ▸ coarse

/-- The number is the multiple of a power of ten that is nearest to a fraction, and has an
even last digit if two are equally near. -/
structure RoundsTo (exponent : Int) (exact : ℚ) (result : Decimal) : Prop where
  place : result.exponent = exponent
  nearest : ∀ other : Int, |result.value - exact| ≤ |other * 10 ^ exponent - exact|
  even : ∀ other : Int, other * 10 ^ exponent ≠ result.value →
    |result.value - exact| = |other * 10 ^ exponent - exact| → result.coefficient % 2 = 0

/-- The sign of a number, as a factor. -/
def sign (negative : Bool) : Int :=
  if negative then -1 else 1

/-- The signed coefficient is the sign times the coefficient. -/
theorem signed_eq (number : Decimal) :
    number.signed = sign number.negative * number.coefficient := by
  unfold signed sign
  split
  · omega
  · omega

/-- A sign times itself is one. -/
theorem sign_mul_self (negative : Bool) : sign negative * sign negative = 1 := by
  cases negative
  · rfl
  · rfl

/-- The value of a decimal is made of its sign, its coefficient and its exponent. -/
theorem value_eq (number : Decimal) :
    number.value = sign number.negative * number.coefficient * 10 ^ number.exponent := by
  rw [value, signed_eq]
  push_cast
  rfl

/-- Rounding a magnitude and rounding a number of either sign are the same thing. -/
theorem roundsTo_iff {magnitude : ℚ} :
    RoundsTo number.exponent (sign number.negative * magnitude * 10 ^ number.exponent) number ↔
      HalfEven magnitude number.coefficient := by
  have scale : (0 : ℚ) < 10 ^ number.exponent := zpow_pos (by norm_num) _
  have unit : |(sign number.negative : ℚ)| = 1 := by
    cases number.negative <;> simp [sign]
  have involution (other : Int) :
      sign number.negative * (sign number.negative * other) = other := by
    rw [← Int.mul_assoc, sign_mul_self, Int.one_mul]
  -- A distance between multiples of the signed unit is one between their factors.
  have distance (factor : ℚ) :
      |sign number.negative * factor * 10 ^ number.exponent -
        sign number.negative * magnitude * 10 ^ number.exponent| =
      |factor - magnitude| * 10 ^ number.exponent := by
    rw [← sub_mul, ← mul_sub, abs_mul, abs_mul, unit, one_mul, abs_of_pos scale]
  have value := value_eq number
  rw [halfEven_iff_nearest]
  constructor
  · rintro ⟨-, nearest, even⟩
    refine ⟨fun other => ?_, fun other apart same => ?_⟩
    · have order := nearest (sign number.negative * other)
      rw [value, distance, Int.cast_mul, distance] at order
      exact le_of_mul_le_mul_right order scale
    · refine even (sign number.negative * other) ?_ ?_
      · rw [value, Int.cast_mul]
        intro equal
        have factors := mul_right_cancel₀ scale.ne' equal
        have nonzero : (sign number.negative : ℚ) ≠ 0 := abs_pos.mp (unit ▸ one_pos)
        exact apart (by exact_mod_cast mul_left_cancel₀ nonzero factors)
      · rw [value, distance, Int.cast_mul, distance, same]
  · rintro ⟨nearest, even⟩
    refine ⟨rfl, fun other => ?_, fun other apart same => ?_⟩
    · rw [← involution other, value, distance, Int.cast_mul, distance]
      exact mul_le_mul_of_nonneg_right (nearest _) scale.le
    · rw [← involution other, value, distance, Int.cast_mul, distance] at same
      refine even (sign number.negative * other) ?_ (mul_right_cancel₀ scale.ne' same)
      rintro equal
      apply apart
      rw [value, ← Int.cast_natCast, ← equal, ← Int.cast_mul, involution]

/-- The exact quotient is its units at the exponent of the dividend, with its sign. -/
theorem quotient_value (left right : Decimal) :
    left.value / right.value =
      sign (left.negative != right.negative) * units left right * 10 ^ left.exponent := by
  have signs : (sign left.negative : ℚ) / sign right.negative =
      sign (left.negative != right.negative) := by
    cases left.negative <;> cases right.negative <;> norm_num [sign]
  rw [value_eq, value_eq, ← signs, units, magnitude]
  ring

/-- A fraction whose denominator has no more digits than the first rounding keeps is not
misjudged. -/
theorem not_misjudged {numerator denominator places : Nat} (positive : 0 < denominator)
    (short : denominator < tenTo places) :
    ¬Misjudged (numerator / denominator) places := by
  rintro ⟨even, _, past, near⟩
  have scale : (0 : ℚ) < denominator := Nat.cast_pos.mpr positive
  have power : (0 : ℚ) < 10 ^ places := by positivity
  -- Twice the distance, in units of the denominator, is a whole number.
  obtain ⟨twice, whole⟩ : ∃ twice : Int,
      |(numerator : ℚ) / denominator - even| * (2 * denominator) = twice := by
    refine ⟨2 * |(numerator : Int) - even * denominator|, ?_⟩
    have common : (numerator : ℚ) / denominator - even =
        (numerator - even * denominator) / denominator := by
      field_simp
    rw [common, abs_div, abs_of_pos scale]
    push_cast
    field_simp
  have width : (denominator : ℚ) / 10 ^ places < 1 := by
    rw [div_lt_one power]
    have digits : (denominator : ℚ) < tenTo places := by exact_mod_cast short
    rwa [cast_tenTo, zpow_natCast] at digits
  have lower : (denominator : Int) < twice := by
    have order := mul_lt_mul_of_pos_right past (mul_pos two_pos scale)
    rw [whole] at order
    have cast : (denominator : ℚ) < twice := by linarith
    exact_mod_cast cast
  have upper : twice < denominator + 1 := by
    have order := mul_le_mul_of_nonneg_right near (mul_pos two_pos scale).le
    have split : (1 / 2 + 1 / (2 * 10 ^ places)) * (2 * (denominator : ℚ)) =
        denominator + denominator / 10 ^ places := by
      field_simp
    rw [whole, split] at order
    have cast : (twice : ℚ) < denominator + 1 := by linarith
    exact_mod_cast cast
  omega

/-- The quotient of two numbers far from the ends of the range has the exponent of the
dividend. It is the number nearest to the exact quotient there, ties to the even one, unless
the exact quotient is misjudged by the first rounding, and only then it is not. By a divisor
with no more than 29 digits no quotient is misjudged. -/
theorem divide_rounds_iff (moderate : Moderate left ∧ Moderate right)
    (divisor : right.coefficient ≠ 0) :
    ∃ result, divide left right = .ok result ∧ result.exponent = left.exponent ∧
      (RoundsTo left.exponent (left.value / right.value) result ↔
        ¬Misjudged (units left right) ((divisionContext left right).guard left right)) ∧
      (right.coefficient * tenTo right.exponent.toNat < tenTo 29 →
        RoundsTo left.exponent (left.value / right.value) result) := by
  obtain ⟨result, first, given, negative, exponent, fine, coarse⟩ :=
    divide_rounds moderate divisor
  have rounds : RoundsTo left.exponent (left.value / right.value) result ↔
      HalfEven (units left right) result.coefficient := by
    rw [quotient_value, ← negative, ← exponent]
    exact roundsTo_iff
  have positive : 0 < right.coefficient * tenTo right.exponent.toNat :=
    Nat.mul_pos (Nat.pos_of_ne_zero divisor) (tenTo_pos _)
  have nonneg : 0 ≤ units left right := by
    rw [units_fraction]
    positivity
  have some : 2 ≤ (divisionContext left right).guard left right := by
    by_cases zero : left.coefficient = 0
    · have usual : 28 ≤ (divisionContext left right).precision := Nat.le_max_left _ _
      have none : Int.log 10 (units left right) = 0 := by
        rw [units, zero, Nat.cast_zero, zero_div, Int.log_zero_right]
      unfold Context.guard
      omega
    · exact (by decide : 2 ≤ 29).trans (guard_most zero divisor).1
  have judged := halfEven_twice some nonneg fine coarse
  refine ⟨result, given, exponent, rounds.trans judged, fun short => rounds.mpr (judged.mpr ?_)⟩
  by_cases zero : left.coefficient = 0
  · -- A quotient that is zero is a whole number.
    have none : units left right = (0 : Nat) / (1 : Nat) := by
      rw [units, zero, Nat.cast_zero, zero_div, zero_div]
    rw [none]
    exact not_misjudged Nat.one_pos (tenTo_lt.mpr (by omega : 0 < _))
  · rw [units_fraction]
    exact not_misjudged positive
      (short.trans_le (tenTo_le (guard_most zero divisor).1))

/-- A third of a unit, to two places. -/
theorem divide_rounds_iff_third :
    Moderate ⟨false, 100, -2⟩ ∧ Moderate ⟨false, 3, 0⟩ ∧
      divide ⟨false, 100, -2⟩ ⟨false, 3, 0⟩ = .ok ⟨false, 33, -2⟩ ∧
      RoundsTo (-2) (value ⟨false, 100, -2⟩ / value ⟨false, 3, 0⟩) ⟨false, 33, -2⟩ := by
  have moderate : Moderate ⟨false, 100, -2⟩ ∧ Moderate ⟨false, 3, 0⟩ := by
    decide +kernel
  have given : divide ⟨false, 100, -2⟩ ⟨false, 3, 0⟩ = .ok ⟨false, 33, -2⟩ := by
    decide +kernel
  obtain ⟨result, same, -, -, rounded⟩ := divide_rounds_iff moderate (by decide)
  obtain rfl : result = ⟨false, 33, -2⟩ := Except.ok.inj (same.symm.trans given)
  exact ⟨moderate.1, moderate.2, given, rounded (by decide +kernel)⟩

/-- A quotient just above one half of a tenth, at an even tenth, that is given as zero. -/
theorem divide_misjudges :
    divide ⟨false, 10 ^ 30, -1⟩ ⟨false, 2 * 10 ^ 31 - 1, -1⟩ = .ok ⟨false, 0, -1⟩ ∧
      ¬RoundsTo (-1) (value ⟨false, 10 ^ 30, -1⟩ / value ⟨false, 2 * 10 ^ 31 - 1, -1⟩)
        ⟨false, 0, -1⟩ := by
  refine ⟨by decide +kernel, ?_⟩
  rintro ⟨-, nearest, -⟩
  have nearer := nearest 1
  norm_num [value, signed] at nearer

end Blockscript.Decimal
