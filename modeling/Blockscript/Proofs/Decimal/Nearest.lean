import Blockscript.Proofs.Decimal.Magnitude
import Mathlib.Data.Rat.Floor
import Mathlib.Tactic.FieldSimp
import Mathlib.Tactic.Linarith
import Mathlib.Tactic.Positivity
import Mathlib.Tactic.Ring

/-!
# Rounding to the nearest, once and twice

The integer nearest to a fraction, the even one where two are equally near, told on the
rational numbers. Dropping digits rounds in this way. A quotient that goes on behind its
last digit is rounded by that digit alone, when the digit has been moved off the places
where roundings change.

Rounding twice, first to some places and then to integers, is not always rounding once: a
number just past the middle of two integers can be moved to the middle by the first
rounding, and the second then goes to the even one. The last statement says that nothing
else goes wrong.
-/

namespace Blockscript.Decimal

/-- The number is one of those nearest to the fraction, and even if there are two. -/
structure HalfEven (exact : ℚ) (result : Nat) : Prop where
  lower : (result : ℚ) - 1 / 2 ≤ exact
  upper : exact ≤ result + 1 / 2
  tie : exact = result - 1 / 2 ∨ exact = result + 1 / 2 → result % 2 = 0

variable {exact : ℚ} {result : Nat}

/-- An integer is nearest to itself. -/
theorem halfEven_self (number : Nat) : HalfEven number number where
  lower := by linarith
  upper := by linarith
  tie := by
    rintro (below | above)
    · linarith
    · linarith

/-- Of two neighbours that are equally near only one is even. -/
theorem HalfEven.not_less {other : Nat} (rounded : HalfEven exact result)
    (again : HalfEven exact other) : ¬result < other := by
  intro less
  have step : (result : ℚ) + 1 ≤ other := by exact_mod_cast less
  have middle : exact = result + 1 / 2 :=
    le_antisymm rounded.upper (by linarith [again.lower])
  have next : (other : ℚ) = result + 1 := le_antisymm (by linarith [again.lower]) step
  have first := rounded.tie (.inr middle)
  have second := again.tie (.inl (by linarith))
  have apart : other = result + 1 := by exact_mod_cast next
  omega

/-- There is only one such number. -/
theorem HalfEven.unique {other : Nat} (rounded : HalfEven exact result)
    (again : HalfEven exact other) : result = other :=
  Nat.le_antisymm (Nat.le_of_not_lt (again.not_less rounded))
    (Nat.le_of_not_lt (rounded.not_less again))

/-- Any other integer is at least one away from the result, so half of that from the
fraction. -/
theorem HalfEven.far (rounded : HalfEven exact result) {other : Int} (apart : other ≠ result) :
    (1 : ℚ) / 2 ≤ |other - exact| := by
  obtain ⟨lower, upper, _⟩ := rounded
  rcases lt_or_gt_of_ne apart with less | more
  · have step : (other : ℚ) + 1 ≤ result := by exact_mod_cast less
    rw [abs_sub_comm]
    exact le_trans (by linarith) (le_abs_self (exact - other))
  · have step : (result : ℚ) + 1 ≤ other := by exact_mod_cast more
    exact le_trans (by linarith) (le_abs_self (other - exact))

/-- An integer to which the next two are not nearer is at most a half away. -/
theorem halves_of_neighbours (above : |(result : ℚ) - exact| ≤ |result + 1 - exact|)
    (below : |(result : ℚ) - exact| ≤ |result - 1 - exact|) :
    (result : ℚ) - 1 / 2 ≤ exact ∧ exact ≤ result + 1 / 2 := by
  constructor
  · by_contra less
    rw [abs_of_pos (by linarith)] at below
    rcases abs_cases ((result : ℚ) - 1 - exact) with ⟨size, _⟩ | ⟨size, _⟩
    · linarith
    · linarith
  · by_contra more
    rw [abs_of_neg (by linarith)] at above
    rcases abs_cases ((result : ℚ) + 1 - exact) with ⟨size, _⟩ | ⟨size, _⟩
    · linarith
    · linarith

/-- The whole number that rounding finds, in the words of the integers next to it: the
fraction is not nearer to either of them than to it. -/
theorem halfEven_iff_nearest : HalfEven exact result ↔
    (∀ other : Int, |result - exact| ≤ |other - exact|) ∧
      ∀ other : Int, other ≠ result → |result - exact| = |other - exact| → result % 2 = 0 := by
  constructor
  · intro rounded
    have near : |(result : ℚ) - exact| ≤ 1 / 2 :=
      abs_le.mpr ⟨by linarith [rounded.upper], by linarith [rounded.lower]⟩
    refine ⟨fun other => ?_, fun other apart same => ?_⟩
    · by_cases same : other = result
      · rw [same, Int.cast_natCast]
      · exact near.trans (rounded.far same)
    · have half : |(result : ℚ) - exact| = 1 / 2 :=
        le_antisymm near (same ▸ rounded.far apart)
      apply rounded.tie
      rcases (abs_eq (by norm_num)).mp half with above | below
      · left
        linarith
      · right
        linarith
  · rintro ⟨nearest, even⟩
    have above := nearest (result + 1)
    have below := nearest (result - 1)
    push_cast at above below
    obtain ⟨lower, upper⟩ := halves_of_neighbours above below
    refine ⟨lower, upper, ?_⟩
    rintro (down | up)
    · refine even (result - 1) (by omega) ?_
      push_cast
      rw [down, abs_of_pos (by linarith), abs_of_neg (by linarith)]
      ring
    · refine even (result + 1) (by omega) ?_
      push_cast
      rw [up, abs_of_neg (by linarith), abs_of_pos (by linarith)]
      ring

/-! ## Dropping digits -/

section Fractions

variable {numerator denominator : Nat}

/-- A fraction reaches a half when twice its numerator reaches its denominator. -/
theorem half_le_iff (positive : 0 < denominator) :
    (1 : ℚ) / 2 ≤ numerator / denominator ↔ denominator ≤ 2 * numerator := by
  rw [div_le_div_iff₀ two_pos (Nat.cast_pos.mpr positive), one_mul, mul_comm]
  exact_mod_cast Iff.rfl

/-- A fraction does not exceed a half when twice its numerator does not exceed its denominator.
-/
theorem le_half_iff (positive : 0 < denominator) :
    (numerator : ℚ) / denominator ≤ 1 / 2 ↔ 2 * numerator ≤ denominator := by
  rw [div_le_div_iff₀ (Nat.cast_pos.mpr positive) two_pos, one_mul, mul_comm]
  exact_mod_cast Iff.rfl

/-- A fraction is a half when twice its numerator is its denominator. -/
theorem eq_half_iff (positive : 0 < denominator) :
    (numerator : ℚ) / denominator = 1 / 2 ↔ 2 * numerator = denominator := by
  rw [le_antisymm_iff, le_half_iff positive, half_le_iff positive]
  exact le_antisymm_iff.symm

/-- The nearest integer to a fraction of whole numbers. -/
theorem nearest_halfEven (numerator : Nat) (positive : 0 < denominator) :
    HalfEven (numerator / denominator) (nearest numerator denominator) := by
  have scale : (0 : ℚ) < denominator := Nat.cast_pos.mpr positive
  have remains := Nat.mod_lt numerator positive
  have division : (numerator : ℚ) =
      denominator * (numerator / denominator : Nat) + (numerator % denominator : Nat) := by
    exact_mod_cast (Nat.div_add_mod numerator denominator).symm
  unfold nearest
  simp only [Bool.or_eq_true, decide_eq_true_eq, Bool.and_eq_true]
  generalize numerator / denominator = quotient at division ⊢
  generalize numerator % denominator = remainder at remains division ⊢
  have rest : (numerator : ℚ) / denominator = quotient + remainder / denominator := by
    rw [division]
    field_simp
  have small : (remainder : ℚ) / denominator < 1 := by
    rw [div_lt_one scale]
    exact_mod_cast remains
  have some : (0 : ℚ) ≤ remainder / denominator := by positivity
  rw [rest]
  by_cases up : 2 * remainder > denominator ∨ 2 * remainder = denominator ∧ quotient % 2 = 1
  · rw [if_pos up]
    have half := (@half_le_iff remainder denominator positive).mpr (by omega)
    refine ⟨by push_cast; linarith, by push_cast; linarith, ?_⟩
    push_cast
    rintro (middle | past)
    · have twice := (@eq_half_iff remainder denominator positive).mp (by linarith)
      omega
    · linarith
  · rw [if_neg up]
    have half := (@le_half_iff remainder denominator positive).mpr (by omega)
    refine ⟨by linarith, by linarith, ?_⟩
    rintro (under | middle)
    · linarith
    · have twice := (@eq_half_iff remainder denominator positive).mp (by linarith)
      omega

end Fractions

/-- Dropping digits rounds to what is left of them. -/
theorem roundOff_halfEven (coefficient dropped : Nat) :
    HalfEven (coefficient / 10 ^ dropped) (roundOff coefficient dropped) := by
  have scale : (tenTo dropped : ℚ) = 10 ^ dropped := by
    rw [cast_tenTo, zpow_natCast]
  have nearest := nearest_halfEven coefficient (tenTo_pos dropped)
  rw [scale] at nearest
  unfold roundOff
  by_cases few : digitCount coefficient < dropped
  · have none : Decimal.nearest coefficient (tenTo dropped) = 0 := by
      have digits := lt_tenTo_digitCount coefficient
      have more : tenTo (digitCount coefficient + 1) ≤ tenTo dropped := tenTo_le few
      rw [tenTo_add, show tenTo 1 = 10 from rfl] at more
      exact nearest_small (by omega)
    rw [if_pos few, ← none]
    exact nearest
  · rw [if_neg few]
    exact nearest

/-! ## Digits that stand for all that follow -/

/-- Some digits stand for a number that may go on behind them: they lie on the same side of
every multiple of five. -/
def StandsFor (digits : Nat) (exact : ℚ) : Prop :=
  ∀ five : Int, ((5 * five : ℚ) ≤ exact ↔ 5 * five ≤ (digits : Int)) ∧
    (exact ≤ 5 * five ↔ (digits : Int) ≤ 5 * five)

/-- A whole number stands for itself. -/
theorem standsFor_self (digits : Nat) : StandsFor digits digits := by
  intro five
  constructor
  · exact_mod_cast Iff.rfl
  · exact_mod_cast Iff.rfl

section Fractions

variable {numerator denominator : Nat}

/-- The whole part of a fraction is the quotient without its remainder. -/
theorem floor_fraction :
    ⌊(numerator : ℚ) / denominator⌋ = (numerator / denominator : Nat) := by
  have floor := Rat.floor_intCast_div_natCast numerator denominator
  rw [Int.cast_natCast] at floor
  rw [floor, Int.natCast_ediv]

/-- The integers up to a fraction are those up to its whole part. -/
theorem le_fraction_iff (number : Int) :
    (number : ℚ) ≤ numerator / denominator ↔ number ≤ (numerator / denominator : Nat) := by
  rw [← Int.le_floor, floor_fraction]

/-- The integers from a fraction on that is not whole are those behind its whole part. -/
theorem fraction_le_iff (positive : 0 < denominator) (inexact : numerator % denominator ≠ 0)
    (number : Int) :
    (numerator : ℚ) / denominator ≤ number ↔ (numerator / denominator : Nat) < number := by
  have scale : (0 : ℚ) < denominator := Nat.cast_pos.mpr positive
  have least : ((numerator / denominator : Nat) : ℚ) ≤ numerator / denominator := by
    exact_mod_cast (le_fraction_iff (numerator / denominator : Nat)).mpr (Int.le_refl _)
  constructor
  · intro order
    have atMost : ((numerator / denominator : Nat) : Int) ≤ number := by
      rw [← Int.cast_le (R := ℚ), Int.cast_natCast]
      exact least.trans order
    refine lt_of_le_of_ne atMost fun same => inexact ?_
    have equal : (numerator : ℚ) / denominator = (numerator / denominator : Nat) := by
      rw [← same] at order
      exact le_antisymm (by exact_mod_cast order) least
    rw [div_eq_iff scale.ne'] at equal
    have product : numerator = numerator / denominator * denominator := by
      exact_mod_cast equal
    have division := Nat.div_add_mod numerator denominator
    rw [Nat.mul_comm] at product
    omega
  · intro order
    have next := Int.lt_floor_add_one ((numerator : ℚ) / denominator)
    rw [floor_fraction] at next
    have reach : (((numerator / denominator : Nat) : Int) : ℚ) + 1 ≤ number := by
      exact_mod_cast order
    exact next.le.trans reach

/-- The whole part of a fraction stands for it, once it is moved off the multiples of
five. -/
theorem standsFor_quotient (positive : 0 < denominator)
    (inexact : numerator % denominator ≠ 0) :
    StandsFor
      (if numerator / denominator % 5 = 0 then numerator / denominator + 1
        else numerator / denominator)
      (numerator / denominator) := by
  intro five
  have lower := @le_fraction_iff numerator denominator (5 * five)
  have upper := fraction_le_iff positive inexact (5 * five)
  push_cast at lower upper
  rw [lower, upper]
  split
  · push_cast
    omega
  · omega

end Fractions

/-- Where one digit is dropped, digits that stand for a number compare with every half as
it does: half of a power of ten is a multiple of five. -/
theorem StandsFor.compare {digits : Nat} (stands : StandsFor digits exact) (dropped : Nat)
    (halves : Int) :
    ((halves / 2 : ℚ) ≤ exact / 10 ^ (dropped + 1) ↔
        (halves / 2 : ℚ) ≤ digits / 10 ^ (dropped + 1)) ∧
      (exact / 10 ^ (dropped + 1) ≤ halves / 2 ↔
        (digits : ℚ) / 10 ^ (dropped + 1) ≤ halves / 2) := by
  have scale : (0 : ℚ) < 10 ^ (dropped + 1) := by positivity
  have point : (halves : ℚ) / 2 * 10 ^ (dropped + 1) = 5 * (halves * 10 ^ dropped : Int) := by
    rw [pow_succ]
    push_cast
    ring
  obtain ⟨lower, upper⟩ := stands (halves * 10 ^ dropped)
  rw [le_div_iff₀ scale, le_div_iff₀ scale, div_le_iff₀ scale, div_le_iff₀ scale, point, lower,
    upper]
  constructor
  · exact_mod_cast Iff.rfl
  · exact_mod_cast Iff.rfl

/-- Digits that stand for a number round as it does, as soon as one digit is dropped. -/
theorem StandsFor.halfEven {digits dropped : Nat} (stands : StandsFor digits exact)
    (rounded : HalfEven (digits / 10 ^ (dropped + 1)) result) :
    HalfEven (exact / 10 ^ (dropped + 1)) result := by
  have down : (result : ℚ) - 1 / 2 = ((2 * result - 1 : Int) : ℚ) / 2 := by
    push_cast
    ring
  have up : (result : ℚ) + 1 / 2 = ((2 * result + 1 : Int) : ℚ) / 2 := by
    push_cast
    ring
  obtain ⟨lower, upper, tie⟩ := rounded
  rw [down] at lower tie
  rw [up] at upper tie
  obtain ⟨downLower, downUpper⟩ := stands.compare dropped (2 * result - 1)
  obtain ⟨upLower, upUpper⟩ := stands.compare dropped (2 * result + 1)
  refine ⟨down ▸ downLower.mpr lower, up ▸ upUpper.mpr upper, ?_⟩
  rw [down, up]
  rintro (middle | middle)
  · exact tie (.inl (le_antisymm (downUpper.mp middle.le) (downLower.mp middle.ge)))
  · exact tie (.inr (le_antisymm (upUpper.mp middle.le) (upLower.mp middle.ge)))

/-! ## Rounding twice -/

/-- The number lies past the middle between an even integer and another one, but no further
than half of the last of so many decimal places. -/
def Misjudged (exact : ℚ) (places : Nat) : Prop :=
  ∃ even : Nat, even % 2 = 0 ∧ 1 / 2 < |exact - even| ∧
    |exact - even| ≤ 1 / 2 + 1 / (2 * 10 ^ places)

/-- The middle behind an integer is a number of two decimal places, and an even one. -/
theorem middle_even {places : Nat} (some : 2 ≤ places) (number : Nat) :
    ∃ middle : Nat, middle % 2 = 0 ∧ (middle : ℚ) = (number + 1 / 2) * 10 ^ places := by
  obtain ⟨rest, rfl⟩ : ∃ rest, places = rest + 2 := ⟨places - 2, by omega⟩
  refine ⟨2 * ((2 * number + 1) * (25 * 10 ^ rest)), Nat.mul_mod_right _ _, ?_⟩
  rw [pow_add]
  push_cast
  ring

section Twice

variable {first places : Nat}

/-- A first rounding finds the middle for what lies no further from it than half of its last
place. -/
theorem HalfEven.at_middle (some : 2 ≤ places) (fine : HalfEven (exact * 10 ^ places) first)
    (number : Nat)
    (near : |exact - (number + 1 / 2)| ≤ 1 / (2 * 10 ^ places)) :
    (first : ℚ) / 10 ^ places = number + 1 / 2 := by
  have scale : (0 : ℚ) < 10 ^ places := by positivity
  obtain ⟨middle, even, grid⟩ := middle_even some number
  have small : |exact * 10 ^ places - middle| ≤ 1 / 2 := by
    rw [grid, ← sub_mul, abs_mul, abs_of_pos scale]
    calc
      |exact - (number + 1 / 2)| * 10 ^ places ≤ 1 / (2 * 10 ^ places) * 10 ^ places :=
        mul_le_mul_of_nonneg_right near scale.le
      _ = 1 / 2 := by
        field_simp
  obtain ⟨lower, upper⟩ := abs_le.mp small
  have found : HalfEven (exact * 10 ^ places) middle :=
    ⟨by linarith, by linarith, fun _ => even⟩
  rw [fine.unique found, grid]
  field_simp

/-- A number whose first rounding is not the middle lies on the same side of the middle. -/
theorem HalfEven.past_middle (some : 2 ≤ places) (fine : HalfEven (exact * 10 ^ places) first)
    (number : Nat) :
    ((first : ℚ) / 10 ^ places < number + 1 / 2 → exact < number + 1 / 2) ∧
      ((number : ℚ) + 1 / 2 < first / 10 ^ places → (number : ℚ) + 1 / 2 < exact) := by
  have scale : (0 : ℚ) < 10 ^ places := by positivity
  obtain ⟨middle, _, grid⟩ := middle_even some number
  rw [div_lt_iff₀ scale, lt_div_iff₀ scale, ← grid]
  constructor
  · intro below
    have step : (first : ℚ) + 1 ≤ middle := by exact_mod_cast below
    by_contra above
    have order := mul_le_mul_of_nonneg_right (not_lt.mp above) scale.le
    rw [← grid] at order
    linarith [fine.upper]
  · intro above
    have step : (middle : ℚ) + 1 ≤ first := by exact_mod_cast above
    by_contra below
    have order := mul_le_mul_of_nonneg_right (not_lt.mp below) scale.le
    rw [← grid] at order
    linarith [fine.lower]

/-- What is rounded to the middle first lies no further from it than half of the last
place. -/
theorem HalfEven.near_middle {number : Nat} (fine : HalfEven (exact * 10 ^ places) first)
    (there : (first : ℚ) / 10 ^ places = number + 1 / 2) :
    |exact - (number + 1 / 2)| ≤ 1 / (2 * 10 ^ places) := by
  have scale : (0 : ℚ) < 10 ^ places := by positivity
  have width : (1 : ℚ) / (2 * 10 ^ places) * 10 ^ places = 1 / 2 := by
    field_simp
  rw [div_eq_iff scale.ne'] at there
  rw [abs_le]
  constructor
  · refine le_of_mul_le_mul_right ?_ scale
    linarith [fine.lower]
  · refine le_of_mul_le_mul_right ?_ scale
    linarith [fine.upper]

/-- A misjudged number is moved to the middle first and then to the even number, from which
it is further away than from the other one. -/
theorem Misjudged.not_halfEven (misjudged : Misjudged exact places) (some : 2 ≤ places)
    (nonneg : 0 ≤ exact) (fine : HalfEven (exact * 10 ^ places) first)
    (coarse : HalfEven (first / 10 ^ places) result) : ¬HalfEven exact result := by
  obtain ⟨even, isEven, past, near⟩ := misjudged
  intro once
  rcases abs_cases (exact - even) with ⟨size, _⟩ | ⟨size, below⟩
  · have middle := fine.at_middle some even
      (abs_le.mpr ⟨by linarith, by linarith⟩)
    rw [middle] at coarse
    have back : HalfEven ((even : ℚ) + 1 / 2) even :=
      ⟨by linarith, le_refl _, fun _ => isEven⟩
    have once := once.upper
    rw [coarse.unique back] at once
    linarith
  · obtain ⟨before, rfl⟩ : ∃ before, even = before + 1 := by
      rcases even with _ | before
      · exact absurd nonneg (by simpa using below)
      · exact ⟨before, rfl⟩
    push_cast at size past near
    have middle := fine.at_middle some before
      (abs_le.mpr ⟨by linarith, by linarith⟩)
    rw [middle] at coarse
    have up : HalfEven ((before : ℚ) + 1 / 2) (before + 1) :=
      ⟨by push_cast; linarith, by push_cast; linarith, fun _ => isEven⟩
    have once := once.lower
    rw [coarse.unique up] at once
    push_cast at once
    linarith

/-- What lies beyond the middle behind the result has been moved to that middle, and is
misjudged. -/
theorem misjudged_above (some : 2 ≤ places) (fine : HalfEven (exact * 10 ^ places) first)
    (coarse : HalfEven (first / 10 ^ places) result) (more : (result : ℚ) + 1 / 2 < exact) :
    Misjudged exact places := by
  have middle : (first : ℚ) / 10 ^ places = result + 1 / 2 := by
    refine le_antisymm coarse.upper (not_lt.mp fun under => ?_)
    linarith [(fine.past_middle some result).1 under]
  have near := abs_le.mp (fine.near_middle middle)
  refine ⟨result, coarse.tie (.inr middle), ?_, ?_⟩
  · rw [abs_of_pos (by linarith)]
    linarith
  · rw [abs_of_pos (by linarith)]
    linarith

/-- What lies before the middle in front of the result has been moved to that middle, and is
misjudged. -/
theorem misjudged_below (some : 2 ≤ places) (nonneg : 0 ≤ exact)
    (fine : HalfEven (exact * 10 ^ places) first)
    (coarse : HalfEven (first / 10 ^ places) result) (less : exact < (result : ℚ) - 1 / 2) :
    Misjudged exact places := by
  obtain ⟨before, rfl⟩ : ∃ before, result = before + 1 := by
    rcases result with _ | before
    · push_cast at less
      linarith
    · exact ⟨before, rfl⟩
  have lower := coarse.lower
  push_cast at less lower
  have middle : (first : ℚ) / 10 ^ places = before + 1 / 2 := by
    refine le_antisymm (not_lt.mp fun beyond => ?_) (by linarith)
    linarith [(fine.past_middle some before).2 beyond]
  have near := abs_le.mp (fine.near_middle middle)
  refine ⟨before + 1, coarse.tie (.inl (by push_cast; linarith)), ?_, ?_⟩
  · push_cast
    rw [abs_of_neg (by linarith)]
    linarith
  · push_cast
    rw [abs_of_neg (by linarith)]
    linarith

/-- A number that is rounded to two or more decimal places first, and then to an integer,
is rounded as at once unless it is misjudged by the first rounding. -/
theorem halfEven_twice (some : 2 ≤ places) (nonneg : 0 ≤ exact)
    (fine : HalfEven (exact * 10 ^ places) first)
    (coarse : HalfEven (first / 10 ^ places) result) :
    HalfEven exact result ↔ ¬Misjudged exact places := by
  constructor
  · intro once misjudged
    exact misjudged.not_halfEven some nonneg fine coarse once
  · intro judged
    have width : (0 : ℚ) ≤ 1 / (2 * 10 ^ places) := by positivity
    refine ⟨?_, ?_, ?_⟩
    · exact not_lt.mp fun less => judged (misjudged_below some nonneg fine coarse less)
    · exact not_lt.mp fun more => judged (misjudged_above some fine coarse more)
    · -- A middle has two decimal places, so the first rounding keeps it.
      rintro (down | up)
      · rcases result with _ | before
        · rfl
        · push_cast at down
          have middle := fine.at_middle some before
            (abs_le.mpr ⟨by linarith, by linarith⟩)
          exact coarse.tie (.inl (by push_cast; linarith))
      · have middle := fine.at_middle some result
          (abs_le.mpr ⟨by linarith, by linarith⟩)
        exact coarse.tie (.inr middle)

end Twice

end Blockscript.Decimal
