import Blockscript.Proofs.Decimal.Magnitude
import Blockscript.Proofs.Decimal.Range

/-!
# When sums and products are exact

The precision of a sum or a product has room for all of its digits, so that nothing is
rounded away for lack of digits. What is left are the two ends of the exponent range. Above
it a result is refused, unless it is a zero, which gets the largest exponent. Below it a
result is not refused: it loses the digits that lie below the last exponent kept, and may
become zero. The main statement says of which sums, differences and products the exact value
is given at the exact exponent, and that it is these only.
-/

namespace Blockscript.Decimal

open Context (largest smallest)

variable {context : Context} {number left right : Decimal}

/-- The rational number that a decimal is. -/
def value (number : Decimal) : ℚ :=
  number.signed * 10 ^ number.exponent

/-! ## Values of exact results -/

/-- The opposite number has the opposite signed coefficient. -/
theorem signed_opposite (number : Decimal) : number.opposite.signed = -number.signed := by
  unfold opposite signed
  cases number.negative with
  | false => simp
  | true => simp

/-- The opposite number has the opposite value. -/
theorem value_opposite (number : Decimal) : number.opposite.value = -number.value := by
  unfold value
  rw [signed_opposite, Int.cast_neg, neg_mul]
  rfl

/-- A zero is zero at every exponent. -/
theorem value_of_zero (zero : number.coefficient = 0) : number.value = 0 := by
  unfold value signed
  simp [zero]

/-- An aligned number is the number in units of the exponent. -/
theorem alignedTo_value {exponent : Int} (below : exponent ≤ number.exponent) :
    (number.alignedTo exponent : ℚ) * 10 ^ exponent = number.value := by
  unfold alignedTo
  split
  · next zero =>
    rw [value_of_zero (by simpa [isZero] using zero), Int.cast_zero, zero_mul]
  · have scale : (10 : ℚ) ^ number.exponent =
        10 ^ ((number.exponent - exponent).toNat : Int) * 10 ^ exponent := by
      rw [← zpow_add₀ (by norm_num)]
      congr 1
      omega
    rw [value, scale, Int.cast_mul, Int.cast_natCast, cast_tenTo, mul_assoc]

/-- The exact sum is the sum of the values, however the sign of a zero is settled. -/
theorem exactSum_value (left right : Decimal) :
    (exactSum left right).value = left.value + right.value := by
  have first := @alignedTo_value left (min left.exponent right.exponent) (by omega)
  have second := @alignedTo_value right (min left.exponent right.exponent) (by omega)
  have total : (exactSum left right).signed =
      left.alignedTo (min left.exponent right.exponent) +
        right.alignedTo (min left.exponent right.exponent) := by
    unfold exactSum signed
    simp only
    generalize left.alignedTo _ + right.alignedTo _ = total
    by_cases zero : total = 0
    · simp [zero]
    · by_cases below : total < 0
      · simp only [zero, below, if_false, decide_true, if_true]
        omega
      · simp only [zero, below, if_false, decide_false, Bool.false_eq_true]
        omega
  rw [← first, ← second, ← add_mul, ← Int.cast_add, ← total]
  rfl

/-- The exact product is the product of the values. -/
theorem exactProduct_value (left right : Decimal) :
    (exactProduct left right).value = left.value * right.value := by
  have signs : (exactProduct left right).signed = left.signed * right.signed := by
    unfold exactProduct signed
    cases left.negative <;> cases right.negative <;> simp
  calc
    (exactProduct left right).value =
        (left.signed * right.signed : Int) * 10 ^ (left.exponent + right.exponent) := by
      rw [value, signs]
      rfl
    _ = left.value * right.value := by
      rw [zpow_add₀ (by norm_num), Int.cast_mul]
      exact mul_mul_mul_comm _ _ _ _

/-! ## The precision -/

/-- The precision of sums and products is enough for both coefficients aligned and added, so
for every aligned sum and difference, and for the product of the coefficients. Zeros make no
difference, whatever their exponents are. -/
theorem precision_has_room (left right : Decimal) :
    let precision := exactPrecision left right
    let lowest := min left.exponent right.exponent
    left.coefficient * 10 ^ (left.exponent - lowest).toNat +
        right.coefficient * 10 ^ (right.exponent - lowest).toNat < 10 ^ precision ∧
      digitCount (left.alignedTo lowest + right.alignedTo lowest).natAbs ≤ precision ∧
      digitCount (left.alignedTo lowest - right.alignedTo lowest).natAbs ≤ precision ∧
      left.coefficient * right.coefficient < 10 ^ precision ∧
      1 ≤ precision := by
  intro precision lowest
  have total : (left.alignedTo lowest).natAbs + (right.alignedTo lowest).natAbs =
      alignedTotal left right := by
    rw [natAbs_alignedTo, natAbs_alignedTo, alignedTotal]
  refine ⟨alignedTotal_lt left right, ?_, ?_, coefficients_lt left right,
    exactPrecision_pos left right⟩
  · refine aligned_fits ?_
    rw [← total]
    exact Int.natAbs_add_le _ _
  · refine aligned_fits ?_
    rw [← total]
    exact Int.natAbs_sub_le _ _

/-- A carry at full length takes the last digit that there is. -/
example : exactPrecision ⟨false, 999, 0⟩ ⟨false, 0, -2⟩ = 6 ∧
    exactPrecision ⟨false, 999, 0⟩ ⟨false, 1, 0⟩ = 4 := by
  decide +kernel

/-! ## The ends of the range -/

/-- A number with no more digits than the precision is only brought into the range. -/
theorem finish_of_fits (fits : digitCount number.coefficient ≤ context.precision) :
    context.finish number = context.bound number := by
  unfold Context.finish
  cases bounded : context.bound number with
  | error refusal => rfl
  | ok inside =>
    have fewer := (@bound_ok context number inside 0 bounded).2
    have none : digitCount inside.coefficient - context.precision = 0 := by
      omega
    simp only [bind, Except.bind, Context.round, none, ↓reduceIte]

/-- A result above the range is refused, and any other is the number of the given value at
the given exponent. -/
def Keeps (outcome : Except Refusal Decimal) (value : ℚ) (exponent : Int) : Prop :=
  outcome = .error .overflow ∨
    ∃ result, outcome = .ok result ∧ result.value = value ∧ result.exponent = exponent

/-- A result that is kept exactly has the exponent that was asked for. -/
theorem Keeps.exponent {result : Decimal} {value : ℚ} {exponent : Int}
    (kept : Keeps (.ok result) value exponent) : result.exponent = exponent := by
  rcases kept with refused | ⟨_, ⟨rfl⟩, _, same⟩
  · cases refused
  · exact same

/-- Whether an exact result leaves the range where that is not refused: it is a zero with
an exponent above the range, or its leading digit lies below the range and its last one
below the last exponent kept. -/
def Slips (context : Context) (number : Decimal) : Prop :=
  number.coefficient = 0 ∧ largest < number.exponent ∨
    number.adjusted < smallest ∧ number.exponent < context.tiny

/-- A number that fits the precision is kept as it is, or refused for its magnitude, unless
it slips out of the range. -/
theorem finish_keeps_iff (fits : digitCount number.coefficient ≤ context.precision) :
    Keeps (context.finish number) number.value number.exponent ↔ ¬Slips context number := by
  have top : largest = 999999 := rfl
  have bottom : smallest = -999999 := rfl
  rw [finish_of_fits fits]
  unfold Context.bound
  by_cases above : largest < number.adjusted
  · rw [if_pos above]
    by_cases zero : number.coefficient = 0
    · have exponent := adjusted_of_zero zero
      rw [if_pos (by simpa [isZero] using zero)]
      refine ⟨fun kept => ?_, fun stays => absurd (.inl ⟨zero, by omega⟩) stays⟩
      have same := kept.exponent
      simp only at same
      omega
    · rw [if_neg (by simpa [isZero] using zero)]
      refine ⟨fun _ => ?_, fun _ => .inl rfl⟩
      rintro (⟨none, _⟩ | ⟨below, _⟩)
      · exact zero none
      · omega
  · rw [if_neg above]
    by_cases small : number.adjusted < smallest ∧ number.exponent < context.tiny
    · rw [if_pos (by simpa using small)]
      refine ⟨fun kept => ?_, fun stays => absurd (.inr small) stays⟩
      have same := kept.exponent
      simp only at same
      omega
    · rw [if_neg (by simpa using small)]
      refine ⟨fun _ => ?_, fun _ => .inr ⟨number, rfl, rfl, rfl⟩⟩
      rintro (⟨zero, high⟩ | below)
      · rw [adjusted_of_zero zero] at above
        exact above high
      · exact small below

/-! ## Sums, differences and products -/

/-- A sum, a difference and a product have the exact value at the exact exponent, or are
refused for lying above the range, exactly when they do not slip out of the range. A result
below the range is not refused: it is given with fewer digits. -/
theorem exact_iff_stays (left right : Decimal) :
    (Keeps (add left right) (left.value + right.value) (min left.exponent right.exponent) ↔
      ¬Slips (exactContext left right) (exactSum left right)) ∧
    (Keeps (subtract left right) (left.value - right.value) (min left.exponent right.exponent) ↔
      ¬Slips (exactContext left right) (exactSum left right.opposite)) ∧
    (Keeps (multiply left right) (left.value * right.value) (left.exponent + right.exponent) ↔
      ¬Slips (exactContext left right) (exactProduct left right)) := by
  have room : exactPrecision left right ≤ (exactContext left right).precision :=
    Nat.le_max_right _ _
  refine ⟨?_, ?_, ?_⟩
  · rw [add, sum_eq, ← exactSum_value]
    exact finish_keeps_iff ((exactSum_fits left right).trans room)
  · rw [subtract, sum_eq, sub_eq_add_neg, ← value_opposite, ← exactSum_value]
    exact finish_keeps_iff ((exactSum_fits left right.opposite).trans room)
  · rw [multiply, product_eq, ← exactProduct_value]
    exact finish_keeps_iff ((exactProduct_fits left right).trans room)

/-- The tenth, squared nineteen times over. -/
def tinyTenth : Decimal :=
  ⟨false, 1, -524288⟩

/-- Its square is given as zero, although it is no zero. -/
theorem square_vanishes :
    multiply tinyTenth tinyTenth = .ok ⟨false, 0, -1000026⟩ ∧
      ¬Keeps (multiply tinyTenth tinyTenth) (tinyTenth.value * tinyTenth.value)
        (tinyTenth.exponent + tinyTenth.exponent) := by
  have given : multiply tinyTenth tinyTenth = .ok ⟨false, 0, -1000026⟩ := by
    decide +kernel
  refine ⟨given, ?_⟩
  rw [given]
  rintro (refused | ⟨result, same, _, exponent⟩)
  · cases refused
  · cases same
    revert exponent
    decide

end Blockscript.Decimal
