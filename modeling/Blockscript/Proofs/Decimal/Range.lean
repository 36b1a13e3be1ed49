import Blockscript.Operator
import Blockscript.Proofs.Decimal.Digits

/-!
# The exponent range

When decimal arithmetic refuses a result. Sums and products are refused exactly where
their exact values lie above the range, because no digit of them is dropped. A quotient
is rounded twice, and neither rounding takes it past the power of ten above it.
-/

namespace Blockscript.Decimal

open Context (largest smallest)

variable {context : Context} {number result left right : Decimal} {refusal : Refusal} {order : Int}

/-- The magnitude of a number is at most a power of ten. -/
def AtMost (order : Int) (number : Decimal) : Prop :=
  number.coefficient = 0 ∨
    number.exponent ≤ order ∧ number.coefficient ≤ tenTo (order - number.exponent).toNat

/-- A number of at most some order that is not zero has at most this adjusted exponent. -/
theorem AtMost.adjusted (atMost : AtMost order number) (nonzero : number.coefficient ≠ 0) :
    number.adjusted ≤ order := by
  rcases atMost with zero | ⟨inside, bound⟩
  · exact absurd zero nonzero
  · have digits := digitCount_le_succ bound
    unfold Decimal.adjusted
    omega

/-- The adjusted exponent of a zero is its exponent. -/
theorem adjusted_of_zero (zero : number.coefficient = 0) : number.adjusted = number.exponent := by
  unfold Decimal.adjusted
  rw [zero, digitCount_zero]
  omega

/-- A zero has the order of magnitude of its exponent. -/
theorem AtMost.adjusted_le (atMost : AtMost order number) :
    number.adjusted ≤ max order number.exponent := by
  by_cases zero : number.coefficient = 0
  · rw [adjusted_of_zero zero]
    exact le_max_right _ _
  · exact (atMost.adjusted zero).trans (le_max_left _ _)

/-- Digits that are rounded off zero leave zero. -/
theorem roundOff_zero (dropped : Nat) : roundOff 0 dropped = 0 := by
  unfold roundOff
  split
  · rfl
  · exact nearest_small (tenTo_pos dropped)

/-- Dropping digits does not take a number past a power of ten. -/
theorem AtMost.roundOff {negative : Bool} (atMost : AtMost order number) (dropped : Nat) :
    AtMost order ⟨negative, roundOff number.coefficient dropped, number.exponent + dropped⟩ := by
  rcases atMost with zero | ⟨inside, bound⟩
  · left
    simp only [zero]
    exact roundOff_zero dropped
  · by_cases left : dropped ≤ (order - number.exponent).toNat
    · have rounded := roundOff_le bound left
      refine .inr ⟨by simp only; omega, ?_⟩
      have exponents : (order - (number.exponent + dropped)).toNat =
          (order - number.exponent).toNat - dropped := by
        omega
      simp only [exponents]
      exact rounded
    · exact .inl (roundOff_eq_zero bound (Nat.lt_of_not_le left))

/-! ## Contexts -/

/-- Bringing a number into the range refuses what lies above it. -/
theorem bound_error (refused : context.bound number = .error refusal) :
    refusal = .overflow ∧ number.coefficient ≠ 0 ∧ largest < number.adjusted := by
  unfold Context.bound at refused
  split at refused
  · next above =>
    split at refused
    · cases refused
    · next nonzero =>
      cases refused
      refine ⟨rfl, ?_, above⟩
      simpa [isZero] using nonzero
  · split at refused
    · cases refused
    · cases refused

/-- Bringing a number into the range takes it past no power of ten, and leaves it no more
digits. -/
theorem bound_ok (bounded : context.bound number = .ok result) :
    (AtMost order number → AtMost order result) ∧
      digitCount result.coefficient ≤ digitCount number.coefficient := by
  unfold Context.bound at bounded
  split at bounded
  · split at bounded
    · next zero =>
      cases bounded
      refine ⟨fun _ => .inl ?_, Nat.le_refl _⟩
      simpa [isZero] using zero
    · cases bounded
  · split at bounded
    · next small =>
      simp only [Bool.and_eq_true, decide_eq_true_eq] at small
      cases bounded
      refine ⟨fun atMost => ?_, digitCount_roundOff_le (by omega)⟩
      have rounded := @AtMost.roundOff number order number.negative atMost
        (context.tiny - number.exponent).toNat
      have exponents : number.exponent + ((context.tiny - number.exponent).toNat : Int) =
          context.tiny := by
        omega
      rw [exponents] at rounded
      exact rounded
    · cases bounded
      exact ⟨id, Nat.le_refl _⟩

/-- Rounding that lengthens a coefficient to a power of ten, shortened again. -/
theorem AtMost.carry {negative : Bool} {coefficient : Nat} {exponent : Int}
    (atMost : AtMost order ⟨negative, coefficient, exponent⟩) :
    AtMost order ⟨negative, coefficient / 10, exponent + 1⟩ := by
  rcases atMost with zero | ⟨inside, bound⟩
  · left
    simp only at zero ⊢
    omega
  · simp only at inside bound
    by_cases room : exponent + 1 ≤ order
    · right
      refine ⟨room, ?_⟩
      have split : (order - exponent).toNat = (order - (exponent + 1)).toNat + 1 := by
        omega
      rw [split, tenTo_add, show tenTo 1 = 10 from rfl] at bound
      simp only
      omega
    · left
      have exponents : (order - exponent).toNat = 0 := by
        omega
      rw [exponents, show tenTo 0 = 1 from rfl] at bound
      simp only
      omega

/-- Rounding to the precision refuses only numbers with more digits, that come to lie
above the range. -/
theorem round_error (refused : context.round number = .error refusal) :
    refusal = .overflow ∧ context.precision < digitCount number.coefficient ∧
      ∀ order, AtMost order number → largest < order := by
  unfold Context.round at refused
  simp only at refused
  split at refused
  · cases refused
  · next excess =>
    split at refused
    · obtain ⟨rfl, nonzero, above⟩ := bound_error refused
      refine ⟨rfl, by omega, fun order atMost => ?_⟩
      have rounded := @AtMost.roundOff number order number.negative atMost
        (digitCount number.coefficient - context.precision)
      have within := rounded.carry.adjusted nonzero
      exact lt_of_lt_of_le above within
    · cases refused

/-- Rounding that succeeds does not raise the order of a number. -/
theorem round_ok (rounded : context.round number = .ok result) (atMost : AtMost order number) :
    AtMost order result := by
  unfold Context.round at rounded
  simp only at rounded
  have shorter := @AtMost.roundOff number order number.negative atMost
    (digitCount number.coefficient - context.precision)
  split at rounded
  · cases rounded
    exact atMost
  · split at rounded
    · exact (bound_ok rounded).1 shorter.carry
    · cases rounded
      exact shorter

/-- A result is refused when it lies above the range, before or behind rounding. -/
theorem finish_error (refused : context.finish number = .error refusal) :
    refusal = .overflow ∧ (∀ order, AtMost order number → largest < order) ∧
      (digitCount number.coefficient ≤ context.precision → largest < number.adjusted) := by
  unfold Context.finish at refused
  cases bounded : context.bound number with
  | error other =>
    obtain ⟨rfl, nonzero, above⟩ := bound_error bounded
    rw [bounded] at refused
    obtain rfl := Except.error.inj refused
    exact ⟨rfl, fun order atMost => lt_of_lt_of_le above (atMost.adjusted nonzero),
      fun _ => above⟩
  | ok inside =>
    rw [bounded] at refused
    obtain ⟨rfl, longer, above⟩ := round_error refused
    refine ⟨rfl, fun order atMost => above order ((bound_ok bounded).1 atMost), fun fits => ?_⟩
    have shorter := (@bound_ok context number inside 0 bounded).2
    omega

/-- Finishing that succeeds does not raise the order of a number. -/
theorem finish_ok (finished : context.finish number = .ok result) (atMost : AtMost order number) :
    AtMost order result := by
  unfold Context.finish at finished
  cases bounded : context.bound number with
  | error other =>
    rw [bounded] at finished
    cases finished
  | ok inside =>
    rw [bounded] at finished
    exact round_ok finished ((bound_ok bounded).1 atMost)

/-! ## Sums and products -/

/-- The sum of two numbers before any rounding. -/
def exactSum (left right : Decimal) : Decimal :=
  let exponent := min left.exponent right.exponent
  let total := left.alignedTo exponent + right.alignedTo exponent
  ⟨if total = 0 then left.negative && right.negative else decide (total < 0), total.natAbs,
    exponent⟩

/-- A sum is the exact sum, brought into the context. -/
theorem sum_eq (context : Context) (left right : Decimal) :
    sum context left right = context.finish (exactSum left right) :=
  rfl

/-- The product of two numbers before any rounding. -/
def exactProduct (left right : Decimal) : Decimal :=
  ⟨left.negative != right.negative, left.coefficient * right.coefficient,
    left.exponent + right.exponent⟩

/-- A product is the exact product, brought into the context. -/
theorem product_eq (context : Context) (left right : Decimal) :
    product context left right = context.finish (exactProduct left right) :=
  rfl

/-- The adjusted exponent is that of the first digit, and so never below that of the last. -/
theorem exponent_le_adjusted (number : Decimal) : number.exponent ≤ number.adjusted := by
  have positive := digitCount_pos number.coefficient
  unfold Decimal.adjusted
  omega

/-- An aligned number holds its coefficient in units of the exponent. -/
theorem natAbs_alignedTo (number : Decimal) (exponent : Int) :
    (number.alignedTo exponent).natAbs =
      number.coefficient * tenTo (number.exponent - exponent).toNat := by
  unfold alignedTo
  split
  · next zero =>
    have none : number.coefficient = 0 := by simpa [isZero] using zero
    rw [none, Nat.zero_mul]
    rfl
  · have magnitude : number.signed.natAbs = number.coefficient := by
      unfold signed
      split <;> simp
    rw [Int.natAbs_mul, magnitude, Int.natAbs_natCast]

/-- A coefficient in units of an exponent has no more digits than lie between its leading one
and that exponent. -/
theorem scaled_lt {exponent : Int} {count : Nat} (below : exponent ≤ number.exponent)
    (enough : number.adjusted - exponent + 1 ≤ count) :
    number.coefficient * tenTo (number.exponent - exponent).toNat < tenTo count := by
  have digits := lt_tenTo_digitCount number.coefficient
  calc
    number.coefficient * tenTo (number.exponent - exponent).toNat
        < tenTo (digitCount number.coefficient) * tenTo (number.exponent - exponent).toNat :=
      Nat.mul_lt_mul_of_pos_right digits (tenTo_pos _)
    _ = tenTo (digitCount number.coefficient + (number.exponent - exponent).toNat) :=
      (tenTo_add _ _).symm
    _ ≤ tenTo count := tenTo_le (by unfold Decimal.adjusted at enough; omega)

/-- Both coefficients together, in units of the lower exponent. This is what the aligned
numbers come to when nothing cancels out. -/
def alignedTotal (left right : Decimal) : Nat :=
  left.coefficient * tenTo (left.exponent - min left.exponent right.exponent).toNat +
    right.coefficient * tenTo (right.exponent - min left.exponent right.exponent).toNat

/-- The precision of sums has room for both coefficients together. Each of them alone takes
at least one digit less, and the last digit is for the carry. -/
theorem alignedTotal_lt (left right : Decimal) :
    alignedTotal left right < tenTo (exactPrecision left right) := by
  have leftAbove := exponent_le_adjusted left
  have rightAbove := exponent_le_adjusted right
  unfold alignedTotal
  generalize exponents : min left.exponent right.exponent = exponent
  have span : exactPrecision left right =
      max (max left.adjusted right.adjusted - exponent + 2).toNat
        (digitCount left.coefficient + digitCount right.coefficient) := by
    rw [← exponents]
    rfl
  obtain ⟨count, enough⟩ : ∃ count : Nat,
      (count : Int) = max left.adjusted right.adjusted - exponent + 1 :=
    ⟨(max left.adjusted right.adjusted - exponent + 1).toNat, by omega⟩
  have first : left.coefficient * tenTo (left.exponent - exponent).toNat < tenTo count :=
    scaled_lt (by omega) (by omega)
  have second : right.coefficient * tenTo (right.exponent - exponent).toNat < tenTo count :=
    scaled_lt (by omega) (by omega)
  have carry : tenTo (count + 1) ≤ tenTo (exactPrecision left right) :=
    tenTo_le (by rw [span]; omega)
  rw [tenTo_add, show tenTo 1 = 10 from rfl] at carry
  omega

/-- The precision of products has room for the product of the coefficients. -/
theorem coefficients_lt (left right : Decimal) :
    left.coefficient * right.coefficient < tenTo (exactPrecision left right) :=
  calc
    left.coefficient * right.coefficient
        < tenTo (digitCount left.coefficient) * tenTo (digitCount right.coefficient) :=
      Nat.mul_lt_mul'' (lt_tenTo_digitCount _) (lt_tenTo_digitCount _)
    _ = tenTo (digitCount left.coefficient + digitCount right.coefficient) :=
      (tenTo_add _ _).symm
    _ ≤ tenTo (exactPrecision left right) := tenTo_le (Nat.le_max_right _ _)

/-- The precision that an exact operation works with is positive. -/
theorem exactPrecision_pos (left right : Decimal) : 0 < exactPrecision left right :=
  Nat.lt_of_lt_of_le (Nat.add_pos_left (digitCount_pos _) _) (Nat.le_max_right _ _)

/-- Whatever is no more than both coefficients together has room in the precision. -/
theorem aligned_fits {total : Int} (within : total.natAbs ≤ alignedTotal left right) :
    digitCount total.natAbs ≤ exactPrecision left right :=
  (digitCount_le_iff (exactPrecision_pos left right)).mpr
    (Nat.lt_of_le_of_lt within (alignedTotal_lt left right))

/-- The precision of sums has room for all digits of the exact sum. -/
theorem exactSum_fits (left right : Decimal) :
    digitCount (exactSum left right).coefficient ≤ exactPrecision left right := by
  refine aligned_fits ?_
  rw [alignedTotal, ← natAbs_alignedTo, ← natAbs_alignedTo]
  exact Int.natAbs_add_le _ _

/-- The precision of products has room for all digits of the exact product. -/
theorem exactProduct_fits (left right : Decimal) :
    digitCount (exactProduct left right).coefficient ≤ exactPrecision left right :=
  (digitCount_le_iff (exactPrecision_pos left right)).mpr (coefficients_lt left right)

/-- The result of an operation on two decimals leaves the exponent range. A quotient does
when it comes near the top of the range or is wanted at an exponent above it. -/
def Escapes (operator : Operator) (left right : Decimal) : Prop :=
  match operator with
  | .plus => largest < (exactSum left right).adjusted
  | .minus => largest < (exactSum left right.opposite).adjusted
  | .times => largest < (exactProduct left right).adjusted
  | .divide => largest < left.exponent ∨ largest ≤ left.adjusted - right.adjusted
  | _ => False

/-- A sum is refused only when it leaves the exponent range. -/
theorem add_error (refused : add left right = .error refusal) : Escapes .plus left right := by
  rw [add, sum_eq] at refused
  exact (finish_error refused).2.2
    ((exactSum_fits left right).trans (Nat.le_max_right _ _))

/-- A difference is refused only when it leaves the exponent range. -/
theorem subtract_error (refused : subtract left right = .error refusal) :
    Escapes .minus left right := by
  rw [subtract, sum_eq] at refused
  exact (finish_error refused).2.2
    ((exactSum_fits left right.opposite).trans (Nat.le_max_right _ _))

/-- A product is refused only when it leaves the exponent range. -/
theorem multiply_error (refused : multiply left right = .error refusal) :
    Escapes .times left right := by
  rw [multiply, product_eq] at refused
  exact (finish_error refused).2.2
    ((exactProduct_fits left right).trans (Nat.le_max_right _ _))

/-! ## Quotients -/

/-- Stripping zeros takes factors of ten away, and counts them. -/
theorem stripZerosAt_eq (level : Nat) : ∀ limit coefficient,
    (stripZerosAt level limit coefficient).1 * tenTo (stripZerosAt level limit coefficient).2 =
      coefficient := by
  induction level with
  | zero =>
    intro limit coefficient
    exact Nat.mul_one coefficient
  | succ level inductionHypothesis =>
    intro limit coefficient
    simp only [stripZerosAt]
    split
    · next block =>
      simp only [Bool.and_eq_true, decide_eq_true_eq] at block
      have rest := inductionHypothesis (limit - twoTo level) (coefficient / tenTo (twoTo level))
      rw [tenTo_add, Nat.mul_left_comm, rest]
      exact Nat.mul_div_cancel' (Nat.dvd_of_mod_eq_zero block.2)
    · exact inductionHypothesis limit coefficient

/-- Factors of ten that go from the coefficient to the exponent change no magnitude. -/
theorem AtMost.strip {negative : Bool} {coefficient stripped count : Nat} {exponent : Int}
    (atMost : AtMost order ⟨negative, coefficient, exponent⟩)
    (same : stripped * tenTo count = coefficient) :
    AtMost order ⟨negative, stripped, exponent + count⟩ := by
  by_cases zero : stripped = 0
  · exact .inl zero
  · have positive := tenTo_pos count
    rcases atMost with none | ⟨inside, bound⟩
    · simp only [← same, Nat.mul_eq_zero] at none
      omega
    · simp only at inside bound
      have least : tenTo count ≤ stripped * tenTo count :=
        Nat.le_mul_of_pos_left _ (Nat.pos_of_ne_zero zero)
      have fewer : count ≤ (order - exponent).toNat := by
        by_contra more
        have outside := tenTo_lt.mpr (Nat.lt_of_not_le more)
        omega
      have split : (order - exponent).toNat = (order - (exponent + count)).toNat + count := by
        omega
      rw [← same, split, tenTo_add] at bound
      exact .inr ⟨by simp only; omega, Nat.le_of_mul_le_mul_right bound positive⟩

/-- A quotient is computed from digits that do not reach the power of ten above the
difference of the orders of magnitude. -/
theorem quotient_finish (context : Context) (left : Decimal) (divisor : right.coefficient ≠ 0) :
    ∃ raw, quotient context left right = context.finish raw ∧
      AtMost (left.adjusted - right.adjusted + 1) raw := by
  unfold quotient
  simp only
  split
  · exact ⟨_, rfl, .inl rfl⟩
  · generalize shifted : (digitCount right.coefficient - digitCount left.coefficient +
      context.precision + 1 : Int) = shift
    have above : left.coefficient * tenTo shift.toNat /
        (right.coefficient * tenTo (-shift).toNat) < tenTo (context.precision + 2) := by
      have leftDigits := lt_tenTo_digitCount left.coefficient
      have rightDigits := tenTo_le_of_digits divisor
      have some := digitCount_pos right.coefficient
      apply Nat.div_lt_of_lt_mul
      calc
        left.coefficient * tenTo shift.toNat
            < tenTo (digitCount left.coefficient) * tenTo shift.toNat :=
          Nat.mul_lt_mul_of_pos_right leftDigits (tenTo_pos _)
        _ = tenTo (digitCount right.coefficient - 1 + (-shift).toNat +
              (context.precision + 2)) := by
          rw [← tenTo_add]
          congr 1
          omega
        _ = tenTo (digitCount right.coefficient - 1) * tenTo (-shift).toNat *
              tenTo (context.precision + 2) := by
          rw [tenTo_add, tenTo_add]
        _ ≤ right.coefficient * tenTo (-shift).toNat * tenTo (context.precision + 2) :=
          Nat.mul_le_mul_right _ (Nat.mul_le_mul_right _ rightDigits)
    generalize left.coefficient * tenTo shift.toNat /
      (right.coefficient * tenTo (-shift).toNat) = digits at above
    have order : left.adjusted - right.adjusted + 1 =
        left.exponent - right.exponent - shift + (context.precision + 2) := by
      unfold Decimal.adjusted
      omega
    have atMost : ∀ coefficient, coefficient ≤ tenTo (context.precision + 2) →
        AtMost (left.adjusted - right.adjusted + 1) ⟨left.negative != right.negative, coefficient,
          left.exponent - right.exponent - shift⟩ := by
      intro coefficient bound
      refine .inr ⟨by simp only; omega, ?_⟩
      have exponents : (left.adjusted - right.adjusted + 1 -
          (left.exponent - right.exponent - shift)).toNat = context.precision + 2 := by
        omega
      simp only [exponents]
      exact bound
    split
    · exact ⟨_, rfl, (atMost digits (Nat.le_of_lt above)).strip (stripZerosAt_eq _ _ _)⟩
    · refine ⟨_, rfl, atMost _ ?_⟩
      split
      · exact above
      · exact Nat.le_of_lt above

/-- The adjusted exponent of a power of ten is its exponent. -/
theorem adjusted_unit (exponent : Int) : (⟨false, 1, exponent⟩ : Decimal).adjusted = exponent := by
  simp [Decimal.adjusted, digitCount_one]

/-- The exponent of a power of ten in a context: in the range, and not below its own. -/
theorem unit_exponent {exponent : Int} (some : 1 ≤ context.precision)
    (finished : context.finish ⟨false, 1, exponent⟩ = .ok result) :
    exponent ≤ result.exponent ∧ context.tiny ≤ result.exponent ∧ result.exponent ≤ largest := by
  have tiny : context.tiny = smallest - context.precision + 1 := rfl
  have bottom : smallest = -999999 := rfl
  have top : largest = 999999 := rfl
  unfold Context.finish at finished
  cases bounded : context.bound ⟨false, 1, exponent⟩ with
  | error other =>
    rw [bounded] at finished
    cases finished
  | ok inside =>
    have digits := (@bound_ok context _ inside 0 bounded).2
    rw [digitCount_one] at digits
    rw [bounded] at finished
    have kept : inside = result := by
      have none : digitCount inside.coefficient - context.precision = 0 := by
        omega
      simp only [bind, Except.bind, Context.round, none, ↓reduceIte] at finished
      exact Except.ok.inj finished
    subst kept
    simp only [Context.bound, adjusted_unit] at bounded
    split at bounded
    · simp [isZero] at bounded
    · split at bounded
      · next small =>
        simp only [Bool.and_eq_true, decide_eq_true_eq] at small
        cases bounded
        simp only
        omega
      · next large =>
        simp only [Bool.and_eq_true, decide_eq_true_eq] at large
        cases bounded
        simp only
        omega

/-- A number at another exponent, with the digits that lie below that rounded away. -/
def moved (number : Decimal) (exponent : Int) : Decimal :=
  if 0 ≤ number.exponent - exponent then
    { number with
      coefficient := number.coefficient * tenTo (number.exponent - exponent).toNat
      exponent := exponent }
  else
    { number with
      coefficient := roundOff number.coefficient (-(number.exponent - exponent)).toNat
      exponent := exponent }

/-- A number that is moved to an exponent has this exponent. -/
theorem moved_exponent (number : Decimal) (exponent : Int) :
    (number.moved exponent).exponent = exponent := by
  unfold moved
  split
  · rfl
  · rfl

/-- Moving a number to another exponent does not raise its order. -/
theorem AtMost.moved (atMost : AtMost order number) (nonzero : number.coefficient ≠ 0)
    (exponent : Int) : AtMost order (number.moved exponent) := by
  unfold Decimal.moved
  split
  · next wide =>
    rcases atMost with none | ⟨below, bound⟩
    · exact absurd none nonzero
    · refine .inr ⟨by simp only; omega, ?_⟩
      have split : (order - exponent).toNat =
          (order - number.exponent).toNat + (number.exponent - exponent).toNat := by
        omega
      simp only [split, tenTo_add]
      exact Nat.mul_le_mul_right _ bound
  · next narrow =>
    have rounded := @AtMost.roundOff number order number.negative atMost
      (-(number.exponent - exponent)).toNat
    have exponents : number.exponent + ((-(number.exponent - exponent)).toNat : Int) =
        exponent := by
      omega
    rw [exponents] at rounded
    exact rounded

/-- A number other than zero, given another exponent in the range, is moved there if the
precision has room for its digits. -/
theorem rescale_moved {exponent : Int} (nonzero : number.coefficient ≠ 0)
    (atMost : AtMost order number) (inside : context.tiny ≤ exponent ∧ exponent ≤ largest)
    (room : order + 1 - exponent ≤ context.precision) :
    rescale context number exponent =
      if largest < (number.moved exponent).adjusted ||
        (number.moved exponent).adjusted < context.tiny then .error .invalid
      else context.finish (number.moved exponent) := by
  have within := atMost.adjusted nonzero
  unfold Decimal.adjusted at within
  unfold rescale
  rw [if_neg (by simp; omega), if_neg (by simpa [isZero] using nonzero)]
  simp only
  rw [if_neg (by omega)]
  rfl

/-- Giving a number another exponent refuses only what lies above the range, when the
exponent is in the range and the precision has room for the digits. -/
theorem rescale_error {exponent : Int} (atMost : AtMost order number)
    (inside : context.tiny ≤ exponent ∧ exponent ≤ largest)
    (room : order + 1 - exponent ≤ context.precision)
    (refused : rescale context number exponent = .error refusal) : largest < order := by
  by_cases zero : number.coefficient = 0
  · unfold rescale at refused
    rw [if_neg (by simp; omega), if_pos (by simpa [isZero] using zero)] at refused
    have never := (finish_error refused).2.1 largest (.inl zero)
    exact absurd never (lt_irrefl _)
  · rw [rescale_moved zero atMost inside room] at refused
    have movedAtMost := atMost.moved zero exponent
    split at refused
    · next outside =>
      simp only [Bool.or_eq_true, decide_eq_true_eq] at outside
      have least := exponent_le_adjusted (number.moved exponent)
      have most := movedAtMost.adjusted_le
      rw [moved_exponent] at least most
      omega
    · exact (finish_error refused).2.1 order movedAtMost

/-- A division works with 28 digits at least, and with 28 more than its result has. -/
theorem divisionContext_room (left right : Decimal) :
    28 ≤ (divisionContext left right).precision ∧
      left.adjusted - right.adjusted + 2 - left.exponent + 28 ≤
        (divisionContext left right).precision := by
  refine ⟨Nat.le_max_left _ _, ?_⟩
  unfold divisionContext
  simp only
  omega

/-- A quotient is refused when its target exponent or its magnitude leaves the range. -/
theorem divide_error (divisor : right.coefficient ≠ 0)
    (refused : divide left right = .error refusal) : Escapes .divide left right := by
  obtain ⟨some, room⟩ := divisionContext_room left right
  unfold divide at refused
  simp only at refused
  generalize divisionContext left right = context at refused some room
  obtain ⟨raw, shape, atMost⟩ := quotient_finish context left divisor
  rw [shape] at refused
  cases finished : context.finish raw with
  | error other =>
    have above := (finish_error finished).2.1 _ atMost
    exact .inr (by omega)
  | ok quotient =>
    rw [finished] at refused
    cases unitFinished : context.finish { one with exponent := left.exponent } with
    | error other =>
      have above := (finish_error unitFinished).2.2
        (by simp only [one, digitCount_one]; omega)
      rw [one, adjusted_unit] at above
      exact .inl above
    | ok unit =>
      obtain ⟨lower, tiny, upper⟩ := unit_exponent (by omega) unitFinished
      simp only [bind, Except.bind, unitFinished] at refused
      have above := rescale_error (finish_ok finished atMost) ⟨tiny, upper⟩ (by omega) refused
      exact .inr (by omega)

end Blockscript.Decimal
