import Blockscript.Decimal.Text
import Blockscript.Proofs.Decimal.Digits
import Blockscript.Proofs.Token.Classes

/-!
# Numbers and their notation

The digits that are written for a natural number are a whole number of the language, as
many as are counted, and they have the value of the number. A decimal that is written
without a power of ten and has digits behind its point is a decimal of the language, and it
is read with the sign, the coefficient and the exponent that were written.
-/

namespace Blockscript

open TokenKind

/-! ## Digits -/

/-- The digits of a number are digits. -/
theorem digitsOf_digits {number : Nat} : ∀ digit ∈ digitsOf number, digit.isDigit = true :=
  fun _ member => Nat.isDigit_of_mem_toDigits (by decide) (by decide) member

/-- Every number has digits. -/
theorem digitsOf_ne_nil {number : Nat} : digitsOf number ≠ [] :=
  Nat.toDigits_ne_nil

/-- Digits are put together as the library does it. -/
theorem numberOfDigits_eq (digits : List Char) :
    numberOfDigits digits = Nat.ofDigitChars 10 digits 0 := by
  simp only [numberOfDigits, Nat.ofDigitChars_eq_foldl, Nat.mul_comm]

/-- The digits of a number denote it. -/
@[simp]
theorem numberOfDigits_digitsOf (number : Nat) : numberOfDigits (digitsOf number) = number := by
  rw [numberOfDigits_eq, digitsOf, Nat.ofDigitChars_ten_toDigits]

/-- Zeros in front of digits have no value. -/
theorem numberOfDigits_zeros (count : Nat) (digits : List Char) :
    numberOfDigits (List.replicate count '0' ++ digits) = numberOfDigits digits := by
  rw [numberOfDigits_eq, numberOfDigits_eq, Nat.ofDigitChars_append,
    Nat.ofDigitChars_replicate_zero, Nat.mul_zero]

/-- There are as many digits as are counted. -/
theorem length_digitsOf (number : Nat) : (digitsOf number).length = digitCount number := by
  have written : ∀ {count : Nat}, 0 < count →
      ((digitsOf number).length ≤ count ↔ number < tenTo count) :=
    fun some => Nat.length_toDigits_le_iff (by decide) some
  apply Nat.le_antisymm
  · exact (written (digitCount_pos number)).mpr (lt_tenTo_digitCount number)
  · have some : 0 < (digitsOf number).length := Nat.length_toDigits_pos
    exact (digitCount_le_iff some).mpr ((written some).mp le_rfl)

/-- The first digit of a positive number is not zero. -/
theorem digitsOf_head {number : Nat} (positive : number ≠ 0) :
    ∃ first rest, digitsOf number = first :: rest ∧ first ≠ '0' := by
  induction number using Nat.strongRecOn with
  | ind number inductionHypothesis =>
    by_cases small : number < 10
    · refine ⟨number.digitChar, [], Nat.toDigits_of_lt_base small, fun same => positive ?_⟩
      have value := congrArg Char.toNat same
      rw [Nat.toNat_digitChar_of_lt_ten small] at value
      simpa using value
    · obtain ⟨first, rest, front, nonzero⟩ :=
        inductionHypothesis (number / 10) (by omega) (by omega)
      refine ⟨first, rest ++ [(number % 10).digitChar], ?_, nonzero⟩
      rw [digitsOf, Nat.toDigits_of_base_le (by decide) (by omega)]
      exact congrArg (· ++ [(number % 10).digitChar]) front

/-- The digits of a number are a whole number of the language. -/
theorem wholeNumber_digitsOf (number : Nat) : WholeNumber (digitsOf number) := by
  by_cases zero : number = 0
  · subst zero
    exact .zero
  · obtain ⟨first, rest, same, nonzero⟩ := digitsOf_head zero
    have digits := @digitsOf_digits number
    rw [same] at digits ⊢
    obtain ⟨leading, others⟩ := List.forall_mem_cons.mp digits
    exact .digits leading nonzero others

/-- The beginning of a whole number is one. -/
theorem TokenKind.WholeNumber.take {digits : List Char} (number : WholeNumber digits) {count : Nat}
    (some : 0 < count) : WholeNumber (digits.take count) := by
  obtain ⟨count, rfl⟩ := Nat.exists_eq_succ_of_ne_zero some.ne'
  cases number with
  | zero => simpa using WholeNumber.zero
  | digits first nonzero rest =>
    exact .digits first nonzero fun digit member => rest digit (List.mem_of_mem_take member)

/-! ## Signs -/

/-- A minus sign for negative numbers. -/
def withSign (negative : Bool) (letters : List Char) : List Char :=
  if negative then '-' :: letters else letters

/-- A whole number is a signed one with or without its sign. -/
theorem signedNumber_withSign {digits : List Char} (number : WholeNumber digits) (negative : Bool) :
    SignedNumber (withSign negative digits) := by
  cases negative with
  | false => exact .plain number
  | true => exact .negative number

/-- A sign in front of digits is split off. -/
theorem splitSign_withSign {first : Char} (digit : first.isDigit = true) (negative : Bool)
    (rest : List Char) :
    splitSign (withSign negative (first :: rest)) = (negative, first :: rest) := by
  cases negative with
  | true => rfl
  | false =>
    unfold splitSign
    split
    · next same => cases same; cases digit
    · next same => cases same; cases digit
    · rfl

/-- The text of an integer is an integer of the language. -/
theorem integerText_member (number : Int) : Member .integer (integerText number) := by
  have same : integerText number = withSign (number < 0) (digitsOf number.natAbs) := by
    simp [integerText, withSign]
  rw [same]
  exact .integer (signedNumber_withSign (wholeNumber_digitsOf _) _)

/-- An integer is read from its text. -/
theorem integerOfLetters_integerText (number : Int) :
    integerOfLetters (integerText number) = number := by
  have same : integerText number = withSign (number < 0) (digitsOf number.natAbs) := by
    simp [integerText, withSign]
  obtain ⟨first, rest, digits, digit⟩ := (wholeNumber_digitsOf number.natAbs).head
  have split := splitSign_withSign digit (number < 0) rest
  rw [← digits, ← same] at split
  simp only [integerOfLetters, split, numberOfDigits_digitsOf, decide_eq_true_eq]
  split <;> omega

namespace Decimal

/-! ## Reading a number -/

/-- Digits end where none follows. -/
theorem takeWhile_digits {digits : List Char} (rest : List Char)
    (all : ∀ digit ∈ digits, digit.isDigit = true)
    (ends : ∀ letter ∈ rest.head?, letter.isDigit = false) :
    (digits ++ rest).takeWhile Char.isDigit = digits ∧
      (digits ++ rest).dropWhile Char.isDigit = rest := by
  rw [List.takeWhile_append_of_pos all, List.dropWhile_append_of_pos all]
  cases rest with
  | nil => simp
  | cons first others => simp [ends first rfl]

/-- Digits with a point among them are read as their value, with as many of them behind the
point as are written there, and with the power of ten behind them. -/
theorem ofLetters?_point_power {whole fraction : List Char} (number : WholeNumber whole)
    (digits : ∀ digit ∈ fraction, digit.isDigit = true) (power : List Char)
    (ends : ∀ letter ∈ power.head?, letter.isDigit = false) (negative : Bool) :
    ofLetters? (withSign negative (whole ++ '.' :: (fraction ++ power))) =
      (exponentOfLetters? power).map fun exponent =>
        ⟨negative, numberOfDigits (whole ++ fraction), exponent - fraction.length⟩ := by
  have unsigned : splitSign (withSign negative (whole ++ '.' :: (fraction ++ power))) =
      (negative, whole ++ '.' :: (fraction ++ power)) := by
    obtain ⟨first, rest, rfl, digit⟩ := number.head
    exact splitSign_withSign digit negative _
  obtain ⟨front, back⟩ := takeWhile_digits ('.' :: (fraction ++ power)) number.allDigits (by simp)
  obtain ⟨taken, left⟩ := takeWhile_digits power digits ends
  have nonempty : whole.isEmpty = false := by
    obtain ⟨first, rest, rfl, _⟩ := number.head
    rfl
  simp [ofLetters?, unsigned, front, back, taken, left, nonempty]

/-- Digits without a point are read as their value, with the power of ten behind them. -/
theorem ofLetters?_power {whole : List Char} (number : WholeNumber whole) (power : List Char)
    (ends : ∀ letter ∈ power.head?, letter.isDigit = false ∧ letter ≠ '.') (negative : Bool) :
    ofLetters? (withSign negative (whole ++ power)) =
      (exponentOfLetters? power).map fun exponent =>
        ⟨negative, numberOfDigits whole, exponent⟩ := by
  have unsigned : splitSign (withSign negative (whole ++ power)) = (negative, whole ++ power) := by
    obtain ⟨first, rest, rfl, digit⟩ := number.head
    exact splitSign_withSign digit negative _
  obtain ⟨front, back⟩ :=
    takeWhile_digits power number.allDigits fun letter head => (ends letter head).1
  have nonempty : whole.isEmpty = false := by
    obtain ⟨first, rest, rfl, _⟩ := number.head
    rfl
  cases power with
  | nil =>
    rw [List.append_nil] at unsigned front back ⊢
    simp [ofLetters?, unsigned, front, back, nonempty]
  | cons letter rest =>
    have noPoint : letter ≠ '.' := (ends letter rfl).2
    simp [ofLetters?, unsigned, front, back, nonempty, noPoint]

/-- A power of ten is read from its text. -/
theorem exponentOfLetters?_exponentText (exponent : Int) :
    exponentOfLetters? (exponentText exponent) = some exponent := by
  have digits : ∀ digit ∈ digitsOf exponent.natAbs, digit.isDigit = true := digitsOf_digits
  by_cases negative : exponent < 0
  · simpa [exponentText, exponentOfLetters?, negative, splitSign, digitsOf_ne_nil,
      integerOfLetters, abs_of_neg negative] using digits
  · simpa [exponentText, exponentOfLetters?, negative, splitSign, digitsOf_ne_nil,
      integerOfLetters, abs_of_nonneg (not_lt.mp negative)] using digits

/-! ## Decimals with a point -/

/-- Digits with a point among them and nothing behind them are read as their value. -/
theorem ofLetters?_point {whole fraction : List Char} (number : WholeNumber whole)
    (digits : ∀ digit ∈ fraction, digit.isDigit = true) (negative : Bool) :
    ofLetters? (withSign negative (whole ++ '.' :: fraction)) =
      some ⟨negative, numberOfDigits (whole ++ fraction), -fraction.length⟩ := by
  have read := ofLetters?_point_power number digits [] (by simp) negative
  simpa [exponentOfLetters?] using read

/-- What the members of the class of decimals look like, sign and point apart. -/
theorem member_decimal_iff {text : List Char} : Member .decimal text ↔
    ∃ negative whole fraction, text = withSign negative (whole ++ '.' :: fraction) ∧
      WholeNumber whole ∧ fraction ≠ [] ∧ ∀ digit ∈ fraction, digit.isDigit = true := by
  constructor
  · rintro ⟨⟩
    next whole first rest number digit all =>
      have digits : ∀ digit ∈ first :: rest, digit.isDigit = true :=
        List.forall_mem_cons.mpr ⟨digit, all⟩
      cases number with
      | plain number => exact ⟨false, _, _, rfl, number, by simp, digits⟩
      | negative number => exact ⟨true, _, _, rfl, number, by simp, digits⟩
  · rintro ⟨negative, whole, fraction, rfl, number, nonempty, all⟩
    obtain ⟨first, rest, rfl⟩ := List.exists_cons_of_ne_nil nonempty
    obtain ⟨digit, digits⟩ := List.forall_mem_cons.mp all
    have front : withSign negative (whole ++ '.' :: first :: rest) =
        withSign negative whole ++ '.' :: first :: rest := by
      cases negative <;> rfl
    rw [front]
    exact .decimal (signedNumber_withSign number negative) digit digits

/-- A decimal of the language has digits behind its point. -/
theorem exponent_neg {text : List Char} {number : Decimal} (member : Member .decimal text)
    (read : ofLetters? text = some number) : number.exponent < 0 := by
  obtain ⟨negative, whole, fraction, rfl, wholeNumber, nonempty, digits⟩ :=
    member_decimal_iff.mp member
  rw [ofLetters?_point wholeNumber digits] at read
  cases read
  have some : 0 < fraction.length := List.length_pos_iff.mpr nonempty
  simp only
  omega

/-- Digits that are written with a point before the last of them are a whole number and a
fraction, with the same value. -/
theorem withPoint_split {digits : List Char} (number : WholeNumber digits) {place : Int}
    (before : place < digits.length) :
    ∃ whole fraction, withPoint digits place = whole ++ '.' :: fraction ∧ WholeNumber whole ∧
      (∀ digit ∈ fraction, digit.isDigit = true) ∧
      numberOfDigits (whole ++ fraction) = numberOfDigits digits ∧
      (fraction.length : Int) = digits.length - place := by
  by_cases leading : place ≤ 0
  · refine ⟨['0'], List.replicate (-place).toNat '0' ++ digits, ?_, .zero, ?_, ?_, ?_⟩
    · simp [withPoint, leading]
    · refine List.forall_mem_append.mpr ⟨fun zero member => ?_, number.allDigits⟩
      rw [List.eq_of_mem_replicate member]
      decide
    · exact (numberOfDigits_zeros 1 _).trans (numberOfDigits_zeros _ _)
    · rw [List.length_append, List.length_replicate]
      omega
  · refine ⟨digits.take place.toNat, digits.drop place.toNat, ?_, number.take (by omega), ?_, ?_,
      ?_⟩
    · simp [withPoint, leading, before]
    · exact fun digit member => number.allDigits digit (List.mem_of_mem_drop member)
    · rw [List.take_append_drop]
    · rw [List.length_drop]
      omega

/-- A number with digits behind its point and few zeros there is written without a power of
ten. -/
theorem letters_plain {number : Decimal} (fractional : number.exponent < 0)
    (bounded : leastPlain ≤ number.adjusted) :
    number.letters = withSign number.negative (withPoint (digitsOf number.coefficient)
      (number.exponent + (digitsOf number.coefficient).length)) := by
  have plain : leastPlain ≤ number.exponent + (digitsOf number.coefficient).length - 1 := by
    rw [length_digitsOf]
    exact bounded
  simp [letters, fractional.le, plain, withSign]

/-- Such a number is written as a decimal of the language, and is read from that. -/
theorem letters_read {number : Decimal} (fractional : number.exponent < 0)
    (bounded : leastPlain ≤ number.adjusted) :
    Member .decimal number.letters ∧ ofLetters? number.letters = some number := by
  have before : number.exponent + (digitsOf number.coefficient).length <
      (digitsOf number.coefficient).length := by
    omega
  obtain ⟨whole, fraction, same, wholeNumber, digits, value, length⟩ :=
    withPoint_split (wholeNumber_digitsOf number.coefficient) before
  have nonempty : fraction ≠ [] := by
    rintro rfl
    simp only [List.length_nil] at length
    omega
  rw [letters_plain fractional bounded, same]
  refine ⟨member_decimal_iff.mpr ⟨_, _, _, rfl, wholeNumber, nonempty, digits⟩, ?_⟩
  have exponent : -(fraction.length : Int) = number.exponent := by omega
  rw [ofLetters?_point wholeNumber digits, value, exponent, numberOfDigits_digitsOf]

/-! ## Decimals of every magnitude -/

/-- A whole number of digits is written without a point. -/
theorem withPoint_whole {digits : List Char} (number : WholeNumber digits) {place : Int}
    (behind : digits.length ≤ place) : withPoint digits place = digits := by
  have positive : 0 < digits.length := by
    obtain ⟨first, rest, rfl, _⟩ := number.head
    exact Nat.succ_pos _
  unfold withPoint
  rw [if_neg (by omega), if_neg (by omega)]

/-- Digits with a point behind the first of them and a power of ten are read as the number
that has its digits in these places. -/
theorem ofLetters?_scientific {digits : List Char} (number : WholeNumber digits) (negative : Bool)
    (exponent : Int) :
    ofLetters? (withSign negative (withPoint digits 1 ++
      exponentText (exponent + digits.length - 1))) =
        some ⟨negative, numberOfDigits digits, exponent⟩ := by
  have ends (letter : Char) (head : letter ∈
      (exponentText (exponent + digits.length - 1)).head?) :
      letter.isDigit = false ∧ letter ≠ '.' := by
    cases head
    decide
  by_cases single : (digits.length : Int) ≤ 1
  · have length : digits.length = 1 := by
      obtain ⟨first, rest, rfl, _⟩ := number.head
      simp only [List.length_cons] at single ⊢
      omega
    rw [withPoint_whole number single, ofLetters?_power number _ ends,
      exponentOfLetters?_exponentText, length]
    simp
  · obtain ⟨whole, fraction, same, wholeNumber, fractionDigits, value, length⟩ :=
      withPoint_split number (not_le.mp single)
    rw [same, List.append_assoc, List.cons_append,
      ofLetters?_point_power wholeNumber fractionDigits _ fun letter head => (ends letter head).1,
      exponentOfLetters?_exponentText, value, length]
    simp only [Option.map_some, Option.some.injEq, Decimal.mk.injEq, true_and]
    omega

/-- A number is read from its letters, whichever way it is written. -/
theorem ofLetters?_letters (number : Decimal) : ofLetters? number.letters = some number := by
  have digits := wholeNumber_digitsOf number.coefficient
  by_cases plain : number.exponent ≤ 0 ∧
      leastPlain ≤ number.exponent + (digitsOf number.coefficient).length - 1
  · by_cases fractional : number.exponent < 0
    · refine (letters_read fractional ?_).2
      rw [adjusted, ← length_digitsOf]
      exact plain.2
    · have whole : number.exponent = 0 := by omega
      have shape : number.letters = withSign number.negative (digitsOf number.coefficient) := by
        have behind : (digitsOf number.coefficient).length ≤
            number.exponent + (digitsOf number.coefficient).length := by
          omega
        have written := withPoint_whole digits behind
        simp [letters, plain, written, withSign]
      have read := ofLetters?_power digits [] (by simp) number.negative
      rw [shape]
      simpa [exponentOfLetters?, ← whole] using read
  · have shape : number.letters = withSign number.negative
        (withPoint (digitsOf number.coefficient) 1 ++
          exponentText (number.exponent + (digitsOf number.coefficient).length - 1)) := by
      unfold letters
      simp only [Bool.and_eq_true, decide_eq_true_eq, plain, ↓reduceIte]
      rfl
    rw [shape, ofLetters?_scientific digits, numberOfDigits_digitsOf]

/-- The text of a number determines its sign, its digits and its exponent. -/
theorem ofText?_text (number : Decimal) : ofText? number.text = some number := by
  rw [ofText?, text, String.toList_ofList, ofLetters?_letters]

end Decimal

end Blockscript
