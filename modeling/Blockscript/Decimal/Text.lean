import Blockscript.Decimal.Basic
import Blockscript.Numeral

/-!
# Written decimal numbers

A number is written with its point in place when its exponent is not positive
and fewer than six zeros would stand between the point and the first digit.
Otherwise it is written with one digit before the point and a signed power of
ten. Both forms keep the sign of zero and every digit of the coefficient, so a
text determines its number.

Reading accepts both forms, a missing whole or fractional part, and a leading
sign. A numeral that stands in a program may also have blank characters around
it and underscores anywhere. There is no bound on the number of its digits.
-/

namespace Blockscript

namespace Decimal

/-- The smallest order of magnitude that is written without a power of ten. -/
def leastPlain : Int := -6

/-- Digits with a point after the first `place` of them; in front of all digits
zeros fill up to the point. -/
def withPoint (digits : List Char) (place : Int) : List Char :=
  if place ≤ 0 then
    '0' :: '.' :: (List.replicate (-place).toNat '0' ++ digits)
  else if place < digits.length then
    digits.take place.toNat ++ '.' :: digits.drop place.toNat
  else
    digits

/-- A power of ten with its sign, plus included. -/
def exponentText (exponent : Int) : List Char :=
  'E' :: (if exponent < 0 then '-' else '+') :: digitsOf exponent.natAbs

/-- The letters of a number. -/
def letters (number : Decimal) : List Char :=
  let digits := digitsOf number.coefficient
  let unsigned :=
    if number.exponent ≤ 0 && leastPlain ≤ number.exponent + digits.length - 1 then
      withPoint digits (number.exponent + digits.length)
    else
      withPoint digits 1 ++ exponentText (number.exponent + digits.length - 1)
  if number.negative then '-' :: unsigned else unsigned

/-- The written form of a number. -/
def text (number : Decimal) : String :=
  String.ofList number.letters

/-- Reads a power of ten: none at all, or `E` and a signed number. -/
def exponentOfLetters? : List Char → Option Int
  | [] => some 0
  | mark :: rest =>
    let digits := (splitSign rest).2
    if (mark = 'E' || mark = 'e') && !digits.isEmpty && digits.all Char.isDigit then
      some (integerOfLetters rest)
    else
      none

/-- Reads a number from its letters. -/
def ofLetters? (letters : List Char) : Option Decimal :=
  let (negative, unsigned) := splitSign letters
  let whole := unsigned.takeWhile Char.isDigit
  let afterWhole := unsigned.dropWhile Char.isDigit
  let (fraction, afterFraction) :=
    match afterWhole with
    | '.' :: rest => (rest.takeWhile Char.isDigit, rest.dropWhile Char.isDigit)
    | rest => ([], rest)
  if whole.isEmpty && fraction.isEmpty then
    none
  else
    (exponentOfLetters? afterFraction).map fun exponent =>
      ⟨negative, numberOfDigits (whole ++ fraction), exponent - fraction.length⟩

/-- Reads a number from its written form. -/
def ofText? (text : String) : Option Decimal :=
  ofLetters? text.toList

/-- The greatest order of magnitude that a numeral may have. -/
def greatestMagnitude : Int := 999999999999999999

/-- The smallest exponent that a numeral may have. -/
def leastExponent : Int := -1999999999999999997

/-- Whether a numeral may denote the number. Only numerals with a power of ten
get out of this range, all others would have to be too long to be written. -/
def isReadable (number : Decimal) : Bool :=
  number.adjusted ≤ greatestMagnitude && leastExponent ≤ number.exponent

/-- The letters of a numeral that count: those inside the blank characters at
both ends, in ASCII, and no underscores. -/
def numeralLetters (letters : List Char) : List Char :=
  (((letters.dropWhile Text.isBlank).reverse.dropWhile Text.isBlank).reverse.filter
    (· ≠ '_')).map Text.plainLetter

/-- Reads a decimal number. The words for infinity and for what is no number
denote no decimal number here. -/
def read (text : String) : Except NumeralFault Decimal :=
  let letters := numeralLetters text.toList
  match ofLetters? letters with
  | none => .error (.noDecimal text)
  | some number =>
    if letters.any (fun letter => letter = 'E' || letter = 'e') && !number.isReadable then
      .error (.noDecimal text)
    else
      .ok number

end Decimal

end Blockscript
