import Blockscript.Decimal.Basic
import Blockscript.Text.Digit

/-!
# Written integers

Integers are unbounded, but their decimal notation is not: beyond a fixed number
of digits an integer is neither written nor read, since both take time that grows
with the square of the length. The sign does not count, leading zeros do.

A numeral that is read may have blank characters around it, a sign, and single
underscores between its digits. How long it is matters as soon as its digits have
been seen; what stands behind them is looked at afterwards.
-/

namespace Blockscript

/-- The digits of a natural number, without leading zeros. -/
def digitsOf (number : Nat) : List Char :=
  Nat.toDigits 10 number

/-- The value of a sequence of digits. -/
def numberOfDigits (digits : List Char) : Nat :=
  digits.foldl (fun reached digit => reached * 10 + (digit.toNat - '0'.toNat)) 0

/-- Splits a sign off. Without a sign the number is not negative. -/
def splitSign : List Char → Bool × List Char
  | '-' :: rest => (true, rest)
  | '+' :: rest => (false, rest)
  | letters => (false, letters)

/-- The integer that an optional sign and digits denote. -/
def integerOfLetters (letters : List Char) : Int :=
  let (negative, digits) := splitSign letters
  if negative then -(numberOfDigits digits : Int) else numberOfDigits digits

/-- An integer in decimal notation, however long. -/
def integerText (number : Int) : List Char :=
  if number < 0 then '-' :: digitsOf number.natAbs else digitsOf number.natAbs

/-- The greatest number of digits that an integer is written or read with. -/
def digitLimit : Nat := 4300

/-- The text of an integer, unless it has too many digits to be written. -/
def integerText? (number : Int) : Option String :=
  if digitCount number.natAbs ≤ digitLimit then
    some (String.ofList (integerText number))
  else
    none

/-- What the limit on digits is called in messages. -/
def digitLimitText : String :=
  "Exceeds the limit (" ++ toString digitLimit ++ " digits) for integer string conversion"

/-- Why a numeral gives no number. -/
inductive NumeralFault where
  /-- The integer has this many digits. -/
  | overlong (digits : Nat)
  | noInteger (text : String)
  /-- The text is no decimal number, or one out of all range. -/
  | noDecimal (text : String)
deriving DecidableEq, Inhabited

/-- The wording of a fault. -/
def NumeralFault.message : NumeralFault → String
  | overlong digits => digitLimitText ++ ": value has " ++ toString digits ++ " digits"
  | noInteger text => "invalid literal for int() with base 10: '" ++ text ++ "'"
  | noDecimal _ => "InvalidOperation"

/-- Whether a letter may stand around an integer. -/
def surroundsInteger (letter : Char) : Bool :=
  letter = ' ' || (0x09 ≤ letter.toNat && letter.toNat ≤ 0x0d)

/-- Whether a letter may stand among the digits of an integer. -/
def continuesInteger (letter : Char) : Bool :=
  letter.isDigit || letter = '_'

/-- Whether digits have been separated well: a digit at both ends and at most one
underscore between two of them. -/
def isSeparated : List Char → Bool
  | [] => false
  | [last] => last.isDigit
  | first :: '_' :: rest => first.isDigit && isSeparated rest
  | first :: rest => first.isDigit && isSeparated rest

/-- Reads an integer of at most so many digits. -/
def readIntegerWithin (limit : Nat) (text : String) : Except NumeralFault Int :=
  let letters := (text.toList.map Text.plainLetter).dropWhile surroundsInteger
  let (negative, unsigned) := splitSign letters
  let run := unsigned.takeWhile continuesInteger
  let digits := run.filter Char.isDigit
  if !isSeparated run then
    .error (.noInteger text)
  else if limit < digits.length then
    .error (.overlong digits.length)
  else if !(unsigned.dropWhile continuesInteger).all surroundsInteger then
    .error (.noInteger text)
  else
    .ok (if negative then -(numberOfDigits digits : Int) else numberOfDigits digits)

/-- Reads an integer. -/
def readInteger (text : String) : Except NumeralFault Int :=
  readIntegerWithin digitLimit text

end Blockscript
