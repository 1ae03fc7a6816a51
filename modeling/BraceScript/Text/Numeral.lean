/-! # Decimal numerals

Integers as they are written: decimal digits after at most one sign. -/

namespace BraceScript

/-- The number that a row of decimal digits stands for, if it is one and not empty. -/
def natOfDigits? (digits : List Char) : Option Nat :=
  if digits ≠ [] ∧ digits.all Char.isDigit then
    some (digits.foldl (fun n digit => 10 * n + (digit.toNat - '0'.toNat)) 0)
  else none

/-- The integer that a numeral stands for, whatever its size. -/
def intOfNumeral? (numeral : String) : Option Int :=
  match numeral.toList with
  | '-' :: digits => (natOfDigits? digits).map fun n => -(n : Int)
  | '+' :: digits => (natOfDigits? digits).map Int.ofNat
  | digits => (natOfDigits? digits).map Int.ofNat

/-- The integer that a numeral stands for, if it fits in a signed 64-bit word. -/
def int64OfNumeral? (numeral : String) : Option Int :=
  (intOfNumeral? numeral).filter fun n =>
    -0x8000000000000000 ≤ n ∧ n < 0x8000000000000000

end BraceScript
