/-!
# Digits

The values of decimal and hexadecimal digits, and the numbers that they write.

## Main definitions

* `Text.hexValue?` - the value of a hexadecimal digit
* `Text.valueOf` - the number written by digits in a base of at most sixteen
* `Text.digitsOfNat` - the digits of a number, in lower case
-/

namespace ReportSql.Text

/-- The value of a hexadecimal digit. -/
def hexValue? (c : Char) : Option Nat :=
  if c.isDigit then some (c.toNat - '0'.toNat)
  else if 'a' ≤ c ∧ c ≤ 'f' then some (c.toNat - 'a'.toNat + 10)
  else if 'A' ≤ c ∧ c ≤ 'F' then some (c.toNat - 'A'.toNat + 10)
  else none

/-- Whether a character is a hexadecimal digit. -/
def isHexDigit (c : Char) : Bool :=
  (hexValue? c).isSome

/-- The number written by digits in a base; other characters count as zero. -/
def valueOf (base : Nat) (digits : List Char) : Nat :=
  digits.foldl (fun n c => n * base + (hexValue? c).getD 0) 0

/-- The digits of a number in a base of at most sixteen, without leading zeros. -/
def digitsOfNat (base n : Nat) : List Char :=
  Nat.toDigits base n

end ReportSql.Text
