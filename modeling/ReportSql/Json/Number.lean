import ReportSql.Json.Basic
import ReportSql.Text.Digit

/-!
# JSON numbers

A number without fraction and exponent stays exact as long as it fits 64 bits.
Any other number is read in two rounding steps: the leading digits that fit
64 bits become a binary64 number, which is then multiplied or divided by a
binary64 power of ten.

## Main definitions

* `Json.scaled?` - a significand times a power of ten, with the two rounding steps
* `Json.Literal` - a number as it is written, and `Json.Literal.value?`, its value
* `Json.readNumber?` - the number at the head of a text and what follows it
-/

namespace ReportSql.Json

/-- The greatest significand that is kept digit by digit. -/
def greatestWord : Nat := Nat.pow 2 64 - 1

/-- The greatest power of ten that is applied in one step. -/
def greatestStep : Nat := 308

/-- The binary64 number nearest to a power of ten of at most `greatestStep`. -/
def powerOfTen (n : Nat) : Binary64 :=
  Binary64.ofNat (Nat.pow 10 n)

/-- Divides by the greatest power of ten until the rest of the power is small enough; zero stays
zero. The number of steps that can matter is bounded by `fuel`. -/
def shrink : Nat → Binary64 → Nat → Option Binary64
  | 0, x, _ => some x
  | fuel + 1, x, power =>
    if power ≤ greatestStep then x.div? (powerOfTen power)
    else if x.isZero then some x
    else (x.div? (powerOfTen greatestStep)).bind fun y => shrink fuel y (power - greatestStep)

/-- The significand times `10 ^ power`, or nothing beyond the finite range. -/
def scaled? (negative : Bool) (significand : Nat) (power : Int) : Option Binary64 :=
  let x := Binary64.ofNat significand
  let magnitude :=
    if power < 0 then shrink 8 x (-power).toNat
    else if power ≤ greatestStep then x.mul? (powerOfTen power.toNat)
    else if x.isZero then some x
    else none
  magnitude.map fun y => if negative then y.neg else y

/-- Appends digits to a significand while it fits 64 bits; gives the significand, how many digits
were taken and the digits left out. -/
def takeDigits : Nat → List Char → Nat × Nat × List Char
  | significand, [] => (significand, 0, [])
  | significand, c :: rest =>
    let next := significand * 10 + Text.valueOf 10 [c]
    if next ≤ greatestWord then
      let (value, taken, left) := takeDigits next rest
      (value, taken + 1, left)
    else
      (significand, 0, c :: rest)

/-- Whether the sign of an exponent is a minus sign, and the text after the sign. -/
def readExponentSign : List Char → Bool × List Char
  | '+' :: rest => (false, rest)
  | '-' :: rest => (true, rest)
  | cs => (false, cs)

/-- The exponent after its letter: an optional sign and at least one digit. -/
def readExponent? (cs : List Char) : Option (Int × List Char) :=
  let (negative, cs) := readExponentSign cs
  let digits := cs.takeWhile Char.isDigit
  if digits.isEmpty then none
  else
    let value : Int := Text.valueOf 10 digits
    some (if negative then -value else value, cs.dropWhile Char.isDigit)

/-- A number as it is written. Without a point there are no digits in the fraction. -/
structure Literal where
  negative : Bool
  whole : List Char
  fraction : List Char
  exponent : Option Int

/-- Whether a minus sign comes first, and the text after it. -/
def readSign : List Char → Bool × List Char
  | '-' :: rest => (true, rest)
  | cs => (false, cs)

/-- The digits before a point and the text after them. A leading zero stands alone. -/
def readWhole? (cs : List Char) : Option (List Char × List Char) :=
  let whole := cs.takeWhile Char.isDigit
  if whole.isEmpty || (whole.head? == some '0' && 1 < whole.length) then none
  else some (whole, cs.dropWhile Char.isDigit)

/-- The digits after a point, if there is one, and the text after them. There is at least one digit. -/
def readFraction? : List Char → Option (List Char × List Char)
  | '.' :: tail =>
    let fraction := tail.takeWhile Char.isDigit
    if fraction.isEmpty then none else some (fraction, tail.dropWhile Char.isDigit)
  | cs => some ([], cs)

/-- The exponent and its letter, if there is one, and the text after it. -/
def readPower? : List Char → Option (Option Int × List Char)
  | 'e' :: tail | 'E' :: tail => (readExponent? tail).map fun (exponent, rest) => (some exponent, rest)
  | cs => some (none, cs)

/-- The number written at the head of a text and the text after it. -/
def readLiteral? (cs : List Char) : Option (Literal × List Char) := do
  let (negative, cs) := readSign cs
  let (whole, rest) ← readWhole? cs
  let (fraction, rest) ← readFraction? rest
  let (exponent, rest) ← readPower? rest
  some (⟨negative, whole, fraction, exponent⟩, rest)

/-- The value of a number, or nothing beyond the finite range. The digits of the fraction are
appended to the significand as long as it fits 64 bits. -/
def Literal.value? (l : Literal) : Option Json :=
  let (significand, _, left) := takeDigits 0 l.whole
  if l.fraction.isEmpty && l.exponent.isNone && left.isEmpty then
    if !l.negative then some (.integer significand)
    else if 0 < significand ∧ significand ≤ Nat.pow 2 63 then some (.integer (-significand))
    else some (.real (Binary64.ofNat significand).neg)
  else
    let (significand, taken, _) := takeDigits significand l.fraction
    (scaled? l.negative significand ((left.length : Int) - taken + l.exponent.getD 0)).map .real

/-- The value of the number at the head of a text, and the text after it. -/
def readNumber? (cs : List Char) : Option (Json × List Char) := do
  let (literal, rest) ← readLiteral? cs
  let value ← literal.value?
  some (value, rest)

end ReportSql.Json
