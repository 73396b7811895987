import ReportSql.Binary64.Basic
import ReportSql.Text.Digit

/-!
# Numbers of the database

How an SQLite database turns decimal digits into a number. A real number takes the
leading digits that fit 64 bits and is then multiplied by powers of ten, every product
being rounded to 64 bits; only the last product is rounded to binary64. The result can
differ from the nearest binary64 number in its last digit.

## Main definitions

* `Sqlite.Number` - a number of the database
* `Sqlite.Numeral` - a number written in decimal digits
* `Sqlite.Numeral.real`, `Sqlite.Numeral.numeric` - its value
* `Sqlite.readNumeral` - the number at the head of a text
-/

namespace ReportSql.Sqlite

/-- The blanks around numbers and in names of parameters. -/
def isSpace (c : Char) : Bool :=
  c == ' ' || ('\t' ≤ c && c ≤ '\x0d')

/-! ## Numbers -/

/-- A number of the database: an integer of 64 bits or a real number, which is infinite beyond the
finite range of binary64. -/
inductive Number where
  | integer (value : Int)
  | real (value : Binary64)
  | infinite (negative : Bool)
deriving DecidableEq, Repr

namespace Number

/-- The least integer. -/
def leastInteger : Int := -(Nat.pow 2 63)

/-- The greatest integer. -/
def greatestInteger : Int := Nat.pow 2 63 - 1

/-- The integer nearest to another one. -/
def clamp (n : Int) : Int :=
  max leastInteger (min n greatestInteger)

/-- The difference of zero and a number. That of zero and the least integer is a real number. -/
def negated : Number → Number
  | integer n => if n = leastInteger then real (Binary64.ofNat (Nat.pow 2 63)) else integer (-n)
  | real x => if x.isZero then real { x with negative := false } else real x.neg
  | infinite negative => infinite (!negative)

/-- The integer nearest to a number without its fraction. -/
def truncated : Number → Int
  | integer n => n
  | real x =>
    let (num, den) := x.magnitude
    clamp (if x.negative then -(num / den : Nat) else (num / den : Nat))
  | infinite negative => if negative then leastInteger else greatestInteger

/-- Whether a number is zero. -/
def isZero : Number → Bool
  | integer n => n == 0
  | real x => x.isZero
  | infinite _ => false

end Number

/-! ## Extended precision -/

/-- A positive number with 64 bits of precision, `mantissa · 2 ^ exponent`. -/
structure Extended where
  mantissa : Nat
  exponent : Int
deriving DecidableEq, Repr

namespace Extended

/-- The bits of the mantissa. -/
def precision : Nat := 64

/-- An exponent below those of all numbers that matter. -/
def leastExponent : Int := -16445

/-- The number nearest to a positive quotient. -/
def ofRatio (num den : Nat) : Extended :=
  let (mantissa, exponent) := Binary64.roundRatio precision leastExponent num den
  ⟨mantissa, exponent⟩

/-- The rounded product. -/
def mul (x y : Extended) : Extended :=
  let (mantissa, exponent) := Binary64.roundRatio precision leastExponent
    (x.mantissa * y.mantissa) 1
  ⟨mantissa, exponent + x.exponent + y.exponent⟩

/-- The number nearest to a power of ten. -/
def powerOfTen (power : Int) : Extended :=
  if 0 ≤ power then ofRatio (Nat.pow 10 power.toNat) 1 else ofRatio 1 (Nat.pow 10 (-power).toNat)

/-- The number times a power of ten, by hundreds, tens and ones of the power. -/
def scale (x : Extended) (power : Int) : Extended :=
  let sign : Int := if power < 0 then -1 else 1
  let steps := power.natAbs
  let times (step : Int) (count : Nat) (x : Extended) : Extended :=
    Nat.repeat (·.mul (powerOfTen (sign * step))) count x
  times 1 (steps % 10) (times 10 (steps % 100 / 10) (times 100 (steps / 100) x))

/-- The number rounded to binary64, or nothing beyond its greatest finite number. -/
def toBinary64? (negative : Bool) (x : Extended) : Option Binary64 :=
  let (num, den) :=
    if 0 ≤ x.exponent then (x.mantissa * Nat.pow 2 x.exponent.toNat, 1)
    else (x.mantissa, Nat.pow 2 (-x.exponent).toNat)
  if (Nat.pow 2 53 - 1) * Nat.pow 2 Binary64.greatestExponent.toNat * den < num then none
  else Binary64.ofRatio? negative num den

end Extended

/-! ## Numerals -/

/-- A number written in decimal digits. -/
structure Numeral where
  negative : Bool
  whole : List Char
  hasPoint : Bool
  fraction : List Char
  exponent : Option Int
deriving DecidableEq, Repr

/-- The bound below which a significand takes a further digit. -/
def significandBound : Nat := (Nat.pow 2 64 - 10) / 10

/-- Appends digits to a significand up to its bound; gives the number of those left out. -/
def takeWhole : Nat → List Char → Nat × Nat
  | significand, [] => (significand, 0)
  | significand, c :: rest =>
    let next := significand * 10 + Text.valueOf 10 [c]
    if significandBound ≤ next then (next, rest.length) else takeWhole next rest

/-- Appends digits to a significand up to its bound; gives the number of those taken. -/
def takeFraction : Nat → List Char → Nat × Nat
  | significand, [] => (significand, 0)
  | significand, c :: rest =>
    if significand < significandBound then
      let (value, taken) := takeFraction (significand * 10 + Text.valueOf 10 [c]) rest
      (value, taken + 1)
    else (significand, 0)

/-- Moves tens of a positive power into the significand as long as they fit 64 bits, or tens of the
significand into a negative power, at most `fuel` of them. -/
def balance : Nat → Nat → Int → Nat × Int
  | 0, significand, power => (significand, power)
  | fuel + 1, significand, power =>
    if 0 < power ∧ significand < (Nat.pow 2 64 - 1) / 10 then
      balance fuel (significand * 10) (power - 1)
    else if power < 0 ∧ significand % 10 = 0 then
      balance fuel (significand / 10) (power + 1)
    else (significand, power)

namespace Numeral

/-- The value as a real number. -/
def real (n : Numeral) : Number :=
  let (significand, left) := takeWhole 0 n.whole
  let (significand, taken) := takeFraction significand n.fraction
  let value? :=
    if significand = 0 then Binary64.ofRatio? n.negative 0 1
    else
      let (significand, power) := balance 20 significand (n.exponent.getD 0 + left - taken)
      if power = 0 then Binary64.ofRatio? n.negative significand 1
      else ((Extended.ofRatio significand 1).scale power).toBinary64? n.negative
  match value? with
  | some x => .real x
  | none => .infinite n.negative

/-- The number that the digits before the point write. -/
def wholePart (n : Numeral) : Int :=
  let magnitude : Int := Text.valueOf 10 n.whole
  if n.negative then -magnitude else magnitude

/-- The value as an integer; what does not fit 64 bits becomes a real number. -/
def integer (n : Numeral) : Number :=
  if Number.clamp n.wholePart = n.wholePart then .integer n.wholePart else n.real

/-- The value: a real number if there is a point or an exponent. -/
def numeric (n : Numeral) : Number :=
  if n.hasPoint || n.exponent.isSome then n.real else n.integer

end Numeral

/-- The value of the digits of an exponent; one of more than five digits is cut. -/
def exponentOf (digits : List Char) : Nat :=
  digits.foldl (fun e c => if e < 10000 then e * 10 + Text.valueOf 10 [c] else 10000) 0

/-- The exponent at the head of a text, if there is one with digits. -/
def readExponent? (cs : List Char) : Option Int :=
  let signed (negative : Bool) (digits : List Char) : Option Int :=
    match digits.takeWhile Char.isDigit with
    | [] => none
    | digits => some (if negative then -exponentOf digits else exponentOf digits)
  match cs with
  | e :: tail =>
    if e = 'e' || e = 'E' then
      match tail with
      | '-' :: digits => signed true digits
      | '+' :: digits => signed false digits
      | digits => signed false digits
    else none
  | [] => none

/-- The number at the head of a text after blanks. Text that starts with no number gives zero. -/
def readNumeral (cs : List Char) : Numeral :=
  let (negative, cs) := match cs.dropWhile isSpace with
    | '-' :: rest => (true, rest)
    | '+' :: rest => (false, rest)
    | rest => (false, rest)
  let whole := cs.takeWhile Char.isDigit
  let (hasPoint, fraction, rest) := match cs.dropWhile Char.isDigit with
    | '.' :: tail => (true, tail.takeWhile Char.isDigit, tail.dropWhile Char.isDigit)
    | rest => (false, [], rest)
  if whole.isEmpty && fraction.isEmpty then ⟨false, [], false, [], none⟩
  else ⟨negative, whole, hasPoint, fraction, readExponent? rest⟩

end ReportSql.Sqlite
