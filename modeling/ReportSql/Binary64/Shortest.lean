import ReportSql.Binary64.Basic

/-!
# Shortest decimal text

A binary64 number is printed with the fewest significant digits that read back as
the same number; among those the nearest decimal is taken, and an exact tie goes
to the even last digit.

## Main definitions

* `Binary64.Interval` - the reals that round to a given number
* `Binary64.shortestDigits` - the digits and the power of ten of the printed decimal
* `Binary64.layout` - the characters of a decimal
* `Binary64.textWith` - the text, with a mark before a positive exponent
* `Binary64.text` - the canonical text

## Design notes

For one digit, two digits and so on, only the two neighbours of the number on
that decimal grid have to be tested: if any point of a grid reads back, one of
these two does.
-/

namespace ReportSql.Binary64

/-- The reals that round to a number, as multiples of the quotient `num / den`;
the ends belong to it when `closed` holds. -/
structure Interval where
  num : Nat
  den : Nat
  low : Nat
  mid : Nat
  high : Nat
  closed : Bool

/-- The rounding interval of a positive number, in quarters of its last binary place. Below a
power of two the neighbour is only half as far away. -/
def interval (x : Binary64) : Interval :=
  let quarter := x.exponent - 2
  let num := if 0 ≤ quarter then Nat.pow 2 quarter.toNat else 1
  let den := if 0 ≤ quarter then 1 else Nat.pow 2 (-quarter).toNat
  let below := if x.mantissa = Nat.pow 2 52 ∧ leastExponent < x.exponent then 1 else 2
  { num, den
    low := 4 * x.mantissa - below
    mid := 4 * x.mantissa
    high := 4 * x.mantissa + 2
    closed := x.mantissa % 2 == 0 }

/-- The decimal `digits · 10 ^ power` as a quotient. -/
def decimalRatio (digits : Nat) (power : Int) : Nat × Nat :=
  if 0 ≤ power then (digits * Nat.pow 10 power.toNat, 1) else (digits, Nat.pow 10 (-power).toNat)

/-- A decimal reads back as the number when it lies in the rounding interval. -/
def Interval.contains (i : Interval) (digits : Nat) (power : Int) : Bool :=
  let (n, d) := decimalRatio digits power
  let here := n * i.den
  let low := i.low * i.num * d
  let high := i.high * i.num * d
  if i.closed then low ≤ here && here ≤ high else low < here && here < high

/-- The best of the two neighbours `floor` and `floor + 1` on one decimal grid that reads back. -/
def Interval.best? (i : Interval) (floor : Nat) (power : Int) : Option Nat :=
  match i.contains floor power, i.contains (floor + 1) power with
  | false, false => none
  | true, false => some floor
  | false, true => some (floor + 1)
  | true, true =>
    -- twice the number against the sum of the two neighbours
    let (n, d) := decimalRatio (2 * floor + 1) power
    let twice := 2 * i.mid * i.num * d
    let both := n * i.den
    if twice < both then some floor
    else if both < twice then some (floor + 1)
    else if floor % 2 = 0 then some floor
    else some (floor + 1)

/-- How many places the first significant digit of a positive quotient stands left of the point
(`123` has `3`, `0.05` has `-1`). -/
def pointPosition (num den : Nat) : Int :=
  if den ≤ num then (Nat.toDigits 10 (num / den)).length
  else 1 - ((Nat.toDigits 10 (den / num)).length : Int)

/-- Trailing zeros of the digits move into the power of ten; at most `fuel` of them. -/
def stripZeros : Nat → Nat → Int → Nat × Int
  | 0, digits, power => (digits, power)
  | fuel + 1, digits, power =>
    if digits ≠ 0 ∧ digits % 10 = 0 then stripZeros fuel (digits / 10) (power + 1)
    else (digits, power)

/-- The greatest whole number that is at most `num / den / 10 ^ power`. -/
def gridFloor (num den : Nat) (power : Int) : Nat :=
  if 0 ≤ power then num / (den * Nat.pow 10 power.toNat) else num * Nat.pow 10 (-power).toNat / den

/-- A decimal of at most `count` digits that reads back as a positive number, if there is one. -/
def onGrid? (x : Binary64) (count : Nat) : Option (Nat × Int) :=
  let (num, den) := x.magnitude
  let power := pointPosition num den - count
  (x.interval.best? (gridFloor num den power) power).map fun digits => (digits, power)

/-- The fewest digits that read back, with their power of ten. Seventeen digits always do. -/
def shortestDigits (x : Binary64) : Nat × Int :=
  match (List.range 17).findSome? fun n => x.onGrid? (n + 1) with
  | some (digits, power) => stripZeros 20 digits power
  | none => (x.mantissa, x.exponent)

/-- The characters of the decimal `value · 10 ^ power`, with a mark before a positive exponent. The
decimal point is written positionally when it falls between four places before the first digit and
sixteen places after it, with at least one digit on both sides; otherwise an exponent follows one
leading digit. -/
def layout (plus : String) (value : Nat) (power : Int) : List Char :=
  let digits := Nat.toDigits 10 value
  let count := digits.length
  let point : Int := count + power
  if 0 ≤ power && point ≤ 16 then
    digits ++ List.replicate power.toNat '0' ++ ['.', '0']
  else if 0 < point && point ≤ 16 then
    digits.take point.toNat ++ '.' :: digits.drop point.toNat
  else if -5 < point && point ≤ 0 then
    '0' :: '.' :: List.replicate (-point).toNat '0' ++ digits
  else
    let mark := if 0 < point then plus else ""
    let exponent := (mark ++ toString (point - 1)).toList
    match digits with
    | [digit] => digit :: 'e' :: exponent
    | digit :: rest => digit :: '.' :: rest ++ 'e' :: exponent
    | [] => []

/-- The characters of the magnitude, with a mark before a positive exponent. -/
def magnitudeText (plus : String) (x : Binary64) : List Char :=
  if x.isZero then ['0', '.', '0'] else layout plus x.shortestDigits.1 x.shortestDigits.2

/-- The text with a mark before a positive exponent. -/
def textWith (plus : String) (x : Binary64) : String :=
  (if x.negative then "-" else "") ++ String.ofList (x.magnitudeText plus)

/-- The canonical text, without a mark before a positive exponent. -/
def text (x : Binary64) : String :=
  x.textWith ""

end ReportSql.Binary64
