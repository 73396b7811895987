import ReportSql.Json.Basic
import ReportSql.Report.Param
import ReportSql.Sqlite.Numeral

/-!
# Values of the database

The values that an SQLite database computes with. Operators take a text or a blob for
the number at its head, and every operator but the tests for null has null for null.

## Main definitions

* `Sqlite.Datum` - a value
* `Sqlite.Datum.negated`, `Sqlite.Datum.complement`, `Sqlite.Datum.denied` - the operators
  that stand before a value
* `Sqlite.Datum.toJson` - a value as a query gives it

## Design notes

A real number beyond the finite range has no counterpart in JSON and is given as null, but
it is not the null of the database.
-/

namespace ReportSql.Sqlite

/-- A value of the database. -/
inductive Datum where
  | null
  | number (value : Number)
  | text (content : String)
  | blob (bytes : List Nat)
deriving DecidableEq, Repr

namespace Datum

/-- An integer. -/
def integer (n : Int) : Datum := .number (.integer n)

/-- The values for yes and no. -/
def ofBool (b : Bool) : Datum :=
  integer (if b then 1 else 0)

/-- The value of a parameter. A list has none. -/
def ofParam? : ParamValue → Option Datum
  | .null => some null
  | .bool value => some (ofBool value)
  | .int value => some (integer value)
  | .float value => some (number (.real value))
  | .text content => some (text content)
  | .list _ => none

/-- The value as a query gives it. -/
def toJson : Datum → Json
  | null | number (.infinite _) => .null
  | number (.integer n) => .integer n
  | number (.real x) => .real x
  | text content => .string content
  | blob bytes => .array (bytes.map fun (byte : Nat) => .integer byte)

/-- The number at the head of a text or of bytes. -/
def numeral? : Datum → Option Numeral
  | text content => some (readNumeral content.toList)
  | blob bytes => some (readNumeral (bytes.map Char.ofNat))
  | null | number _ => none

/-- The number that a value counts as. -/
def number? (d : Datum) : Option Number :=
  match d with
  | number n => some n
  | d => d.numeral?.map Numeral.numeric

/-- The integer that a value counts as. -/
def integer? (d : Datum) : Option Int :=
  match d with
  | number n => some n.truncated
  | d => d.numeral?.map fun n => Number.clamp n.wholePart

/-- The difference of zero and a value. -/
def negated (d : Datum) : Datum :=
  match d.number? with
  | some n => number n.negated
  | none => null

/-- The integer of the opposite bits. -/
def complement (d : Datum) : Datum :=
  match d.integer? with
  | some n => integer (-n - 1)
  | none => null

/-- Whether a value counts as zero. -/
def denied (d : Datum) : Datum :=
  match d.number? with
  | some n => ofBool n.isZero
  | none => null

end Datum

end ReportSql.Sqlite
