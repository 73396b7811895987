import ReportSql.Json.Record

/-!
# TOML values

The values of a configuration document. A reader of settings takes them as JSON, where
what it wants of a value decides which numbers must be in range, how many items of an
array count, and where the name of a case may stand.

## Main definitions

* `Toml.Value` - a value
* `Toml.Value.toJson?` - the value in JSON

## Design notes

A date or time has no counterpart in JSON; it becomes a record with one member, which
no setting accepts.
-/

namespace ReportSql.Toml

/-- A value of a document. -/
inductive Value where
  | bool (value : Bool)
  | integer (value : Int)
  /-- A float; one beyond the finite range has no value. -/
  | float (value : Option Binary64)
  | string (text : String)
  | dateTime (text : String)
  | array (items : List Value)
  | table (members : List (String × Value))

namespace Value

/-- An integer in JSON. It may have up to 128 bits, with a sign or without one. -/
def integerJson? (n : Int) : Option Json :=
  if -(Nat.pow 2 63) ≤ n ∧ n < Nat.pow 2 64 then
    some (.integer n)
  else if -(Nat.pow 2 127) ≤ n ∧ n < Nat.pow 2 128 then
    let magnitude := Binary64.ofNat n.natAbs
    some (.real (if n < 0 then magnitude.neg else magnitude))
  else
    none

/-- The name of a case: a text, or the name of the only member of a table, whose value is empty. -/
def choiceJson? : Value → Option Json
  | string name => some (.string name)
  | table [(name, table [])] | table [(name, array [])] => some (.object [(name, .null)])
  | _ => none

mutual

/-- The value in JSON, as far as a shape wants it. Numbers must be in range, save in the surplus
items of an array that gives the members of a record. -/
def toJson? (shape : Json.Shape) : Value → Option Json
  | bool value => some (.bool value)
  | integer value => integerJson? value
  | float value => value.map .real
  | string text => some (.string text)
  | dateTime text => some (.object [("datetime", .string text)])
  | array items =>
    match shape with
    | .choice => choiceJson? (.array items)
    | .record members => (itemsToJson? shape 0 (some members.length) items).map .array
    | _ => (itemsToJson? shape 0 none items).map .array
  | table members =>
    match shape with
    | .choice => choiceJson? (.table members)
    | _ => (membersToJson? shape members).map .object

/-- The items of an array from an index on, up to a limit if there is one. -/
def itemsToJson? (shape : Json.Shape) (index : Nat) (limit : Option Nat) :
    List Value → Option (List Json)
  | [] => some []
  | item :: rest =>
    if limit.any (· ≤ index) then some []
    else
      match item.toJson? (shape.item index), itemsToJson? shape (index + 1) limit rest with
      | some item, some rest => some (item :: rest)
      | _, _ => none

/-- The members of a table. One that is not wanted must still be in range. -/
def membersToJson? (shape : Json.Shape) : List (String × Value) → Option (List (String × Json))
  | [] => some []
  | (key, value) :: rest =>
    match value.toJson? ((shape.member? key).getD .whole), membersToJson? shape rest with
    | some value, some rest => some ((key, value) :: rest)
    | _, _ => none

end

end Value

end ReportSql.Toml
