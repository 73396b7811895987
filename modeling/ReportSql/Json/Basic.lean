import ReportSql.Binary64.Basic
import ReportSql.NameMap

/-!
# JSON values

The values of the data format in which requests, definitions and cached results
are written. Members of an object keep their order and their repetitions, so that
a reader of a record can refuse a member that is given twice.

## Main definitions

* `Json` - a value
* `Json.sorted` - the same value with every object's members in key order
* `Json.string?`, `Json.bool?`, `Json.word?`, `Json.listOf?` - typed access to a value
-/

namespace ReportSql

/-- A JSON value. Integers between `-2^63` and `2^64 - 1` are exact; every other number is a
binary64 number. -/
inductive Json where
  | null
  | bool (value : Bool)
  | integer (value : Int)
  | real (value : Binary64)
  | string (text : String)
  | array (items : List Json)
  | object (members : List (String × Json))
deriving Repr, Inhabited

namespace Json

mutual

/-- The same value with the members of every object in key order, the last of equal keys kept. -/
def sorted : Json → Json
  | .array items => .array (sortedItems items)
  | .object members => .object (sortedMembers members [])
  | value => value

/-- Sorts inside every item. -/
def sortedItems : List Json → List Json
  | [] => []
  | item :: rest => item.sorted :: sortedItems rest

/-- Sorts inside every member and adds it to the members collected so far. -/
def sortedMembers : List (String × Json) → List (String × Json) → List (String × Json)
  | [], done => done
  | (key, value) :: rest, done => sortedMembers rest (NameMap.insertEntry key value.sorted done)

end

/-- The value of the last member with the given key. -/
def get? (key : String) : Json → Option Json
  | .object members => (members.reverse.find? (·.1 = key)).map (·.2)
  | _ => none

/-- The value as a text. -/
def string? : Json → Option String
  | .string text => some text
  | _ => none

/-- The value as a truth value. -/
def bool? : Json → Option Bool
  | .bool value => some value
  | _ => none

/-- The value as an unsigned 64-bit integer. -/
def word? : Json → Option UInt64
  | .integer n => if 0 ≤ n ∧ n < Nat.pow 2 64 then some (UInt64.ofNat n.toNat) else none
  | _ => none

/-- The value as a list, each item read in turn. -/
def listOf? {α : Type} (item? : Json → Option α) : Json → Option (List α)
  | .array items => items.mapM item?
  | _ => none

end Json

end ReportSql
