import ReportSql.Binary64.Shortest
import ReportSql.Json.Parser
import ReportSql.NameMap

/-!
# Report parameters

The values that requests supply and queries bind, with two texts of a value: a
canonical one for people, and a key form that tells apart all values that bind
differently.

## Main definitions

* `ParamValue` - a value
* `ParamValue.canonical` - its plain text
* `ParamValue.keyForm` - its text inside cache keys
* `Params` - values by name, and `Params.merge`, requests over defaults
-/

namespace ReportSql

/-- The value of a parameter. Integers lie in the signed 64-bit range. -/
inductive ParamValue where
  | null
  | bool (value : Bool)
  | int (value : Int)
  | float (value : Binary64)
  | text (value : String)
  | list (items : List ParamValue)
deriving Repr, Inhabited

namespace ParamValue

/-- Null, the empty text and the empty list count as no value. -/
def isEmpty : ParamValue → Bool
  | null => true
  | text value => value.isEmpty
  | list items => items.isEmpty
  | _ => false

/-- Whether the value is a list. -/
def isList : ParamValue → Bool
  | list _ => true
  | _ => false

/-- The value as an integer. -/
def int? : ParamValue → Option Int
  | int value => some value
  | _ => none

/-- The value of an unsigned 64-bit number: an integer where it fits, else the nearest float. -/
def ofWord (n : UInt64) : ParamValue :=
  if n.toNat < Nat.pow 2 63 then int n.toNat else float (Binary64.ofNat n.toNat)

mutual

/-- The plain text: truth values as digits, floats in their canonical text, lists with commas. -/
def canonical : ParamValue → String
  | null => ""
  | bool true => "1"
  | bool false => "0"
  | int value => toString value
  | float value => value.text
  | text value => value
  | list items => ",".intercalate (canonicalItems items)

/-- The plain texts of the items of a list. -/
def canonicalItems : List ParamValue → List String
  | [] => []
  | item :: rest => item.canonical :: canonicalItems rest

end

/-- The characters that are escaped in the key form of a text. -/
def isKeyMark (c : Char) : Bool :=
  c == '\\' || c == ',' || c == '[' || c == ']'

/-- A text in which every mark of the key form follows a backslash. -/
def escapeKey (s : String) : String :=
  String.ofList (s.toList.flatMap fun c => if isKeyMark c then ['\\', c] else [c])

mutual

/-- The text inside cache keys: a letter for the kind of value, then its plain text. Texts are
escaped, so that the items of a list cannot run together. -/
def keyForm : ParamValue → String
  | null => "n:"
  | bool value => "b:" ++ (bool value).canonical
  | int value => "i:" ++ toString value
  | float value => "f:" ++ value.text
  | text value => "s:" ++ escapeKey value
  | list items => "l:[" ++ ",".intercalate (keyForms items) ++ "]"

/-- The key forms of the items of a list. -/
def keyForms : List ParamValue → List String
  | [] => []
  | item :: rest => item.keyForm :: keyForms rest

end

mutual

/-- The value written in JSON; an object is no value. An integer beyond the signed range becomes a
float. -/
def ofJson? : Json → Option ParamValue
  | .null => some null
  | .bool value => some (bool value)
  | .integer value =>
    if value < Nat.pow 2 63 then some (int value) else some (float (Binary64.ofNat value.toNat))
  | .real value => some (float value)
  | .string value => some (text value)
  | .array items => (ofJsonItems? items).map list
  | .object _ => none

/-- The values written by the items of an array. -/
def ofJsonItems? : List Json → Option (List ParamValue)
  | [] => some []
  | item :: rest =>
    match ofJson? item, ofJsonItems? rest with
    | some value, some values => some (value :: values)
    | _, _ => none

end

mutual

/-- The value in JSON. -/
def toJson : ParamValue → Json
  | null => .null
  | bool value => .bool value
  | int value => .integer value
  | float value => .real value
  | text value => .string value
  | list items => .array (toJsonItems items)

/-- The items of a list in JSON. -/
def toJsonItems : List ParamValue → List Json
  | [] => []
  | item :: rest => item.toJson :: toJsonItems rest

end

end ParamValue

/-- Values by name. -/
abbrev Params := NameMap ParamValue

namespace Params

/-- The values of a request over default values. -/
def merge (defaults request : Params) : Params :=
  defaults.insertAll request.entries

/-- The values written by a JSON object; of equal names the last one counts. -/
def ofJson? : Json → Option Params
  | .object members => do
    let entries ← members.mapM fun (name, value) =>
      (ParamValue.ofJson? value).map fun value => (name, value)
    some (NameMap.ofList entries)
  | _ => none

/-- The values written by a text. -/
def parse? (text : String) : Option Params :=
  (Json.parse? text).bind ofJson?

/-- The values as a JSON object. -/
def toJson (params : Params) : Json :=
  .object (params.entries.map fun (name, value) => (name, value.toJson))

end Params

end ReportSql
