import ReportSql.Json.Basic

/-!
# Records in JSON

How values with fixed members are written: as an object, or as an array of the
members in their declared order. The shape of a value says which of its parts are
wanted, so that a reader of texts can pass over the others.

## Main definitions

* `Json.Shape`, `Json.Member` - what is wanted of a value and of a member
* `Json.record?` - the wanted members of a record
* `Json.required?`, `Json.optional?`, `Json.defaulted?` - typed access to one member
* `Json.choice?` - the name of one of several cases
-/

namespace ReportSql.Json

mutual

/-- What is wanted of a value. -/
inductive Shape where
  /-- All of it. -/
  | whole
  /-- The name of one of several cases. -/
  | choice
  /-- A list of values of one shape. -/
  | list (item : Shape)
  /-- Members of one shape under names that are not known before. -/
  | map (value : Shape)
  /-- Members with fixed names. -/
  | record (members : List Member)

/-- A member of a record. An optional one may be missing at the end of an array. -/
structure Member where
  name : String
  optional : Bool
  shape : Shape

end

/-- A member that no array may lack. -/
def Member.required (name : String) (shape : Shape := .whole) : Member :=
  ⟨name, false, shape⟩

/-- A member that may be missing at the end of an array. -/
def Member.omissible (name : String) (shape : Shape := .whole) : Member :=
  ⟨name, true, shape⟩

/-- The shape of a member of an object, or nothing for a member that is not wanted. -/
def Shape.member? (shape : Shape) (name : String) : Option Shape :=
  match shape with
  | record members => (members.find? (·.name == name)).map (·.shape)
  | map value => some value
  | _ => some whole

/-- The shape of an item of an array. -/
def Shape.item (shape : Shape) (index : Nat) : Shape :=
  match shape with
  | record members => (members[index]?.map (·.shape)).getD whole
  | list item => item
  | _ => whole

/-- The members of a record by name. Others are dropped, and none may be given twice. An array gives
them in order, and only optional ones may be missing at its end. -/
def record? (members : List Member) : Json → Option (List (String × Json))
  | .object given =>
    let known := given.filter fun (key, _) => members.any (·.name == key)
    if (known.map (·.1)).Nodup then some known else none
  | .array items =>
    if items.length ≤ members.length && (members.drop items.length).all (·.optional) then
      some ((members.map (·.name)).zip items)
    else
      none
  | _ => none

/-- A member that must be present. -/
def required? {α : Type} (members : List (String × Json)) (key : String)
    (read? : Json → Option α) : Option α :=
  (members.lookup key).bind read?

/-- A member that may be absent or null. -/
def optional? {α : Type} (members : List (String × Json)) (key : String)
    (read? : Json → Option α) : Option (Option α) :=
  match members.lookup key with
  | none | some .null => some none
  | some value => (read? value).map some

/-- A member that has a default when absent; null is a value like any other. -/
def defaulted? {α : Type} (members : List (String × Json)) (key : String) (default : α)
    (read? : Json → Option α) : Option α :=
  match members.lookup key with
  | none => some default
  | some value => read? value

/-- The name of a case: a text, or the name of the only member of an object, without a value. -/
def choice? : Json → Option String
  | .string name => some name
  | .object [(name, .null)] => some name
  | _ => none

end ReportSql.Json
