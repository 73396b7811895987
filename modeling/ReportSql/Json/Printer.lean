import ReportSql.Binary64.Shortest
import ReportSql.Json.Basic

/-!
# Writing JSON

Two layouts: compact, without any blank, and indented, with two spaces for each
level. Only quotes, backslashes and control characters are escaped; every other
character stands for itself. A number that is no integer has the fewest digits that
read back, and a positive exponent has its sign.

## Main definitions

* `Json.quote` - a text as a JSON string
* `Json.compact` - the compact layout
* `Json.indented` - the indented layout
-/

namespace ReportSql.Json

/-- A lower-case hexadecimal digit. -/
def hexDigit (n : Nat) : Char :=
  Nat.digitChar (n % 16)

/-- A character as it stands in a string. -/
def escape (c : Char) : List Char :=
  if c = '"' then ['\\', '"']
  else if c = '\\' then ['\\', '\\']
  else if c = '\x08' then ['\\', 'b']
  else if c = '\t' then ['\\', 't']
  else if c = '\n' then ['\\', 'n']
  else if c = '\x0c' then ['\\', 'f']
  else if c = '\r' then ['\\', 'r']
  else if c.toNat < 0x20 then
    ['\\', 'u', '0', '0', hexDigit (c.toNat / 16), hexDigit c.toNat]
  else [c]

/-- A text as a JSON string. -/
def quote (s : String) : String :=
  String.ofList ('"' :: s.toList.flatMap escape ++ ['"'])

/-- The opening bracket of an object. -/
def openBrace : String := "\x7b"

/-- The closing bracket of an object. -/
def closeBrace : String := "\x7d"

mutual

/-- The compact layout. -/
def compact : Json → String
  | .null => "null"
  | .bool true => "true"
  | .bool false => "false"
  | .integer n => toString n
  | .real x => x.textWith "+"
  | .string s => quote s
  | .array items => "[" ++ ",".intercalate (compactItems items) ++ "]"
  | .object members => openBrace ++ ",".intercalate (compactMembers members) ++ closeBrace

/-- The items in compact layout. -/
def compactItems : List Json → List String
  | [] => []
  | item :: rest => item.compact :: compactItems rest

/-- The members in compact layout. -/
def compactMembers : List (String × Json) → List String
  | [] => []
  | (key, value) :: rest => (quote key ++ ":" ++ value.compact) :: compactMembers rest

end

/-- A line break and the indentation of a level. -/
def newline (level : Nat) : String :=
  "\n" ++ String.ofList (List.replicate (2 * level) ' ')

mutual

/-- The indented layout at a level; empty containers stay on one line. -/
def indentedAt (level : Nat) : Json → String
  | .array [] => "[]"
  | .array (item :: rest) =>
    "[" ++ newline (level + 1) ++
      ("," ++ newline (level + 1)).intercalate (indentedItems (level + 1) (item :: rest)) ++
      newline level ++ "]"
  | .object [] => openBrace ++ closeBrace
  | .object (member :: rest) =>
    openBrace ++ newline (level + 1) ++
      ("," ++ newline (level + 1)).intercalate (indentedMembers (level + 1) (member :: rest)) ++
      newline level ++ closeBrace
  | value => value.compact

/-- The items in indented layout. -/
def indentedItems (level : Nat) : List Json → List String
  | [] => []
  | item :: rest => indentedAt level item :: indentedItems level rest

/-- The members in indented layout. -/
def indentedMembers (level : Nat) : List (String × Json) → List String
  | [] => []
  | (key, value) :: rest =>
    (quote key ++ ": " ++ indentedAt level value) :: indentedMembers level rest

end

/-- The indented layout. -/
def indented (value : Json) : String :=
  indentedAt 0 value

end ReportSql.Json
