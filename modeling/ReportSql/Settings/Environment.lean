import ReportSql.Text.Letter

/-!
# Environment references

Configured paths may refer to variables of the environment, as a dollar sign and
a name or as a dollar sign and a name in braces. A value is inserted as it is and
not read again.

## Main definitions

* `Environment` - the variables that are set
* `Environment.expand` - a text with its references replaced
* `Environment.references` - the names that a text refers to

## Design notes

A dollar sign without a name stands for itself, and so does one with empty
braces, whose braces are dropped. An opening brace without a closing one takes
the rest of the text as the name.
-/

namespace ReportSql

/-- The variables that are set, with their values. -/
abbrev Environment := List (String × String)

namespace Environment

/-- The characters of a name without braces. -/
def isNameChar (c : Char) : Bool :=
  Text.isAlphanumeric c || c == '_'

/-- The name after a dollar sign and the text after the reference. -/
def splitName : List Char → List Char × List Char
  | '\x7b' :: rest => (rest.takeWhile (· ≠ '\x7d'), (rest.dropWhile (· ≠ '\x7d')).drop 1)
  | cs => (cs.takeWhile isNameChar, cs.dropWhile isNameChar)

/-- The text with its references replaced, in at most `fuel` steps, or the name of the first
variable that is not set. -/
def expandChars (env : Environment) : Nat → List Char → Except String (List Char)
  | 0, _ => .ok []
  | _, [] => .ok []
  | fuel + 1, c :: rest =>
    if c ≠ '$' then
      (expandChars env fuel rest).map (c :: ·)
    else
      let (name, after) := splitName rest
      if name.isEmpty then
        (expandChars env fuel after).map ('$' :: ·)
      else
        match env.lookup (String.ofList name) with
        | none => .error (String.ofList name)
        | some value => (expandChars env fuel after).map (value.toList ++ ·)

/-- The text with its references replaced, or the name of the first variable that is not set. -/
def expand (env : Environment) (s : String) : Except String String :=
  (expandChars env s.toList.length s.toList).map String.ofList

/-- The names that a text refers to, in at most `fuel` steps. -/
def referencesIn : Nat → List Char → List String
  | 0, _ => []
  | _, [] => []
  | fuel + 1, c :: rest =>
    if c ≠ '$' then referencesIn fuel rest
    else
      let (name, after) := splitName rest
      if name.isEmpty then referencesIn fuel after
      else String.ofList name :: referencesIn fuel after

/-- The names that a text refers to. -/
def references (s : String) : List String :=
  referencesIn s.toList.length s.toList

end Environment

end ReportSql
