import ReportSql.Json.Number
import ReportSql.Json.Record
import ReportSql.Text.Digit

/-!
# Reading JSON

A total reader of JSON texts. Containers may be nested up to a fixed depth, control
characters must be escaped inside strings, and escapes of surrogates must come in
pairs. The value of a member that is not wanted only has to be well formed: it may
be nested to any depth, its numbers may be of any size, and its escapes need not come
in pairs.

## Main definitions

* `Json.parseAs?` - the wanted parts of the value written by a whole text
* `Json.parse?` - the whole value
* `Json.skipValue?` - the text after a value that is not wanted

## Design notes

The readers of nested values take a bound on the number of steps. Every step
consumes a character or passes from a container to its first item, so twice the
length of the text is enough, and `parseAs?` supplies it.
-/

namespace ReportSql.Json

/-- The blanks that may stand between the parts of a value. -/
def isSpace (c : Char) : Bool :=
  c == ' ' || c == '\t' || c == '\n' || c == '\r'

/-- The text without leading blanks. -/
def skipSpace (cs : List Char) : List Char :=
  cs.dropWhile isSpace

/-- Four hexadecimal digits. -/
def readUnit? : List Char → Option (Nat × List Char)
  | a :: b :: c :: d :: rest =>
    let digits := [a, b, c, d]
    if digits.all Text.isHexDigit then some (Text.valueOf 16 digits, rest) else none
  | _ => none

/-- A character escaped by its 16-bit unit, or by two units when the first one is the leading half
of a pair. -/
def readUnicodeEscape? (cs : List Char) : Option (Char × List Char) := do
  let (unit, rest) ← readUnit? cs
  if 0xDC00 ≤ unit ∧ unit ≤ 0xDFFF then
    none
  else if 0xD800 ≤ unit ∧ unit ≤ 0xDBFF then
    match rest with
    | '\\' :: 'u' :: tail =>
      let (second, rest) ← readUnit? tail
      if 0xDC00 ≤ second ∧ second ≤ 0xDFFF then
        some (Char.ofNat (0x10000 + (unit - 0xD800) * 0x400 + (second - 0xDC00)), rest)
      else
        none
    | _ => none
  else
    some (Char.ofNat unit, rest)

/-- The one-letter escapes. -/
def escapedChar? : Char → Option Char
  | '"' => some '"'
  | '\\' => some '\\'
  | '/' => some '/'
  | 'b' => some '\x08'
  | 'f' => some '\x0c'
  | 'n' => some '\n'
  | 'r' => some '\r'
  | 't' => some '\t'
  | _ => none

/-- The content of a string after its opening quote, in at most `fuel` characters, and the text
after its closing quote. -/
def readString? : Nat → List Char → List Char → Option (String × List Char)
  | 0, _, _ => none
  | _, _, [] => none
  | fuel + 1, done, c :: rest =>
    if c = '"' then
      some (String.ofList done.reverse, rest)
    else if c = '\\' then
      match rest with
      | 'u' :: tail => do
        let (decoded, rest) ← readUnicodeEscape? tail
        readString? fuel (decoded :: done) rest
      | e :: tail => do
        let decoded ← escapedChar? e
        readString? fuel (decoded :: done) tail
      | [] => none
    else if c.toNat < 0x20 then
      none
    else
      readString? fuel (c :: done) rest

/-! ## Values that are not wanted -/

/-- The text after a string after its opening quote, in at most `fuel` characters. -/
def skipString? : Nat → List Char → Option (List Char)
  | 0, _ => none
  | _, [] => none
  | fuel + 1, c :: rest =>
    if c = '"' then
      some rest
    else if c = '\\' then
      match rest with
      | 'u' :: tail => (readUnit? tail).bind fun (_, rest) => skipString? fuel rest
      | e :: tail => (escapedChar? e).bind fun _ => skipString? fuel tail
      | [] => none
    else if c.toNat < 0x20 then
      none
    else
      skipString? fuel rest

/-- The text after a key and its colon. -/
def skipKey? (cs : List Char) : Option (List Char) :=
  match skipSpace cs with
  | '"' :: rest =>
    (skipString? (rest.length + 1) rest).bind fun rest =>
      match skipSpace rest with
      | ':' :: rest => some rest
      | _ => none
  | _ => none

/-- The kinds of containers. -/
inductive Container where
  | array
  | object
deriving DecidableEq, Repr

mutual

/-- The text after a value and the containers around it, in at most `fuel` steps. The containers are
those that are open, the innermost first. -/
def skipFrom? : Nat → List Container → List Char → Option (List Char)
  | 0, _, _ => none
  | fuel + 1, around, cs =>
    match skipSpace cs with
    | 'n' :: 'u' :: 'l' :: 'l' :: rest => skipOut? fuel around rest
    | 't' :: 'r' :: 'u' :: 'e' :: rest => skipOut? fuel around rest
    | 'f' :: 'a' :: 'l' :: 's' :: 'e' :: rest => skipOut? fuel around rest
    | '"' :: rest => (skipString? (rest.length + 1) rest).bind (skipOut? fuel around)
    | '[' :: rest =>
      match skipSpace rest with
      | ']' :: rest => skipOut? fuel around rest
      | rest => skipFrom? fuel (.array :: around) rest
    | '\x7b' :: rest =>
      match skipSpace rest with
      | '\x7d' :: rest => skipOut? fuel around rest
      | rest => (skipKey? rest).bind (skipFrom? fuel (.object :: around))
    | cs => (readLiteral? cs).bind fun (_, rest) => skipOut? fuel around rest

/-- The text after the rest of the containers around a value, in at most `fuel` steps. -/
def skipOut? : Nat → List Container → List Char → Option (List Char)
  | 0, _, _ => none
  | _, [], cs => some cs
  | fuel + 1, container :: around, cs =>
    match container, skipSpace cs with
    | .array, ',' :: rest => skipFrom? fuel (.array :: around) rest
    | .array, ']' :: rest => skipOut? fuel around rest
    | .object, ',' :: rest => (skipKey? rest).bind (skipFrom? fuel (.object :: around))
    | .object, '\x7d' :: rest => skipOut? fuel around rest
    | _, _ => none

end

/-- The text after a value. Every step consumes a character, save the last one. -/
def skipValue? (cs : List Char) : Option (List Char) :=
  skipFrom? (cs.length + 2) [] cs

/-! ## Values -/

/-- How deep containers may be nested. -/
def greatestDepth : Nat := 127

mutual

/-- The wanted parts of the value at the head of a text, and the text after it; `depth` more
containers may be opened. -/
def readValue? : Nat → Nat → Shape → List Char → Option (Json × List Char)
  | 0, _, _, _ => none
  | fuel + 1, depth, shape, cs =>
    match skipSpace cs with
    | 'n' :: 'u' :: 'l' :: 'l' :: rest => some (.null, rest)
    | 't' :: 'r' :: 'u' :: 'e' :: rest => some (.bool true, rest)
    | 'f' :: 'a' :: 'l' :: 's' :: 'e' :: rest => some (.bool false, rest)
    | '"' :: rest => do
      let (text, rest) ← readString? (rest.length + 1) [] rest
      some (.string text, rest)
    | '[' :: rest =>
      if depth = 0 then none
      else
        match skipSpace rest with
        | ']' :: rest => some (.array [], rest)
        | _ => do
          let (items, rest) ← readItems? fuel (depth - 1) shape 0 rest
          some (.array items, rest)
    | '\x7b' :: rest =>
      if depth = 0 then none
      else
        match skipSpace rest with
        | '\x7d' :: rest => some (.object [], rest)
        | _ => do
          let (members, rest) ← readMembers? fuel (depth - 1) shape rest
          some (.object members, rest)
    | c :: rest => if c = '-' || c.isDigit then readNumber? (c :: rest) else none
    | [] => none

/-- The items of an array from an index on, up to the closing bracket. -/
def readItems? : Nat → Nat → Shape → Nat → List Char → Option (List Json × List Char)
  | 0, _, _, _, _ => none
  | fuel + 1, depth, shape, index, cs => do
    let (item, rest) ← readValue? fuel depth (shape.item index) cs
    match skipSpace rest with
    | ',' :: rest =>
      let (items, rest) ← readItems? fuel depth shape (index + 1) rest
      some (item :: items, rest)
    | ']' :: rest => some ([item], rest)
    | _ => none

/-- The wanted ones of one or more members up to the closing brace. -/
def readMembers? : Nat → Nat → Shape → List Char → Option (List (String × Json) × List Char)
  | 0, _, _, _ => none
  | fuel + 1, depth, shape, cs =>
    match skipSpace cs with
    | '"' :: rest => do
      let (key, rest) ← readString? (rest.length + 1) [] rest
      match skipSpace rest with
      | ':' :: rest =>
        let (member, rest) ← match shape.member? key with
          | some shape => (readValue? fuel depth shape rest).map fun (v, rest) => ([(key, v)], rest)
          | none => (skipValue? rest).map fun rest => ([], rest)
        match skipSpace rest with
        | ',' :: rest =>
          let (members, rest) ← readMembers? fuel depth shape rest
          some (member ++ members, rest)
        | '\x7d' :: rest => some (member, rest)
        | _ => none
      | _ => none
    | _ => none

end

/-- The wanted parts of the value that a text writes, with nothing but blanks around it. -/
def parseAs? (shape : Shape) (text : String) : Option Json :=
  let cs := text.toList
  match readValue? (2 * cs.length + 2) greatestDepth shape cs with
  | some (value, rest) => if (skipSpace rest).isEmpty then some value else none
  | none => none

/-- The value that a text writes, with nothing but blanks around it. -/
def parse? (text : String) : Option Json :=
  parseAs? .whole text

end ReportSql.Json
