import ReportSql.Toml.Scalar

/-!
# TOML documents

A document is a sequence of headers and settings. Each table may be defined only
once: by its own header, by dotted keys, or as an inline value; headers of
subtables may still come before or after the header of a table. The parts of an
inline table may be on lines of their own, as those of an array.

## Main definitions

* `Toml.Node` - a document under construction
* `Toml.parse?` - the value of a whole document
* `Toml.parseAs?` - what is wanted of it
-/

namespace ReportSql.Toml

/-- How a table came to be: by its own header, as the parent of another header, or by a dotted
key. -/
inductive TableKind where
  | header
  | parent
  | dotted
deriving DecidableEq

/-- A part of a document: a finished value, a table, or a list of tables of which the last one is
open. -/
inductive Node where
  | value (value : Value)
  | table (kind : TableKind) (members : List (String × Node))
  | tables (elements : List (List (String × Node)))

/-- The members of a table under construction. -/
abbrev Members := List (String × Node)

mutual

/-- The finished value of a part. -/
def Node.finish : Node → Value
  | .value value => value
  | .table _ members => .table (finishMembers members)
  | .tables elements => .array (finishElements elements)

/-- The finished values of the members of a table. -/
def finishMembers : List (String × Node) → List (String × Value)
  | [] => []
  | (key, node) :: rest => (key, node.finish) :: finishMembers rest

/-- The finished values of a list of tables. -/
def finishElements : List (List (String × Node)) → List Value
  | [] => []
  | members :: rest => .table (finishMembers members) :: finishElements rest

end

/-- Replaces or adds a member. -/
def setMember (key : String) (node : Node) : Members → Members
  | [] => [(key, node)]
  | (k, n) :: rest => if k = key then (key, node) :: rest else (k, n) :: setMember key node rest

/-- Changes the last element of a list. -/
def changeLast? (change : Members → Option Members) : List Members → Option (List Members)
  | [] => none
  | [last] => (change last).map fun last => [last]
  | first :: rest => (changeLast? change rest).map (first :: ·)

/-- Changes the table that a header's path leads to, creating parents on the way. -/
def changeAt? (change : Members → Option Members) : List String → Members → Option Members
  | [], members => change members
  | key :: rest, members =>
    match members.lookup key with
    | none =>
      (changeAt? change rest []).map fun inner => setMember key (.table .parent inner) members
    | some (.table kind inner) =>
      (changeAt? change rest inner).map fun inner => setMember key (.table kind inner) members
    | some (.tables elements) =>
      (changeLast? (changeAt? change rest) elements).map fun elements =>
        setMember key (.tables elements) members
    | some (.value _) => none

/-- Opens a table by its header. -/
def openTable? (key : String) (members : Members) : Option Members :=
  match members.lookup key with
  | none => some (setMember key (.table .header []) members)
  | some (.table .parent inner) => some (setMember key (.table .header inner) members)
  | some _ => none

/-- Opens a further table of a list of tables. -/
def openElement? (key : String) (members : Members) : Option Members :=
  match members.lookup key with
  | none => some (setMember key (.tables [[]]) members)
  | some (.tables elements) => some (setMember key (.tables (elements ++ [[]])) members)
  | some _ => none

/-- Sets a value under a dotted key. The table that receives it must have been made by dotted keys
as well. -/
def setValue? (value : Value) : List String → Members → Option Members
  | [], _ => none
  | [key], members =>
    if (members.lookup key).isSome then none else some (setMember key (.value value) members)
  | key :: next :: rest, members =>
    match members.lookup key with
    | none =>
      (setValue? value (next :: rest) []).map fun inner =>
        setMember key (.table .dotted inner) members
    | some (.table kind inner) =>
      if kind = .dotted || (kind = .parent && !rest.isEmpty) then
        (setValue? value (next :: rest) inner).map fun inner =>
          setMember key (.table kind inner) members
      else none
    | some _ => none

/-- Skips blanks, line breaks and comments in at most `fuel` steps. -/
def skipLines? : Nat → List Char → Option (List Char)
  | 0, cs => some cs
  | fuel + 1, cs => do
    let rest ← skipComment? (skipSpace cs)
    match readNewline? rest with
    | some rest => skipLines? fuel rest
    | none => some rest

/-- Skips all blanks, line breaks and comments. -/
def skipTrivia? (cs : List Char) : Option (List Char) :=
  skipLines? (cs.length + 1) cs

/-- How deep arrays and inline tables may be nested. -/
def greatestDepth : Nat := 80

mutual

/-- A value and the text after it, in at most `fuel` steps; `depth` more arrays and tables may be
opened. -/
def readValue? : Nat → Nat → List Char → Option (Value × List Char)
  | 0, _, _ => none
  | fuel + 1, depth, cs =>
    match cs with
    | '[' :: rest =>
      if depth = 0 then none
      else do
        let (items, rest) ← readItems? fuel (depth - 1) rest
        some (.array items, rest)
    | '\x7b' :: rest =>
      if depth = 0 then none
      else do
        let (members, rest) ← readInline? fuel (depth - 1) [] rest
        some (.table (finishMembers members), rest)
    | _ => readScalar? cs

/-- The items of an array up to its closing bracket; a comma may follow the last one. -/
def readItems? : Nat → Nat → List Char → Option (List Value × List Char)
  | 0, _, _ => none
  | fuel + 1, depth, cs => do
    let cs ← skipTrivia? cs
    match cs with
    | ']' :: rest => some ([], rest)
    | _ =>
      let (item, rest) ← readValue? fuel depth cs
      let rest ← skipTrivia? rest
      match rest with
      | ',' :: rest =>
        let (items, rest) ← readItems? fuel depth rest
        some (item :: items, rest)
      | ']' :: rest => some ([item], rest)
      | _ => none

/-- The members of an inline table up to its closing brace, after the given ones; a comma may follow
the last one. -/
def readInline? : Nat → Nat → Members → List Char → Option (Members × List Char)
  | 0, _, _, _ => none
  | fuel + 1, depth, done, cs => do
    let cs ← skipTrivia? cs
    match cs with
    | '\x7d' :: rest => some (done, rest)
    | _ =>
      let (key, rest) ← readKey? cs
      let rest ← skipTrivia? rest
      match rest with
      | '=' :: rest =>
        let rest ← skipTrivia? rest
        let (value, rest) ← readValue? fuel depth rest
        let done ← setValue? value key done
        let rest ← skipTrivia? rest
        match rest with
        | ',' :: rest => readInline? fuel depth done rest
        | '\x7d' :: rest => some (done, rest)
        | _ => none
      | _ => none

end

/-- The end of a line: blanks, an optional comment, and a line break or the end of the text. -/
def endLine? (cs : List Char) : Option (List Char) := do
  let rest ← skipComment? (skipSpace cs)
  match rest with
  | [] => some []
  | _ => readNewline? rest

/-- Reads the lines of a document in at most `fuel` steps: `path` is the table that is open, and
`root` holds what is known so far. -/
def readLinesOf? : Nat → List String → Members → List Char → Option Members
  | 0, _, _, _ => none
  | fuel + 1, path, root, cs => do
    let cs ← skipTrivia? cs
    match cs with
    | [] => some root
    | '[' :: '[' :: rest =>
      let (key, rest) ← readKey? rest
      match rest with
      | ']' :: ']' :: rest =>
        let root ← changeAt? (openElement? (key.getLast?.getD "")) key.dropLast root
        let rest ← endLine? rest
        readLinesOf? fuel key root rest
      | _ => none
    | '[' :: rest =>
      let (key, rest) ← readKey? rest
      match rest with
      | ']' :: rest =>
        let root ← changeAt? (openTable? (key.getLast?.getD "")) key.dropLast root
        let rest ← endLine? rest
        readLinesOf? fuel key root rest
      | _ => none
    | _ =>
      let (key, rest) ← readKey? cs
      match rest with
      | '=' :: rest =>
        let rest := skipSpace rest
        let (value, rest) ← readValue? (2 * rest.length + 2) greatestDepth rest
        let root ← changeAt? (setValue? value key) path root
        let rest ← endLine? rest
        readLinesOf? fuel path root rest
      | _ => none

/-- The value of a document; a byte order mark at its head is dropped. -/
def parse? (text : String) : Option Value :=
  let cs := match text.toList with
    | '\uFEFF' :: rest => rest
    | cs => cs
  (readLinesOf? (cs.length + 1) [] [] cs).map fun members => .table (finishMembers members)

/-- What is wanted of a document, in JSON. -/
def parseAs? (shape : Json.Shape) (text : String) : Option Json :=
  (parse? text).bind (Value.toJson? shape)

end ReportSql.Toml
