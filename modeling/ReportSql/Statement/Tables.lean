import ReportSql.Statement.Basic

/-!
# Tables of author statements

Every table named after FROM or JOIN is found, at any depth of parentheses. FROM
introduces tables only where the same pair of parentheses holds a SELECT, so the
FROM inside a function call and the one of a distinctness test are passed over.

## Main definitions

* `TableMention` - a table as it is named in a statement
* `TableScan` - the tables found and the positions that hold no plain name
* `Statement.scanTables` - the tables of a statement

## Design notes

The readers of table lists run ahead of the main scan and take a bound on the
number of steps. Each pair of steps consumes a token, so twice the number of
tokens is enough.
-/

namespace ReportSql

/-- A table named in a statement: its name as written, dotted parts joined, how many parentheses
are open at it, and whether it stands in braces. -/
structure TableMention where
  name : String
  alias? : Option String
  depth : Nat
  braced : Bool
deriving DecidableEq, Repr

/-- The name by which the other clauses know the table. -/
def TableMention.exposedName (m : TableMention) : String :=
  m.alias?.getD m.name

/-- The tables found, and the texts at table positions that are no plain names. -/
structure TableScan where
  mentions : List TableMention
  unreadable : List String

namespace TableScan

/-- Nothing found. -/
def empty : TableScan := ⟨[], []⟩

/-- The findings of one scan after those of another. -/
def append (a b : TableScan) : TableScan :=
  ⟨a.mentions ++ b.mentions, a.unreadable ++ b.unreadable⟩

/-- A single mention. -/
def mention (m : TableMention) : TableScan := ⟨[m], []⟩

/-- A single position that cannot be read. -/
def unread (text : String) : TableScan := ⟨[], [text]⟩

end TableScan

namespace Statement

/-- Words that end a table reference instead of naming it. -/
def nonAliasWords : List String :=
  ["CROSS", "EXCEPT", "FETCH", "FULL", "GROUP", "HAVING", "INNER", "INTERSECT", "JOIN", "LEFT",
    "LIMIT", "NATURAL", "ON", "ORDER", "OUTER", "RIGHT", "UNION", "USING", "WHERE", "WINDOW"]

/-- A token that may be an alias. -/
def aliasName? : Token → Option String
  | .word value (some _) => some value
  | .word value none =>
    if nonAliasWords.contains (Text.upperAscii value) then none else some value
  | _ => none

/-- An optional alias, with or without AS, and the tokens after it. Without an alias the tokens are
left as they were. -/
def readAlias (tokens : List Token) : Option String × List Token :=
  let candidates :=
    match Token.skipTrivia tokens with
    | [] => []
    | first :: rest =>
      if first.isKeyword "AS" then Token.skipTrivia rest else first :: rest
  match candidates with
  | [] => (none, tokens)
  | candidate :: rest =>
    match aliasName? candidate with
    | some name => (some name, rest)
    | none => (none, tokens)

/-- The tokens after the parenthesis that closes the innermost open one, where `depth` more were
opened inside it. -/
def afterClosing? : Nat → List Token → Option (List Token)
  | _, [] => none
  | depth, .punctuation .openParen :: rest => afterClosing? (depth + 1) rest
  | 0, .punctuation .closeParen :: rest => some rest
  | depth + 1, .punctuation .closeParen :: rest => afterClosing? depth rest
  | depth, _ :: rest => afterClosing? depth rest

/-- The parts of a dotted name after its first word, and the tokens after them. -/
def readNameParts : List Token → String × List Token
  | .punctuation .period :: .word part _ :: rest =>
    let (more, left) := readNameParts rest
    ("." ++ part ++ more, left)
  | tokens => ("", tokens)

/-- A table name, whether it stands in braces, and the tokens after it. -/
def readName? (tokens : List Token) : Option (String × Bool × List Token) :=
  match bracedTable? tokens with
  | some name => some (name, true, tokens.drop 3)
  | none =>
    match tokens with
    | .word first _ :: rest =>
      let (parts, left) := readNameParts rest
      some (first ++ parts, false, left)
    | _ => none

/-- The text up to and with the first closing bracket. -/
def bracketedText : List Token → String
  | [] => ""
  | token :: rest =>
    if token = .punctuation .closeBracket then token.text else token.text ++ bracketedText rest

/-- The text at a table position that holds no name; a name in brackets is kept whole. -/
def unreadableText (tokens : List Token) : String :=
  match tokens with
  | .punctuation .openBracket :: _ => bracketedText tokens
  | token :: _ => token.text
  | [] => ""

mutual

/-- Reads a comma list of table references in at most `fuel` steps. -/
def readTableList : Nat → Nat → List Token → TableScan
  | 0, _, _ => .empty
  | fuel + 1, depth, tokens =>
    let (scan, left?) := readTableRef fuel depth tokens
    match left? with
    | none => scan
    | some left =>
      match Token.skipTrivia left with
      | .punctuation .comma :: rest => scan.append (readTableList fuel depth rest)
      | _ => scan

/-- Reads one table reference in at most `fuel` steps; gives the tokens after it and its alias, or
none when nothing more can be read. A derived table is passed over, because its own FROM is met
later; a parenthesized list is read one level deeper. -/
def readTableRef : Nat → Nat → List Token → TableScan × Option (List Token)
  | 0, _, _ => (.empty, none)
  | fuel + 1, depth, tokens =>
    match Token.skipTrivia tokens with
    | [] => (.empty, none)
    | .punctuation .openParen :: inner =>
      match afterClosing? 0 inner with
      | none => (.unread "(", none)
      | some outer =>
        let derived := (Token.firstSignificant? inner).any (·.isKeyword "SELECT")
        let scan := if derived then .empty else readTableList fuel (depth + 1) inner
        (scan, some (readAlias outer).2)
    | start =>
      match readName? start with
      | none => (.unread (unreadableText start), none)
      | some (name, braced, left) =>
        if Token.firstSignificant? left = some (.punctuation .openParen) then
          (.unread (name ++ "("), none)
        else
          let (alias?, left) := readAlias left
          (.mention ⟨name, alias?, depth, braced⟩, some left)

end

/-- Reads the list of table references that starts at the head of a list of tokens. -/
def tableList (depth : Nat) (tokens : List Token) : TableScan :=
  readTableList (2 * tokens.length + 2) depth tokens

/-- Scans a list of tokens. `selects` tells for each open parenthesis, and last for the outermost
level, whether a SELECT was met there; `previous` is the last token that was no blank or comment. -/
def scanTablesIn : List Bool → Option Token → List Token → TableScan
  | _, _, [] => .empty
  | selects, previous, token :: rest =>
    let depth := selects.length - 1
    let previous' := if token.isTrivia then previous else some token
    let introduces :=
      token.isKeyword "JOIN" ||
        (token.isKeyword "FROM" && selects.head?.getD false &&
          !previous.any (·.isKeyword "DISTINCT"))
    match token with
    | .punctuation .openParen => scanTablesIn (false :: selects) previous' rest
    | .punctuation .closeParen =>
      scanTablesIn (if 1 < selects.length then selects.tail else selects) previous' rest
    | _ =>
      if token.isKeyword "SELECT" then scanTablesIn (true :: selects.tail) previous' rest
      else if introduces then
        (tableList depth rest).append (scanTablesIn selects previous' rest)
      else scanTablesIn selects previous' rest

/-- The tables of a statement, in the order of the words that introduce them. -/
def scanTables (s : Statement) : TableScan :=
  scanTablesIn [false] none s.tokens

/-- The tables named in a statement. -/
def mentions (s : Statement) : List TableMention :=
  s.scanTables.mentions

/-- The tables named outside all parentheses. -/
def topLevelTables (s : Statement) : List TableMention :=
  s.mentions.filter (·.depth == 0)

end Statement

end ReportSql
