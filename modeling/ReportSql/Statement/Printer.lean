import ReportSql.Query.Printer
import ReportSql.Statement.Basic

/-!
# Printing author statements

A statement is printed token by token. Names in braces become prefixed tables,
named placeholders take the dialect's form, and the added predicates are joined
to the outermost WHERE, or to a new one right after the FROM clause.

## Main definitions

* `Statement.render` - the whole statement
* `Statement.countSql` - the statement that counts its rows
* `Statement.pagedSql` - the statement restricted to one page
-/

namespace ReportSql

namespace Statement

/-- The text printed for the head of a list of tokens, and how many tokens it stands for. -/
def pieceText (dialect : Dialect) (tablePrefix : String) (token : Token) (rest : List Token) :
    String × Nat :=
  match bracedTable? (token :: rest) with
  | some name => (dialect.formatIdentifier (tablePrefix ++ name), 3)
  | none =>
    match namedPlaceholder? (token :: rest) with
    | some name => (dialect.formatPlaceholder name, 2)
    | none => (token.text, 1)

/-- The text of the pieces that start within the next `count` tokens, of which the first `skip` are
already printed. A piece that starts within the range is printed whole. -/
def plainText (dialect : Dialect) (tablePrefix : String) : Nat → Nat → List Token → String
  | 0, _, _ => ""
  | _, _, [] => ""
  | count + 1, skip + 1, _ :: rest => plainText dialect tablePrefix count skip rest
  | count + 1, 0, token :: rest =>
    let (text, width) := pieceText dialect tablePrefix token rest
    text ++ plainText dialect tablePrefix count (width - 1) rest

/-- The added predicates as one condition. -/
def predicateSql? (s : Statement) : Option String :=
  match s.predicates with
  | [] => none
  | predicates => some (" AND ".intercalate (predicates.map (·.sql s.dialect)))

/-- Where the added predicates go. -/
inductive Insertion where
  /-- There is nothing to add, or no place for it. -/
  | nowhere
  /-- A new WHERE before the token at a position. -/
  | newCondition (position : Nat) (predicate : String)
  /-- Beside the condition in a token range. -/
  | beside (start stop : Nat) (predicate : String)

/-- The place for the added predicates: the WHERE clause, or else the end of the FROM clause. -/
def insertion (s : Statement) : Insertion :=
  match s.predicateSql?, s.clauseSpan? .condition, s.clauseSpan? .source with
  | none, _, _ => .nowhere
  | some predicate, some (start, stop), _ => .beside start stop predicate
  | some predicate, none, some (_, stop) => .newCondition stop predicate
  | some _, none, none => .nowhere

/-- The condition of a WHERE clause in parentheses, given the tokens after the keyword and how many
of them belong to it. A comment to the end of the line at its end keeps its line break. -/
def enclosedCondition (dialect : Dialect) (tablePrefix : String) (count : Nat)
    (tokens : List Token) : String :=
  let body := Text.trim (plainText dialect tablePrefix count 0 tokens)
  let last? := (tokens.take count).reverse.find? (!·.isBlank)
  let lineBreak := if last?.any Token.isLineComment then "\n" else ""
  "(" ++ body ++ lineBreak ++ ")"

/-- The text of the pieces that start before `stop`, from the token at `position` on, of which the
first `skip` are already printed. -/
def renderFrom (dialect : Dialect) (tablePrefix : String) (insertion : Insertion) (stop : Nat) :
    Nat → Nat → List Token → String
  | _, _, [] => ""
  | position, skip + 1, _ :: rest =>
    if stop ≤ position then ""
    else renderFrom dialect tablePrefix insertion stop (position + 1) skip rest
  | position, 0, token :: rest =>
    if stop ≤ position then ""
    else
      let plain :=
        let (text, width) := pieceText dialect tablePrefix token rest
        text ++ renderFrom dialect tablePrefix insertion stop (position + 1) (width - 1) rest
      match insertion with
      | .nowhere => plain
      | .newCondition place predicate =>
        if position = place then "WHERE " ++ predicate ++ " " ++ plain else plain
      | .beside start conditionStop predicate =>
        if position = start then
          let count := min conditionStop stop - (position + 1)
          let gap := if min conditionStop stop < stop then " " else ""
          token.text ++ " " ++ enclosedCondition dialect tablePrefix count rest ++ " AND " ++
            predicate ++ gap ++
            renderFrom dialect tablePrefix insertion stop (position + 1) count rest
        else
          plain

/-- The text of the pieces that start before a position, with the added predicates. -/
def renderUntil (s : Statement) (tablePrefix : String) (stop : Nat) : String :=
  let insertion := s.insertion
  let body := renderFrom s.dialect tablePrefix insertion stop 0 0 s.tokens
  match insertion with
  | .newCondition place predicate =>
    if place = stop then Text.trimEnd body ++ "\nWHERE " ++ predicate else body
  | _ => body

/-- The text of the statement, with `tablePrefix` before every name in braces. -/
def render (s : Statement) (tablePrefix : String) : String :=
  s.renderUntil tablePrefix s.tokens.length

/-- The statement that counts the rows. An order is left out unless the statement takes a part of
its rows itself. -/
def countSql (s : Statement) (tablePrefix : String) : String :=
  let inner :=
    match s.clause? .orderBy, s.hasClause .limit with
    | some orderBy, false => s.renderUntil tablePrefix orderBy.start
    | _, _ => s.render tablePrefix
  "SELECT COUNT(*) AS " ++ Query.countColumn ++ " FROM (\n" ++ Text.trimEnd inner ++ "\n) AS " ++
    Query.countTable

/-- The order by a constant, where a page can only be taken of an ordered result. -/
def constantOrder : String := "\nORDER BY (SELECT NULL)"

/-- The statement restricted to one page; pages count from zero. A statement that takes a part of
its rows itself becomes a derived table first. -/
def pagedSql (s : Statement) (tablePrefix : String) (page pageSize : UInt64) : String :=
  let window := Query.pageWindow page pageSize
  let paging := "\n" ++ Fragment.render s.dialect
    (Fragment.paging s.dialect window.limit window.offset)
  let text := Text.trimEnd (s.render tablePrefix)
  if s.hasClause .limit then
    let order := if s.dialect.needsOrderForPaging then constantOrder else ""
    "SELECT * FROM (\n" ++ text ++ "\n) AS report_page" ++ order ++ paging
  else
    let lineBreak := if s.tokens.getLast?.any Token.isLineComment then "\n" else ""
    let order :=
      if s.dialect.needsOrderForPaging && !s.hasClause .orderBy then constantOrder else ""
    text ++ lineBreak ++ order ++ paging

end Statement

end ReportSql
