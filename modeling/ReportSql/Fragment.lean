import ReportSql.Dialect

/-!
# Fragments of generated SQL

Generated statements are lists of fragments, and a fragment becomes text only for
a given dialect. Names pass through the dialect's quoting rules and values appear
as placeholders, so no request value can become part of a statement's text.

## Main definitions

* `BinaryOp` - the operators between two expressions
* `Keyword` - the fixed words of a SELECT
* `Fragment` - a piece of a generated statement
* `Fragment.render` - the text of a list of fragments
* `Fragment.paging` - the clause that selects one page

## Design notes

There is no fragment for string literals. Integers occur only as structural
literals and as page bounds.
-/

namespace ReportSql

/-- The operators between two expressions. -/
inductive BinaryOp where
  | eq
  | ne
  | lt
  | gt
  | lte
  | gte
  | and
  | or
  | like
deriving DecidableEq, Repr

/-- The text of an operator. -/
def BinaryOp.text : BinaryOp → String
  | eq => "="
  | ne => "<>"
  | lt => "<"
  | gt => ">"
  | lte => "<="
  | gte => ">="
  | and => "AND"
  | or => "OR"
  | like => "LIKE"

/-- The fixed words of a SELECT. -/
inductive Keyword where
  | select
  | from_
  | where_
  | not_
  | as_
  | on_
  | join
  | inner
  | left
  | groupBy
  | orderBy
  | asc
  | desc
  | limit
  | offset
  | fetch
  | next
  | rows
  | only
  | in_
  | null
deriving DecidableEq, Repr

/-- The text of a keyword. -/
def Keyword.text : Keyword → String
  | select => "SELECT"
  | from_ => "FROM"
  | where_ => "WHERE"
  | not_ => "NOT"
  | as_ => "AS"
  | on_ => "ON"
  | join => "JOIN"
  | inner => "INNER"
  | left => "LEFT"
  | groupBy => "GROUP BY"
  | orderBy => "ORDER BY"
  | asc => "ASC"
  | desc => "DESC"
  | limit => "LIMIT"
  | offset => "OFFSET"
  | fetch => "FETCH"
  | next => "NEXT"
  | rows => "ROWS"
  | only => "ONLY"
  | in_ => "IN"
  | null => "NULL"

/-- A piece of a generated statement. -/
inductive Fragment where
  | keyword (word : Keyword)
  | operator (op : BinaryOp)
  | comma
  | dot
  | star
  | openParen
  | closeParen
  | space
  | newline
  | indent (levels : Nat)
  /-- A table, column or alias. -/
  | identifier (name : String)
  | integer (value : Int)
  /-- The name of a function, printed in upper case. -/
  | function (name : String)
  /-- A named parameter. -/
  | placeholder (name : String)
deriving DecidableEq, Repr

namespace Fragment

/-- The text of a fragment in a dialect. -/
def text (d : Dialect) : Fragment → String
  | keyword word => word.text
  | operator op => op.text
  | comma => ","
  | dot => "."
  | star => "*"
  | openParen => "("
  | closeParen => ")"
  | space => " "
  | newline => "\n"
  | indent levels => String.ofList (List.replicate (2 * levels) ' ')
  | identifier name => d.formatIdentifier name
  | integer value => toString value
  | function name => Text.upper name
  | placeholder name => d.formatPlaceholder name

/-- The text of a list of fragments in a dialect. -/
def render (d : Dialect) (fragments : List Fragment) : String :=
  String.join (fragments.map (text d))

/-- Lists of fragments with a separator between them. -/
def separated (separator : List Fragment) : List (List Fragment) → List Fragment
  | [] => []
  | [item] => item
  | item :: rest => item ++ separator ++ separated separator rest

/-- A bound of a page. It is printed as a signed 64-bit number. -/
def bound (value : UInt64) : Fragment :=
  integer value.toInt64.toInt

/-- The clause that skips `offset` rows and keeps at most `limit` rows. -/
def paging (d : Dialect) (limit offset : Option UInt64) : List Fragment :=
  match d with
  | .tsql =>
    let skip := [keyword .offset, space, bound (offset.getD 0), space, keyword .rows]
    match limit with
    | none => skip
    | some n =>
      skip ++ [space, keyword .fetch, space, keyword .next, space, bound n, space, keyword .rows,
        space, keyword .only]
  | _ =>
    let clause (word : Keyword) (n : UInt64) := [keyword word, space, bound n]
    match limit, offset with
    | none, none => []
    | some n, none => clause .limit n
    | none, some m => clause .offset m
    | some n, some m => clause .limit n ++ space :: clause .offset m

end Fragment

end ReportSql
