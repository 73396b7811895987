import ReportSql.Query.Basic

/-!
# Printing queries

A query prints in two layouts. The layout over several lines puts each clause on
a line of its own and ends with the row window; the inline layout of a subquery
has spaces instead and leaves the row window out.

## Main definitions

* `Layout` - the two layouts
* `Expr.fragments`, `Query.fragments` - an expression and a query as fragments
* `Query.sql` - the text of a query in a dialect
-/

namespace ReportSql

/-- The layout of a query. The inline layout writes nested derived tables as in Postgres. -/
inductive Layout where
  | lines (dialect : Dialect)
  | inline
deriving DecidableEq

namespace Layout

/-- The dialect in which clauses are chosen. -/
def dialect : Layout → Dialect
  | lines d => d
  | inline => .postgres

/-- What stands before a clause. -/
def clauseBreak : Layout → List Fragment
  | lines _ => [.newline]
  | inline => [.space]

/-- What stands before an output column. -/
def itemBreak : Layout → List Fragment
  | lines _ => [.newline, .indent 1]
  | inline => [.space]

end Layout

/-- An alias after an expression or a table. -/
def aliasFragments (name : String) : List Fragment :=
  [.space, .keyword .as_, .space, .identifier name]

/-- An alias, if there is one. -/
def optionalAlias : Option String → List Fragment
  | some name => aliasFragments name
  | none => []

/-- A table, with its alias unless that repeats the name. -/
def TableRef.fragments (t : TableRef) : List Fragment :=
  .identifier t.table ::
    match t.alias? with
    | some name => if name = t.table then [] else aliasFragments name
    | none => []

/-- The qualifier before a column. -/
def qualifierFragments : Option String → List Fragment
  | some table => [.identifier table, .dot]
  | none => []

/-- The word IN with its opening parenthesis, possibly negated. -/
def inFragments (negated : Bool) : List Fragment :=
  (if negated then [.space, .keyword .not_] else []) ++
    [.space, .keyword .in_, .space, .openParen]

/-- An empty list contains nothing, which is said without a list. -/
def emptyListFragments (negated : Bool) : List Fragment :=
  [.integer 1, .space, .operator .eq, .space, .integer (if negated then 1 else 0)]

/-- The word for a kind of join before JOIN. -/
def JoinKind.word : JoinKind → Keyword
  | inner => .inner
  | left => .left

/-- The word for a direction. -/
def Direction.word : Direction → Keyword
  | asc => .asc
  | desc => .desc

/-- A clause after its break. -/
def clauseFragments (layout : Layout) (word : Keyword) (content : List Fragment) : List Fragment :=
  layout.clauseBreak ++ [.keyword word, .space] ++ content

/-- The order by a constant, for a row window in a dialect that takes pages of ordered results
only. -/
def constantOrder : Layout → Option RowWindow → List Fragment
  | .lines d, some _ =>
    if d.needsOrderForPaging then
      [.newline, .keyword .orderBy, .space, .openParen, .keyword .select, .space, .keyword .null,
        .closeParen]
    else []
  | _, _ => []

/-- The row window, which the inline layout leaves out. -/
def windowFragments : Layout → Option RowWindow → List Fragment
  | .lines d, some rows => [.newline] ++ Fragment.paging d rows.limit rows.offset
  | _, _ => []

mutual

/-- The fragments of an expression. -/
def Expr.fragments : Expr → List Fragment
  | .column table name => qualifierFragments table ++ [.identifier name]
  | .integer value => [.integer value]
  | .null => [.keyword .null]
  | .placeholder name => [.placeholder name]
  | .binary op left right =>
    left.fragments ++ [.space, .operator op, .space] ++ right.fragments
  | .not operand => [.keyword .not_, .space] ++ operand.fragments
  | .call name args =>
    [.function name, .openParen] ++ Expr.listFragments args ++ [.closeParen]
  | .inList _ [] negated => emptyListFragments negated
  | .inList operand (value :: rest) negated =>
    operand.fragments ++ inFragments negated ++ Expr.listFragments (value :: rest) ++
      [.closeParen]
  | .inQuery operand query negated =>
    operand.fragments ++ inFragments negated ++ query.fragments .inline ++ [.closeParen]
  | .star table => qualifierFragments table ++ [.star]
  | .paren inner => [.openParen] ++ inner.fragments ++ [.closeParen]

/-- Expressions with commas between them. -/
def Expr.listFragments : List Expr → List Fragment
  | [] => []
  | [e] => e.fragments
  | e :: next :: rest => e.fragments ++ [.comma, .space] ++ Expr.listFragments (next :: rest)

/-- The output columns, each after its break. -/
def SelectItem.listFragments (layout : Layout) : List SelectItem → List Fragment
  | [] => []
  | [⟨expr, name?⟩] => layout.itemBreak ++ expr.fragments ++ optionalAlias name?
  | ⟨expr, name?⟩ :: next :: rest =>
    layout.itemBreak ++ expr.fragments ++ optionalAlias name? ++ [.comma] ++
      SelectItem.listFragments layout (next :: rest)

/-- The source of a query. -/
def Source.fragments (d : Dialect) : Source → List Fragment
  | .table ref => ref.fragments
  | .derived query name =>
    [.openParen, .newline] ++ query.fragments (.lines d) ++ [.newline, .closeParen] ++
      aliasFragments name

/-- The joins, each after its break. -/
def Join.listFragments (layout : Layout) : List Join → List Fragment
  | [] => []
  | ⟨kind, table, on⟩ :: rest =>
    layout.clauseBreak ++ [.keyword kind.word, .space, .keyword .join, .space] ++
      table.fragments ++ [.space, .keyword .on_, .space] ++ on.fragments ++
      Join.listFragments layout rest

/-- The keys of an order; the direction is always written. -/
def OrderItem.listFragments : List OrderItem → List Fragment
  | [] => []
  | [⟨expr, direction⟩] => expr.fragments ++ [.space, .keyword direction.word]
  | ⟨expr, direction⟩ :: next :: rest =>
    expr.fragments ++ [.space, .keyword direction.word, .comma, .space] ++
      OrderItem.listFragments (next :: rest)

/-- The fragments of a query. Where a page can only be taken of an ordered result, an unordered
query with a row window is ordered by a constant. -/
def Query.fragments (layout : Layout) : Query → List Fragment
  | ⟨select, source, joins, condition, groupBy, orderBy, window⟩ =>
    [.keyword .select] ++ SelectItem.listFragments layout select ++
      (match source with
        | none => []
        | some source => clauseFragments layout .from_ (source.fragments layout.dialect)) ++
      Join.listFragments layout joins ++
      (match condition with
        | none => []
        | some condition => clauseFragments layout .where_ condition.fragments) ++
      (if groupBy.isEmpty then []
        else clauseFragments layout .groupBy (Expr.listFragments groupBy)) ++
      (if orderBy.isEmpty then constantOrder layout window
        else clauseFragments layout .orderBy (OrderItem.listFragments orderBy)) ++
      windowFragments layout window

end

/-- The text of an expression in a dialect. -/
def Expr.sql (d : Dialect) (e : Expr) : String :=
  Fragment.render d e.fragments

/-- The text of a query in a dialect, over several lines. -/
def Query.sql (d : Dialect) (q : Query) : String :=
  Fragment.render d (q.fragments (.lines d))

end ReportSql
