import ReportSql.Fragment

/-!
# Queries

Expressions and SELECT queries as trees, with one field for each clause. A
condition added later always joins the outermost WHERE, because the tree is
printed only once.

## Main definitions

* `Expr` and `Query` - expressions and queries, which contain each other
* `Expr.never` - a condition that holds of no row
* `Query.andWhere` - a further condition
* `Query.countQuery`, `Query.paged` - the two forms in which a report is run
* `Expr.placeholders`, `Query.placeholders` - the named parameters in use
-/

namespace ReportSql

/-- A table under an optional alias. -/
structure TableRef where
  table : String
  alias? : Option String
deriving DecidableEq, Repr

/-- The name by which the other clauses know a table. -/
def TableRef.exposedName (t : TableRef) : String :=
  t.alias?.getD t.table

/-- The kinds of joins. -/
inductive JoinKind where
  | inner
  | left
deriving DecidableEq, Repr

/-- The direction of an order. -/
inductive Direction where
  | asc
  | desc
deriving DecidableEq, Repr

/-- The rows to keep: at most `limit` after skipping `offset`. -/
structure RowWindow where
  limit : Option UInt64
  offset : Option UInt64
deriving DecidableEq, Repr

mutual

/-- An expression. -/
inductive Expr where
  | column (table : Option String) (name : String)
  | integer (value : Int)
  | null
  | placeholder (name : String)
  | binary (op : BinaryOp) (left right : Expr)
  | not (operand : Expr)
  | call (name : String) (args : List Expr)
  | inList (operand : Expr) (values : List Expr) (negated : Bool)
  | inQuery (operand : Expr) (query : Query) (negated : Bool)
  /-- Every column, or every column of one table. -/
  | star (table : Option String)
  | paren (inner : Expr)

/-- An output column. -/
structure SelectItem where
  expr : Expr
  alias? : Option String

/-- What a query selects from. -/
inductive Source where
  | table (ref : TableRef)
  | derived (query : Query) (name : String)

/-- A joined table with its condition. -/
structure Join where
  kind : JoinKind
  table : TableRef
  on : Expr

/-- One key of an order. -/
structure OrderItem where
  expr : Expr
  direction : Direction

/-- A SELECT query. -/
structure Query where
  select : List SelectItem
  source : Option Source
  joins : List Join
  condition : Option Expr
  groupBy : List Expr
  orderBy : List OrderItem
  window : Option RowWindow

end

instance : Inhabited Expr := ⟨.null⟩

namespace Expr

/-- A column of a table. -/
def qualified (table column : String) : Expr :=
  .column (some table) column

/-- The conjunction of two conditions. -/
def and (left right : Expr) : Expr :=
  .binary .and left right

/-- The disjunction of two conditions. -/
def or (left right : Expr) : Expr :=
  .binary .or left right

/-- The equality of two expressions. -/
def eq (left right : Expr) : Expr :=
  .binary .eq left right

/-- A condition that holds of no row in any dialect. -/
def never : Expr :=
  .eq (.integer 1) (.integer 0)

/-- The number of rows. -/
def countAll : Expr :=
  .call "COUNT" [.star none]

/-- The names of the aggregate functions. -/
def aggregateNames : List String := ["COUNT", "SUM", "AVG", "MIN", "MAX"]

/-- A call of an aggregate function, in any ASCII case. -/
def isAggregate : Expr → Bool
  | .call name _ => aggregateNames.contains (Text.upperAscii name)
  | _ => false

end Expr

mutual

/-- The names of the placeholders of an expression, from left to right. -/
def Expr.placeholders : Expr → List String
  | .placeholder name => [name]
  | .binary _ left right => left.placeholders ++ right.placeholders
  | .not operand => operand.placeholders
  | .paren inner => inner.placeholders
  | .call _ args => Expr.placeholdersOf args
  | .inList operand values _ => operand.placeholders ++ Expr.placeholdersOf values
  | .inQuery operand query _ => operand.placeholders ++ query.placeholders
  | .column _ _ | .integer _ | .null | .star _ => []

/-- The names of the placeholders of several expressions. -/
def Expr.placeholdersOf : List Expr → List String
  | [] => []
  | e :: rest => e.placeholders ++ Expr.placeholdersOf rest

/-- The names of the placeholders of the output columns. -/
def SelectItem.placeholdersOf : List SelectItem → List String
  | [] => []
  | ⟨expr, _⟩ :: rest => expr.placeholders ++ SelectItem.placeholdersOf rest

/-- The names of the placeholders of the joins. -/
def Join.placeholdersOf : List Join → List String
  | [] => []
  | ⟨_, _, on⟩ :: rest => on.placeholders ++ Join.placeholdersOf rest

/-- The names of the placeholders of a source. -/
def Source.placeholders : Source → List String
  | .table _ => []
  | .derived query _ => query.placeholders

/-- The names of the placeholders of a query: of its output columns, source, joins, condition and
grouping. -/
def Query.placeholders : Query → List String
  | ⟨select, source, joins, condition, groupBy, _, _⟩ =>
    SelectItem.placeholdersOf select ++
      (match source with
        | some source => source.placeholders
        | none => []) ++
      Join.placeholdersOf joins ++
      (match condition with
        | some condition => condition.placeholders
        | none => []) ++
      Expr.placeholdersOf groupBy

end

namespace Query

/-- The query with nothing in any clause. -/
def empty : Query :=
  ⟨[], none, [], none, [], [], none⟩

instance : Inhabited Query := ⟨empty⟩

/-- Adds a condition. An OR at the top of the present condition is enclosed first, so that it
cannot absorb the new one. -/
def andWhere (q : Query) (condition : Expr) : Query :=
  let combined :=
    match q.condition with
    | none => condition
    | some (.binary .or left right) => (Expr.paren (.binary .or left right)).and condition
    | some present => present.and condition
  { q with condition := some combined }

/-- The tables that are visible at the top of a query. -/
def topLevelTables (q : Query) : List TableRef :=
  (match q.source with
    | some (.table ref) => [ref]
    | _ => []) ++ q.joins.map (·.table)

/-- The name of the derived table of a count. -/
def countTable : String := "report_total"

/-- The name of the output column of a count. -/
def countColumn : String := "total"

/-- The query that counts the rows of a query. Order and row window do not matter to the number
and are left out. -/
def countQuery (q : Query) : Query :=
  { empty with
    select := [⟨Expr.countAll, some countColumn⟩]
    source := some (.derived { q with orderBy := [], window := none } countTable) }

/-- The product of two 64-bit numbers, or the greatest one when it does not fit. -/
def saturatingMul (a b : UInt64) : UInt64 :=
  if a.toNat * b.toNat < Nat.pow 2 64 then a * b else UInt64.ofNat (Nat.pow 2 64 - 1)

/-- The rows of one page; pages count from zero. -/
def pageWindow (page pageSize : UInt64) : RowWindow :=
  ⟨some pageSize, some (saturatingMul page pageSize)⟩

/-- The query restricted to one page. -/
def paged (q : Query) (page pageSize : UInt64) : Query :=
  { q with window := some (pageWindow page pageSize) }

end Query

end ReportSql
