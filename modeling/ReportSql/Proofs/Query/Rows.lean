import Mathlib
import ReportSql.Query.Basic
import ReportSql.Text.Case

/-!
# The rows of a query

What a SELECT means, read in the standard way: the joined rows of its tables that
satisfy the condition are grouped, and every group gives one row. Without a
grouping every joined row is a group of its own, unless an aggregate is selected:
then all of them, even none, are the only group.

Conditions are true, false or unknown. How a database compares values and applies
functions is left to the database.

## Main definitions

* `Truth` - the three truth values
* `Store` - a database with its contents and the values of parameters
* `Expr.value` - the value of an expression for a group of rows
* `Query.rows` - the rows of a query

## Main results

* `Query.rows_countQuery` - the query that counts rows counts them
* `Query.rows_andWhere_never` - a query that no row satisfies gives at most the row of an empty group

## Design notes

Rows are listed in no particular order, so ORDER BY has no part in them. A page takes its rows
from the list, and the nested forms of a query have no row window.
-/

namespace ReportSql

/-! ## Truth values -/

/-- Whether a condition holds; `none` is unknown. -/
abbrev Truth := Option Bool

namespace Truth

/-- A conjunction is false as soon as one side is. -/
def and : Truth → Truth → Truth
  | some false, _ | _, some false => some false
  | some true, some true => some true
  | _, _ => none

/-- The opposite; unknown stays unknown. -/
def not (t : Truth) : Truth :=
  t.map Bool.not

/-- A disjunction is true as soon as one side is. -/
def or (a b : Truth) : Truth :=
  not (and (not a) (not b))

/-- Whether one of several conditions holds. -/
def any (ts : List Truth) : Truth :=
  ts.foldr or (some false)

@[simp] theorem and_false (t : Truth) : and t (some false) = some false := by
  rcases t with _ | _ | _ <;> rfl

end Truth

/-! ## Databases -/

/-- The row of one table: its columns with their values. -/
abbrev Row (V : Type) := List (String × V)

/-- A row of joined tables: the rows of the tables by the names under which they are known. -/
abbrev JoinedRow (V : Type) := List (String × Row V)

/-- A database system with the contents of its tables and the values of the parameters. -/
structure Store (V : Type) where
  rows : String → List (Row V)
  bound : String → V
  null : V
  integer : Int → V
  /-- The value of a condition. -/
  ofTruth : Truth → V
  /-- What a value counts as where a condition is expected. -/
  truth : V → Truth
  compare : BinaryOp → V → V → Truth
  /-- Whether two values belong to the same group. -/
  same : V → V → Bool
  apply : String → List V → V
  /-- The value of an aggregate function, given its arguments for every row of a group. -/
  summarise : String → List (List V) → V
  truth_ofTruth : ∀ t, truth (ofTruth t) = t
  compare_integer : ∀ m n, compare .eq (integer m) (integer n) = some (m == n)

namespace Store

variable {V : Type}

/-- The entry of a name in any ASCII case. -/
def named? {α : Type} (entries : List (String × α)) (name : String) : Option α :=
  (entries.find? fun entry => Text.sameIgnoringCase entry.1 name).map (·.2)

/-- The value of a column in a joined row. -/
def column (s : Store V) (row : JoinedRow V) (table : Option String) (name : String) : V :=
  let value? : Option V :=
    match table with
    | some table => (named? row table).bind fun columns => named? columns name
    | none => row.findSome? fun entry : String × Row V => named? entry.2 name
  value?.getD s.null

/-- The value of an operator. -/
def operate (s : Store V) (op : BinaryOp) (a b : V) : V :=
  s.ofTruth <|
    match op with
    | .and => Truth.and (s.truth a) (s.truth b)
    | .or => Truth.or (s.truth a) (s.truth b)
    | _ => s.compare op a b

/-- Whether a value is among others. -/
def isAmong (s : Store V) (negated : Bool) (a : V) (values : List V) : V :=
  let found := Truth.any (values.map (s.compare .eq a))
  s.ofTruth (if negated then found.not else found)

/-- Whether two lists of values belong to the same group. -/
def sameKey (s : Store V) (a b : List V) : Bool :=
  a.length == b.length && (a.zip b).all fun (x, y) => s.same x y

/-- The rows with the same key, for each key. -/
def groupsBy {α : Type} (s : Store V) (key : α → List V) (rows : List α) : List (List α) :=
  ((rows.map key).eraseDupsBy s.sameKey).map fun group =>
    rows.filter fun row => s.sameKey group (key row)

/-- The rows for which a condition is true. -/
def satisfying {α : Type} (s : Store V) (condition : α → V) (rows : List α) : List α :=
  rows.filter fun row => s.truth (condition row) = some true

/-- Rows joined with a table on a condition. A left join keeps a row that matches nothing. -/
def joined (s : Store V) (kind : JoinKind) (table : TableRef) (condition : JoinedRow V → V)
    (rows : List (JoinedRow V)) : List (JoinedRow V) :=
  rows.flatMap fun row =>
    let matching := s.satisfying condition
      ((s.rows table.table).map fun columns => row ++ [(table.exposedName, columns)])
    if matching.isEmpty && kind = .left then [row ++ [(table.exposedName, [])]] else matching

end Store

/-! ## Queries -/

/-- Whether a function is an aggregate. -/
def isAggregateName (name : String) : Bool :=
  Expr.aggregateNames.contains (Text.upperAscii name)

/-- Whether the arguments of a call are a star. -/
def isStar : List Expr → Bool
  | [.star _] => true
  | _ => false

/-- The value of a call: of an aggregate by its arguments for every row of the group, of a star
by the number of rows, and of another function by its arguments. -/
def Store.call {V : Type} (s : Store V) (name : String) (args : List Expr)
    (ofRows : List (List V)) (ofGroup : List V) : V :=
  if !isAggregateName name then s.apply name ofGroup
  else if isStar args then s.integer ofRows.length
  else s.summarise (Text.upperAscii name) ofRows

mutual

/-- Whether an expression summarises the rows of a group. -/
def Expr.summarises : Expr → Bool
  | .call name args => isAggregateName name || Expr.anySummarises args
  | .binary _ left right => left.summarises || right.summarises
  | .not operand => operand.summarises
  | .paren inner => inner.summarises
  | .inList operand values _ => operand.summarises || Expr.anySummarises values
  | .inQuery operand _ _ => operand.summarises
  | .column _ _ | .integer _ | .null | .placeholder _ | .star _ => false

/-- Whether one of several expressions summarises. -/
def Expr.anySummarises : List Expr → Bool
  | [] => false
  | e :: rest => e.summarises || Expr.anySummarises rest

end

/-- The groups of rows: one for each key, or without a grouping each row by itself, or all of them
where an aggregate is selected. -/
def Store.groups {V α : Type} (s : Store V) (select : List SelectItem) (groupBy : List Expr)
    (key : α → List V) (rows : List α) : List (List α) :=
  if !groupBy.isEmpty then s.groupsBy key rows
  else if select.any (·.expr.summarises) then [rows]
  else rows.map fun row => [row]

/-- The columns that a star stands for. -/
def starColumns {V : Type} (row : JoinedRow V) : Option String → Row V
  | some table => (Store.named? row table).getD []
  | none => row.flatMap (·.2)

/-- An output column under its alias or its own name, or the columns of a star. -/
def outputColumns {V : Type} (row : JoinedRow V) (expr : Expr) (alias? : Option String)
    (value : V) : Row V :=
  match expr with
  | .star table => starColumns row table
  | .column _ name => [(alias?.getD name, value)]
  | _ => [(alias?.getD "", value)]

mutual

/-- The value of an expression for a group of rows inside the row of an outer query. Aggregates are
computed over the group, everything else for its first row. -/
def Expr.value {V : Type} (s : Store V) (outer : JoinedRow V) (group : List (JoinedRow V)) : Expr → V
  | .column table name => s.column (group.head?.getD [] ++ outer) table name
  | .integer value => s.integer value
  | .null => s.null
  | .placeholder name => s.bound name
  | .binary op left right => s.operate op (left.value s outer group) (right.value s outer group)
  | .not operand => s.ofTruth (s.truth (operand.value s outer group)).not
  | .paren inner => inner.value s outer group
  | .call name args =>
    s.call name args (group.map fun row => Expr.valuesOf s outer [row] args)
      (Expr.valuesOf s outer group args)
  | .inList operand values negated =>
    s.isAmong negated (operand.value s outer group) (Expr.valuesOf s outer group values)
  | .inQuery operand query negated =>
    s.isAmong negated (operand.value s outer group)
      ((query.rows s (group.head?.getD [] ++ outer)).map fun row => (row.head?.map (·.2)).getD s.null)
  | .star _ => s.null

/-- The values of several expressions. -/
def Expr.valuesOf {V : Type} (s : Store V) (outer : JoinedRow V) (group : List (JoinedRow V)) : List Expr → List V
  | [] => []
  | e :: rest => e.value s outer group :: Expr.valuesOf s outer group rest

/-- The row of a group. -/
def SelectItem.rowOf {V : Type} (s : Store V) (outer : JoinedRow V) (group : List (JoinedRow V)) : List SelectItem → Row V
  | [] => []
  | ⟨expr, alias?⟩ :: rest =>
    outputColumns (group.head?.getD []) expr alias? (expr.value s outer group) ++
      SelectItem.rowOf s outer group rest

/-- The rows of a source. -/
def Source.joinedRows {V : Type} (s : Store V) : Source → List (JoinedRow V)
  | .table ref => (s.rows ref.table).map fun row => [(ref.exposedName, row)]
  | .derived query name => (query.rows s []).map fun row => [(name, row)]

/-- Rows joined with further tables. -/
def Join.joinedRows {V : Type} (s : Store V) (outer : JoinedRow V) (rows : List (JoinedRow V)) :
    List Join → List (JoinedRow V)
  | [] => rows
  | ⟨kind, table, on⟩ :: rest =>
    Join.joinedRows s outer (s.joined kind table (fun row => on.value s outer [row]) rows) rest

/-- The rows that a query starts from: those of its source, or one row without tables. -/
def Source.joinedRowsOf {V : Type} (s : Store V) : Option Source → List (JoinedRow V)
  | some source => source.joinedRows s
  | none => [[]]

/-- The rows that satisfy a condition, if there is one. -/
def Expr.filter {V : Type} (s : Store V) (outer : JoinedRow V) (rows : List (JoinedRow V)) :
    Option Expr → List (JoinedRow V)
  | some condition => s.satisfying (fun row => condition.value s outer [row]) rows
  | none => rows

/-- The rows of a query inside the row of an outer query. -/
def Query.rows {V : Type} (s : Store V) (outer : JoinedRow V) : Query → List (Row V)
  | ⟨select, source, joins, condition, groupBy, _, _⟩ =>
    let kept := Expr.filter s outer
      (Join.joinedRows s outer (Source.joinedRowsOf s source) joins) condition
    (s.groups select groupBy (fun row => Expr.valuesOf s outer [row] groupBy) kept).map fun group =>
      SelectItem.rowOf s outer group select

end

variable {V : Type} {s : Store V}

/-! ## Counts and conditions that are never true -/

/-- The query that counts rows gives their number. -/
theorem Query.rows_countQuery (outer : JoinedRow V) (q : Query) :
    q.countQuery.rows s outer =
      [[(Query.countColumn, s.integer (q.rows s []).length)]] := by
  obtain ⟨select, source, joins, condition, groupBy, orderBy, window⟩ := q
  have hcount : isAggregateName "COUNT" = true := by cbv
  simp [Query.countQuery, Query.empty, Query.rows, Source.joinedRowsOf, Source.joinedRows,
    Join.joinedRows, Expr.filter, Store.groups, Expr.countAll, Expr.summarises, Expr.anySummarises,
    hcount, SelectItem.rowOf, outputColumns, Expr.value, Store.call, isStar]

theorem Store.truth_never (outer row : JoinedRow V) :
    s.truth (Expr.never.value s outer [row]) = some false := by
  simp [Expr.never, Expr.eq, Expr.value, Store.operate, s.truth_ofTruth, s.compare_integer]

/-- A condition to which one was added that is never true. -/
theorem Query.condition_andWhere_never (q : Query) :
    ∃ condition, (q.andWhere .never).condition = some condition ∧
      ∀ outer row, s.truth (condition.value s outer [row]) = some false := by
  have hnever := Store.truth_never (s := s)
  unfold andWhere
  split
  · exact ⟨_, rfl, hnever⟩
  · refine ⟨_, rfl, fun outer row => ?_⟩
    simp [Expr.and, Expr.value, Store.operate, s.truth_ofTruth, hnever]
  · refine ⟨_, rfl, fun outer row => ?_⟩
    simp [Expr.and, Expr.value, Store.operate, s.truth_ofTruth, hnever]

theorem Store.groups_nil {α : Type} (select : List SelectItem) (groupBy : List Expr)
    (key : α → List V) : s.groups select groupBy key [] =
      if groupBy = [] ∧ select.any (·.expr.summarises) = true then [[]] else [] := by
  unfold groups
  cases groupBy with
  | nil => by_cases h : select.any (·.expr.summarises) = true <;> simp [h]
  | cons e rest => simp [groupsBy, List.eraseDupsBy, List.eraseDupsBy.loop]

/-- A query with a condition that is never true gives the row of an empty group if it summarises
all rows, and nothing otherwise. -/
theorem Query.rows_andWhere_never (outer : JoinedRow V) (q : Query) :
    (q.andWhere .never).rows s outer =
      if q.groupBy = [] ∧ q.select.any (·.expr.summarises) = true then
        [SelectItem.rowOf s outer [] q.select]
      else [] := by
  obtain ⟨condition, hcondition, hfalse⟩ := Query.condition_andWhere_never (s := s) q
  have hclauses : q.andWhere .never = { q with condition := some condition } := by
    rw [← hcondition]
    rfl
  have hkept : ∀ rows : List (JoinedRow V), Expr.filter s outer rows (some condition) = [] := by
    intro rows
    simp [Expr.filter, Store.satisfying, hfalse]
  obtain ⟨select, source, joins, present, groupBy, orderBy, window⟩ := q
  rw [hclauses, Query.rows, hkept, Store.groups_nil]
  split <;> rfl

end ReportSql
