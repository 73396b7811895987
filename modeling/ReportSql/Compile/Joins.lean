import ReportSql.Compile.Basic
import ReportSql.Report.Config

/-!
# Compiling tables and joins

The tables of a report under their aliases, and the FROM clause with one join for
every table after the first. Each later table takes the first unused join that
links it to a table already placed.

## Main definitions

* `Compiler.resolveTables` - the tables of a report
* `Compiler.checkColumn` - whether a column may be used
* `Compiler.joinTables` - the query with its source and joins
-/

namespace ReportSql

/-- A whitelisted table in lower case and the alias under which the report knows it. -/
structure AliasedTable where
  name : String
  table : String
deriving DecidableEq, Repr

/-- A name that must be a plain identifier. -/
def checkIdentifier (name : String) : Except CompileError Unit :=
  if Dialect.isPlainIdentifier name then .ok () else .error (.invalidIdentifier name)

namespace Compiler

/-- The tables of a report, given the aliases of the tables before them. -/
def resolveTablesAfter (c : Compiler) (seen : List String) :
    List TableSpec → Except CompileError (List AliasedTable)
  | [] => .ok []
  | spec :: rest => do
    if !c.whitelist.allowsTable spec.table then
      .error (.disallowedTable spec.table)
    else
      checkIdentifier spec.name
      if seen.contains spec.name then
        .error (.duplicateAlias spec.name)
      else
        let tables ← c.resolveTablesAfter (spec.name :: seen) rest
        .ok (⟨spec.name, Text.lowerAscii spec.table⟩ :: tables)

/-- The tables of a report; there must be one. -/
def resolveTables (c : Compiler) (specs : List TableSpec) :
    Except CompileError (List AliasedTable) :=
  if specs.isEmpty then .error .emptyTables else c.resolveTablesAfter [] specs

/-- A column must belong to the table behind its alias. -/
def checkColumn (c : Compiler) (tables : List AliasedTable) (column : ColumnRef) :
    Except CompileError Unit :=
  match tables.find? (·.name == column.table) with
  | none => .error (.unknownAlias column.table)
  | some t =>
    if c.whitelist.allowsColumn t.table column.column then .ok ()
    else .error (.disallowedColumn t.table column.column)

/-- A table as it stands in the query. -/
def tableRef (c : Compiler) (t : AliasedTable) : TableRef :=
  ⟨c.tablePrefix ++ t.table, some t.name⟩

/-- A join must link known tables and have a condition. -/
def checkJoin (tables : List AliasedTable) (join : JoinSpec) : Except CompileError Unit :=
  let known (name : String) := tables.any (·.name == name)
  if !known join.left then .error (.unknownAlias join.left)
  else if !known join.right then .error (.unknownAlias join.right)
  else if join.on.isEmpty then .error (.invalidJoin join.left join.right .noConditions)
  else .ok ()

/-- Whether a join links a table to one that is placed. -/
def links (placed : List String) (name : String) (join : JoinSpec) : Bool :=
  (join.right == name && placed.contains join.left) ||
    (join.left == name && placed.contains join.right)

/-- The first element that passes a test, and the others in their order. -/
def takeFirst? {α : Type} (test : α → Bool) : List α → Option (α × List α)
  | [] => none
  | a :: rest =>
    if test a then some (a, rest)
    else (takeFirst? test rest).map fun (found, others) => (found, a :: others)

/-- The equality of the columns of a pair. -/
def pairCondition (join : JoinSpec) (pair : String × String) : Expr :=
  .eq (.qualified join.left pair.1) (.qualified join.right pair.2)

/-- The condition of a join: all pairs are equal. -/
def joinCondition (join : JoinSpec) : Except CompileError Expr :=
  match join.on.map (pairCondition join) with
  | [] => .error (.invalidJoin join.left join.right .noConditions)
  | first :: rest => .ok (rest.foldl Expr.and first)

/-- One join for each table in turn, given the aliases already placed and the joins not yet used.
Every join has to be used in the end. -/
def placeTables (c : Compiler) (placed : List String) (unused : List JoinSpec) :
    List AliasedTable → Except CompileError (List Join)
  | [] =>
    match unused with
    | [] => .ok []
    | join :: _ => .error (.invalidJoin join.left join.right .alreadyJoined)
  | t :: rest =>
    match takeFirst? (links placed t.name) unused with
    | none => .error (.unjoinedTable t.name)
    | some (join, others) => do
      let kind ← keyword (JoinKind.parse join.joinType)
      if kind = .left && join.right ≠ t.name then
        .error (.invalidJoin join.left join.right .leftIntroducesLeft)
      else
        let on ← joinCondition join
        let joins ← c.placeTables (t.name :: placed) others rest
        .ok (⟨kind, c.tableRef t, on⟩ :: joins)

/-- The query with its source and joins and nothing else. -/
def joinTables (c : Compiler) (tables : List AliasedTable) (joins : List JoinSpec) :
    Except CompileError Query :=
  match tables with
  | [] => .error .emptyTables
  | first :: rest => do
    joins.forM (checkJoin tables)
    let joined ← c.placeTables [first.name] joins rest
    .ok { Query.empty with source := some (.table (c.tableRef first)), joins := joined }

end Compiler

end ReportSql
