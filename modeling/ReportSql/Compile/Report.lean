import ReportSql.Compile.Filters
import ReportSql.Compile.Joins
import ReportSql.Statement.Basic

/-!
# Compiling reports

A declarative report becomes a query over whitelisted tables and columns, and
every value of the request becomes a placeholder. All names are checked before
anything is put together.

## Main definitions

* `Compiler.compile` - the query of a declarative report
* `Compiler.bindPlaceholders` - the values for the placeholders of an author statement
-/

namespace ReportSql.Compiler

/-- The aggregate of an output column; a blank one counts as none. -/
def aggregateOf (spec : ColumnSpec) : Except CompileError (Option Aggregate) :=
  match spec.aggregate with
  | none => .ok none
  | some name =>
    if (Text.trim name).isEmpty then .ok none
    else do
      let aggregate ← keyword (Aggregate.parse name)
      .ok (some aggregate)

/-- An output column. A summarised one without an alias is named after its aggregate. -/
def selectItem (spec : ColumnSpec) : Except CompileError SelectItem := do
  let column := Expr.qualified spec.table spec.column
  let aggregate ← aggregateOf spec
  let expr := match aggregate with
    | some aggregate => aggregate.apply column
    | none => column
  match spec.alias?, aggregate with
  | some name, _ => do
    checkIdentifier name
    .ok ⟨expr, some name⟩
  | none, some aggregate => .ok ⟨expr, some (aggregate.name ++ "_" ++ spec.column)⟩
  | none, none => .ok ⟨expr, none⟩

/-- The columns that are selected as they are. -/
def plainColumns (columns : List ColumnSpec) : List ColumnRef :=
  (columns.filter fun spec => (spec.aggregate.all fun name => (Text.trim name).isEmpty)).map
    ColumnSpec.ref

/-- A remark for each plain column of a summarised report that is not grouped. -/
def warningsFor (config : QueryConfig) (select : List SelectItem) : List String :=
  if select.any (·.expr.isAggregate) || !config.groupBy.isEmpty then
    ((plainColumns config.columns).filter (!config.groupBy.contains ·)).map fun column =>
      "column " ++ column.text ++ " is selected but neither aggregated nor grouped"
  else []

/-- A key of the order. -/
def orderItem (spec : OrderSpec) : Except CompileError OrderItem := do
  let direction ← keyword (Direction.parse (spec.direction.getD ""))
  .ok ⟨.qualified spec.table spec.column, direction⟩

/-- The query of a report with the values of its placeholders. -/
def compile (c : Compiler) (config : QueryConfig) (params : Params) :
    Except CompileError CompiledQuery := do
  let tables ← c.resolveTables config.tables
  config.columnRefs.forM (c.checkColumn tables)
  if config.columns.isEmpty then
    .error .emptyColumns
  else
    let select ← config.columns.mapM selectItem
    let joined ← c.joinTables tables config.joins
    let (condition, bound) ← compileFilters config.filters params
    let orderBy ← config.orderBy.mapM orderItem
    let query :=
      { joined with
        select, condition, orderBy
        groupBy := config.groupBy.map fun column => .qualified column.table column.column }
    .ok ⟨query, bound, warningsFor config select, c.dialect⟩

/-- The value for one placeholder of an author statement. -/
def bindPlaceholder (params : Params) (name : String) :
    Except CompileError (String × ParamValue) :=
  match params.get? name with
  | none => .error (.missingParameter name)
  | some (.list _) => .error (.invalidParameter name .listInStatement)
  | some value => .ok (name, value)

/-- The values for all placeholders of an author statement, looked up in the order of their
names. -/
def bindPlaceholders (s : Statement) (params : Params) : Except CompileError Params := do
  let bound ← (NameSet.ofNames s.placeholders).names.mapM (bindPlaceholder params)
  .ok (NameMap.ofList bound)

end ReportSql.Compiler
