import ReportSql.Json.Parser

/-!
# Declarative reports

A declarative report lists its tables, output columns, joins, filters, grouping
and order. Keywords stay as they were written; they are read when the report is
compiled.

## Main definitions

* `QueryConfig` - a declarative report
* `QueryConfig.columnRefs` - every column that it mentions
* `QueryConfig.ofJson?`, `QueryConfig.toJson` - its form in JSON
* `QueryConfig.parse?` - the report written by a text
-/

namespace ReportSql

/-- A table of a report; its alias is its name unless one is given. -/
structure TableSpec where
  table : String
  alias? : Option String
deriving DecidableEq, Repr

/-- The name by which the rest of the report knows the table. -/
def TableSpec.name (t : TableSpec) : String :=
  t.alias?.getD t.table

/-- A column of a table, given by the table's alias. -/
structure ColumnRef where
  table : String
  column : String
deriving DecidableEq, Repr

/-- The text of a column reference. -/
def ColumnRef.text (c : ColumnRef) : String :=
  c.table ++ "." ++ c.column

/-- An output column, possibly summarised and under an alias. -/
structure ColumnSpec where
  table : String
  column : String
  aggregate : Option String
  alias? : Option String
deriving DecidableEq, Repr

/-- A join of two tables on equal columns, each pair with the column of the left table first. -/
structure JoinSpec where
  left : String
  right : String
  joinType : String
  on : List (String × String)
deriving DecidableEq, Repr

/-- A comparison of a column with a request parameter. -/
structure FilterSpec where
  table : String
  column : String
  operator : String
  param : String
  logic : Option String
deriving DecidableEq, Repr

/-- One key of the order. -/
structure OrderSpec where
  table : String
  column : String
  direction : Option String
deriving DecidableEq, Repr

/-- A declarative report. -/
structure QueryConfig where
  tables : List TableSpec
  columns : List ColumnSpec
  joins : List JoinSpec
  filters : List FilterSpec
  groupBy : List ColumnRef
  orderBy : List OrderSpec
deriving DecidableEq, Repr

/-- The column of an output column. -/
def ColumnSpec.ref (c : ColumnSpec) : ColumnRef := ⟨c.table, c.column⟩

/-- The columns of a join, pair by pair. -/
def JoinSpec.refs (j : JoinSpec) : List ColumnRef :=
  j.on.flatMap fun (l, r) => [⟨j.left, l⟩, ⟨j.right, r⟩]

/-- Every column that a report mentions, clause by clause. -/
def QueryConfig.columnRefs (c : QueryConfig) : List ColumnRef :=
  c.columns.map ColumnSpec.ref ++ c.joins.flatMap JoinSpec.refs ++
    c.filters.map (fun f => ⟨f.table, f.column⟩) ++ c.groupBy ++
    c.orderBy.map (fun o => ⟨o.table, o.column⟩)

/-! ## JSON -/

/-- A member that is left out when it has no value. -/
def optionalMember (key : String) : Option String → List (String × Json)
  | some text => [(key, .string text)]
  | none => []

/-- The members of a table. -/
def TableSpec.members : List Json.Member :=
  [.required "table", .omissible "alias"]

/-- Reads a table. -/
def TableSpec.ofJson? (value : Json) : Option TableSpec := do
  let members ← value.record? TableSpec.members
  let table ← Json.required? members "table" Json.string?
  let alias? ← Json.optional? members "alias" Json.string?
  some ⟨table, alias?⟩

/-- Writes a table. -/
def TableSpec.toJson (t : TableSpec) : Json :=
  .object (("table", .string t.table) :: optionalMember "alias" t.alias?)

/-- The members of a column reference. -/
def ColumnRef.members : List Json.Member :=
  [.required "table", .required "column"]

/-- Reads a column reference. -/
def ColumnRef.ofJson? (value : Json) : Option ColumnRef := do
  let members ← value.record? ColumnRef.members
  let table ← Json.required? members "table" Json.string?
  let column ← Json.required? members "column" Json.string?
  some ⟨table, column⟩

/-- Writes a column reference. -/
def ColumnRef.toJson (c : ColumnRef) : Json :=
  .object [("table", .string c.table), ("column", .string c.column)]

/-- The members of an output column. -/
def ColumnSpec.members : List Json.Member :=
  [.required "table", .required "column", .omissible "aggregate", .omissible "alias"]

/-- Reads an output column. -/
def ColumnSpec.ofJson? (value : Json) : Option ColumnSpec := do
  let members ← value.record? ColumnSpec.members
  let table ← Json.required? members "table" Json.string?
  let column ← Json.required? members "column" Json.string?
  let aggregate ← Json.optional? members "aggregate" Json.string?
  let alias? ← Json.optional? members "alias" Json.string?
  some ⟨table, column, aggregate, alias?⟩

/-- Writes an output column. -/
def ColumnSpec.toJson (c : ColumnSpec) : Json :=
  .object ([("table", .string c.table), ("column", .string c.column)] ++
    optionalMember "aggregate" c.aggregate ++ optionalMember "alias" c.alias?)

/-- Reads a pair of columns. -/
def columnPair? : Json → Option (String × String)
  | .array [.string l, .string r] => some (l, r)
  | _ => none

/-- The members of a join. -/
def JoinSpec.members : List Json.Member :=
  [.required "left", .required "right", .omissible "type", .omissible "on"]

/-- Reads a join; its type is an inner join unless one is given. -/
def JoinSpec.ofJson? (value : Json) : Option JoinSpec := do
  let members ← value.record? JoinSpec.members
  let left ← Json.required? members "left" Json.string?
  let right ← Json.required? members "right" Json.string?
  let joinType ← Json.defaulted? members "type" "inner" Json.string?
  let on ← Json.defaulted? members "on" [] (Json.listOf? columnPair?)
  some ⟨left, right, joinType, on⟩

/-- Writes a join. -/
def JoinSpec.toJson (j : JoinSpec) : Json :=
  .object
    [("left", .string j.left), ("right", .string j.right), ("type", .string j.joinType),
      ("on", .array (j.on.map fun (l, r) => .array [.string l, .string r]))]

/-- The members of a filter. -/
def FilterSpec.members : List Json.Member :=
  [.required "table", .required "column", .required "operator", .required "param",
    .omissible "logic"]

/-- Reads a filter. -/
def FilterSpec.ofJson? (value : Json) : Option FilterSpec := do
  let members ← value.record? FilterSpec.members
  let table ← Json.required? members "table" Json.string?
  let column ← Json.required? members "column" Json.string?
  let operator ← Json.required? members "operator" Json.string?
  let param ← Json.required? members "param" Json.string?
  let logic ← Json.optional? members "logic" Json.string?
  some ⟨table, column, operator, param, logic⟩

/-- Writes a filter. -/
def FilterSpec.toJson (f : FilterSpec) : Json :=
  .object ([("table", .string f.table), ("column", .string f.column),
    ("operator", .string f.operator), ("param", .string f.param)] ++
    optionalMember "logic" f.logic)

/-- The members of a key of the order. -/
def OrderSpec.members : List Json.Member :=
  [.required "table", .required "column", .omissible "direction"]

/-- Reads a key of the order. -/
def OrderSpec.ofJson? (value : Json) : Option OrderSpec := do
  let members ← value.record? OrderSpec.members
  let table ← Json.required? members "table" Json.string?
  let column ← Json.required? members "column" Json.string?
  let direction ← Json.optional? members "direction" Json.string?
  some ⟨table, column, direction⟩

/-- Writes a key of the order. -/
def OrderSpec.toJson (o : OrderSpec) : Json :=
  .object ([("table", .string o.table), ("column", .string o.column)] ++
    optionalMember "direction" o.direction)

/-- The members of a report. -/
def QueryConfig.members : List Json.Member :=
  [.omissible "tables" (.list (.record TableSpec.members)),
    .omissible "columns" (.list (.record ColumnSpec.members)),
    .omissible "joins" (.list (.record JoinSpec.members)),
    .omissible "filters" (.list (.record FilterSpec.members)),
    .omissible "groupby" (.list (.record ColumnRef.members)),
    .omissible "orderby" (.list (.record OrderSpec.members))]

/-- Reads a report; every part may be left out. -/
def QueryConfig.ofJson? (value : Json) : Option QueryConfig := do
  let members ← value.record? QueryConfig.members
  let tables ← Json.defaulted? members "tables" [] (Json.listOf? TableSpec.ofJson?)
  let columns ← Json.defaulted? members "columns" [] (Json.listOf? ColumnSpec.ofJson?)
  let joins ← Json.defaulted? members "joins" [] (Json.listOf? JoinSpec.ofJson?)
  let filters ← Json.defaulted? members "filters" [] (Json.listOf? FilterSpec.ofJson?)
  let groupBy ← Json.defaulted? members "groupby" [] (Json.listOf? ColumnRef.ofJson?)
  let orderBy ← Json.defaulted? members "orderby" [] (Json.listOf? OrderSpec.ofJson?)
  some ⟨tables, columns, joins, filters, groupBy, orderBy⟩

/-- Reads the text of a report. What it does not know is passed over unread. -/
def QueryConfig.parse? (text : String) : Option QueryConfig :=
  (Json.parseAs? (.record QueryConfig.members) text).bind QueryConfig.ofJson?

/-- Writes a report. -/
def QueryConfig.toJson (c : QueryConfig) : Json :=
  .object
    [("tables", .array (c.tables.map TableSpec.toJson)),
      ("columns", .array (c.columns.map ColumnSpec.toJson)),
      ("joins", .array (c.joins.map JoinSpec.toJson)),
      ("filters", .array (c.filters.map FilterSpec.toJson)),
      ("groupby", .array (c.groupBy.map ColumnRef.toJson)),
      ("orderby", .array (c.orderBy.map OrderSpec.toJson))]

end ReportSql
