import ReportSql.Query.Printer
import ReportSql.Report.Keyword
import ReportSql.Report.Param
import ReportSql.Whitelist

/-!
# Compiled reports

The result of compiling a declarative report, and the errors that its author is
told about.

## Main definitions

* `CompileError` - why a report does not compile
* `CompiledQuery` - a query with the values of its placeholders
* `Compiler` - the whitelist, dialect and table prefix to compile for
-/

namespace ReportSql

/-- What is wrong with a join. -/
inductive JoinFault where
  | noConditions
  | leftIntroducesLeft
  | alreadyJoined
deriving DecidableEq, Repr

/-- The wording of a fault. -/
def JoinFault.message : JoinFault → String
  | noConditions => "no join conditions"
  | leftIntroducesLeft => "a LEFT join must introduce its right table"
  | alreadyJoined => "joins two tables that are already joined"

/-- What is wrong with the value of a parameter. -/
inductive ParamFault where
  | nestedList
  | listOutsideIn
  | listInStatement
  | null
deriving DecidableEq, Repr

/-- The wording of a fault. -/
def ParamFault.message : ParamFault → String
  | nestedList => "IN lists hold scalar values only"
  | listOutsideIn => "a list is only valid with IN"
  | listInStatement => "list values are only supported in declarative IN filters"
  | null => "null cannot be compared"

/-- Why a report does not compile. -/
inductive CompileError where
  | emptyTables
  | emptyColumns
  | disallowedTable (table : String)
  | disallowedColumn (table column : String)
  | unknownAlias (name : String)
  | duplicateAlias (name : String)
  | invalidIdentifier (name : String)
  | unjoinedTable (name : String)
  | invalidJoin (left right : String) (fault : JoinFault)
  | unsupported (keyword : UnsupportedKeyword)
  | missingParameter (name : String)
  | invalidParameter (name : String) (fault : ParamFault)
deriving DecidableEq, Repr

namespace CompileError

/-- The code reported to the author. -/
def reason : CompileError → String
  | emptyTables => "empty-tables"
  | emptyColumns => "empty-columns"
  | disallowedTable _ => "disallowed-table"
  | disallowedColumn _ _ => "disallowed-column"
  | unknownAlias _ => "unknown-alias"
  | duplicateAlias _ => "duplicate-alias"
  | invalidIdentifier _ => "invalid-identifier"
  | unjoinedTable _ => "unjoined-table"
  | invalidJoin _ _ _ => "invalid-join"
  | unsupported keyword =>
    match keyword.set with
    | .aggregate => "unsupported-aggregate"
    | .operator => "unsupported-operator"
    | .direction => "unsupported-direction"
    | .joinType => "unsupported-join-type"
    | .logic => "unsupported-logic"
  | missingParameter _ => "missing-parameter"
  | invalidParameter _ _ => "invalid-parameter"

/-- The wording of an error. -/
def message : CompileError → String
  | emptyTables => "report has no tables"
  | emptyColumns => "report selects no columns"
  | disallowedTable table => "table '" ++ table ++ "' is not in the schema whitelist"
  | disallowedColumn table column =>
    "column '" ++ table ++ "." ++ column ++ "' is not in the schema whitelist"
  | unknownAlias name => "unknown table alias '" ++ name ++ "'"
  | duplicateAlias name => "table alias '" ++ name ++ "' is used twice"
  | invalidIdentifier name => "'" ++ name ++ "' is not a valid identifier"
  | unjoinedTable name => "table '" ++ name ++ "' is not joined to any earlier table"
  | invalidJoin left right fault =>
    "invalid join " ++ left ++ " -> " ++ right ++ ": " ++ fault.message
  | unsupported keyword => keyword.message
  | missingParameter name => "missing parameter '" ++ name ++ "'"
  | invalidParameter name fault => "invalid parameter '" ++ name ++ "': " ++ fault.message

end CompileError

/-- Reads a keyword as a part of a report. -/
def keyword {α : Type} (parsed : Except UnsupportedKeyword α) : Except CompileError α :=
  match parsed with
  | .ok value => .ok value
  | .error e => .error (.unsupported e)

/-- A query with the values of its placeholders and remarks for the author. -/
structure CompiledQuery where
  query : Query
  params : Params
  warnings : List String
  dialect : Dialect

namespace CompiledQuery

/-- The text of the query. -/
def sql (c : CompiledQuery) : String :=
  c.query.sql c.dialect

/-- The text of the query that counts the rows, without order and paging. -/
def countSql (c : CompiledQuery) : String :=
  c.query.countQuery.sql c.dialect

/-- The text of one page; pages count from zero. -/
def pagedSql (c : CompiledQuery) (page pageSize : UInt64) : String :=
  (c.query.paged page pageSize).sql c.dialect

end CompiledQuery

/-- What reports are compiled for. -/
structure Compiler where
  whitelist : Whitelist
  dialect : Dialect
  tablePrefix : String

end ReportSql
