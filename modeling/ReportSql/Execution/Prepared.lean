import ReportSql.Compile.Basic
import ReportSql.Statement.Printer

/-!
# Prepared queries

A query that is ready to run: scoped, and with a value for every placeholder. It
is a statement of an author or a compiled report.

## Main definitions

* `PreparedQuery` - a query that is ready to run
* `PreparedQuery.countSql`, `PreparedQuery.pagedSql` - the queries that are sent
-/

namespace ReportSql

/-- A query that is ready to run. -/
inductive PreparedQuery where
  | raw (statement : Statement) (params : Params) (tablePrefix : String)
  | compiled (query : CompiledQuery)

namespace PreparedQuery

/-- The text of the query. -/
def sql : PreparedQuery → String
  | raw statement _ tablePrefix => statement.render tablePrefix
  | compiled query => query.sql

/-- The text of the query that counts the rows of all pages. -/
def countSql : PreparedQuery → String
  | raw statement _ tablePrefix => statement.countSql tablePrefix
  | compiled query => query.countSql

/-- The text of the query for one page; pages count from zero. -/
def pagedSql (q : PreparedQuery) (page pageSize : UInt64) : String :=
  match q with
  | raw statement _ tablePrefix => statement.pagedSql tablePrefix page pageSize
  | compiled query => query.pagedSql page pageSize

/-- The values of the placeholders. -/
def params : PreparedQuery → Params
  | raw _ params _ => params
  | compiled query => query.params

/-- The remarks for the author. -/
def warnings : PreparedQuery → List String
  | raw _ _ _ => []
  | compiled query => query.warnings

end PreparedQuery

end ReportSql
