import ReportSql.Json.Basic

/-!
# Query results

What a database answers to a query: rows under column labels, or an error.

## Main definitions

* `RowSet` - the rows of a result
* `RowSet.total?` - the number in a result that counts rows
* `BackendError` - why a query has no result
-/

namespace ReportSql

/-- The rows of a result with the labels of their columns. -/
structure RowSet where
  columns : List String
  rows : List (List Json)

/-- The result without columns and rows. -/
def RowSet.empty : RowSet := ⟨[], []⟩

instance : Inhabited RowSet := ⟨RowSet.empty⟩

/-- The first value of the first row, when it is a number of rows. -/
def RowSet.total? (r : RowSet) : Option UInt64 :=
  r.rows.head?.bind fun row => row.head?.bind Json.word?

/-- Why a query has no result. -/
inductive BackendError where
  | sqlite (message : String)
  | missingParameter (name : String)
  | unsupportedValue (name : String)
  | task (message : String)
  | poisoned
deriving DecidableEq, Repr

/-- The wording of an error. -/
def BackendError.message : BackendError → String
  | sqlite message => "SQLite error: " ++ message
  | missingParameter name => "no value bound for parameter '" ++ name ++ "'"
  | unsupportedValue name => "parameter '" ++ name ++ "' cannot be bound as a scalar"
  | task message => "backend task failed: " ++ message
  | poisoned => "connection lock poisoned"

end ReportSql
