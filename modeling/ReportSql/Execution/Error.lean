import ReportSql.Compile.Basic
import ReportSql.Execution.Rows
import ReportSql.Report.Id
import ReportSql.Scope.Injection
import ReportSql.Validation

/-!
# Errors of report runs

Every way in which a report fails, with two texts of it: one for the log, and a
report for the caller that hides the details of failed queries.

## Main definitions

* `ReportError` - why a report fails
* `ErrorReport` - what the caller is told
* `ReportError.report` - the report of an error
-/

namespace ReportSql

/-- Why running the queries of a report fails. -/
inductive ExecutionError where
  | timeout (seconds : UInt64)
  | backend (cause : BackendError)
  | missingTotal
deriving DecidableEq, Repr

/-- A number of whole seconds as a length of time. -/
def secondsText (seconds : UInt64) : String :=
  if seconds = 0 then "0ns" else toString seconds.toNat ++ "s"

/-- The wording of an error. -/
def ExecutionError.message : ExecutionError → String
  | timeout seconds => "query exceeded the " ++ secondsText seconds ++ " timeout"
  | backend cause => cause.message
  | missingTotal => "count query returned no total"

/-- Why a report fails. -/
inductive ReportError where
  | validation (cause : ValidationError)
  | compile (cause : CompileError)
  | scope (cause : ScopeError)
  | execution (cause : ExecutionError)
  | busy
  | unknownReport (cause : UnknownReport)
deriving DecidableEq, Repr

/-- What the caller is told of an error: a code and a detail. -/
structure ErrorReport where
  reason : String
  detail : String
deriving DecidableEq, Repr

/-- The report in JSON. -/
def ErrorReport.toJson (r : ErrorReport) : Json :=
  .object [("ok", .bool false), ("reason", .string r.reason), ("detail", .string r.detail)]

namespace ReportError

/-- The wording of an error. -/
def message : ReportError → String
  | validation cause => "validation failed: " ++ cause.message
  | compile cause => "compile failed: " ++ cause.message
  | scope cause => "tenant scoping failed: " ++ cause.message
  | execution cause => "execution failed: " ++ cause.message
  | busy => "too many reports are running"
  | unknownReport cause => cause.message

/-- Whether the report itself is at fault, so that another run cannot help. -/
def isDefinitionError : ReportError → Bool
  | validation _ | compile _ => true
  | scope cause => cause.isDefinitionError
  | _ => false

/-- Whether another run may succeed. -/
def isRetryable : ReportError → Bool
  | busy | execution (.timeout _) => true
  | _ => false

/-- What the caller is told. The causes of failed queries and lookups stay hidden. -/
def report : ReportError → ErrorReport
  | validation (.malformed message) => ⟨"malformed", message⟩
  | validation cause => ⟨cause.message, cause.detail⟩
  | compile cause => ⟨cause.reason, cause.message⟩
  | scope (.membership _) =>
    ⟨"scope-membership", "organisational memberships could not be resolved"⟩
  | scope cause => ⟨cause.reason, cause.message⟩
  | execution (.timeout seconds) =>
    ⟨"execution-timeout",
      "the report did not finish within " ++ toString seconds.toNat ++ " seconds"⟩
  | execution _ => ⟨"execution-failed", "the report could not be executed"⟩
  | busy => ⟨"busy", "too many reports are running; try again shortly"⟩
  | unknownReport cause => ⟨"unknown-report", cause.name⟩

end ReportError

end ReportSql
