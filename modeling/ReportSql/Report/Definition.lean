import ReportSql.Report.Config
import ReportSql.Report.Id
import ReportSql.Report.Param

/-!
# Report definitions

A report is a statement written by its author or a declarative report, together
with default parameters and a caching policy.

## Main definitions

* `ReportQuery` - the query behind a report
* `ReportDefinition` - a report
* `ReportDefinition.ofJson?`, `ReportDefinition.toJson` - its form in JSON
* `ReportDefinition.parse?` - the report written by a text
-/

namespace ReportSql

/-- The query behind a report. -/
inductive ReportQuery where
  | rawSql (sql : String)
  | declarative (config : QueryConfig)

namespace ReportQuery

/-- The names of the two modes, in order. -/
def modes : List String := ["raw_sql", "declarative"]

/-- The name of the mode of a query. -/
def mode : ReportQuery → String
  | rawSql _ => "raw_sql"
  | declarative _ => "declarative"

end ReportQuery

/-- A report. Its results may be cached for a time of its own, in seconds. -/
structure ReportDefinition where
  id : ReportId
  name : String
  query : ReportQuery
  defaults : Params
  cacheTtl : Option UInt64
  cacheable : Bool

namespace ReportDefinition

/-- A cacheable report without default parameters. -/
def of (id : ReportId) (name : String) (query : ReportQuery) : ReportDefinition :=
  ⟨id, name, query, NameMap.empty, none, true⟩

/-- Reads the name of a mode; its position will do as well. -/
def mode? : Json → Option String
  | .string name => ReportQuery.modes.find? (· == name)
  | .integer n => if 0 ≤ n then ReportQuery.modes[n.toNat]? else none
  | _ => none

/-- Reads the query of a report from the members of its record; members of the other mode do not
matter. -/
def query? (value : Json) : Option ReportQuery := do
  let members ← value.record? [.required "mode"]
  let mode ← Json.required? members "mode" mode?
  if mode = "raw_sql" then
    let members ← value.record? [.required "sql"]
    let sql ← Json.required? members "sql" Json.string?
    some (.rawSql sql)
  else
    let members ← value.record? [.required "config"]
    let config ← Json.required? members "config" QueryConfig.ofJson?
    some (.declarative config)

/-- Reads a report. The members of its query stand beside its own, so it has no positional form. -/
def ofJson? (value : Json) : Option ReportDefinition :=
  match value with
  | .object _ => do
    let members ← value.record?
      [.required "id", .required "name", .omissible "default_params", .omissible "cache_ttl",
        .omissible "cacheable"]
    let id ← Json.required? members "id" ReportId.ofJson?
    let name ← Json.required? members "name" Json.string?
    let query ← query? value
    let defaults ← Json.defaulted? members "default_params" NameMap.empty Params.ofJson?
    let cacheTtl ← Json.optional? members "cache_ttl" Json.word?
    let cacheable ← Json.defaulted? members "cacheable" true Json.bool?
    some ⟨id, name, query, defaults, cacheTtl, cacheable⟩
  | _ => none

/-- Reads the text of a report. -/
def parse? (text : String) : Option ReportDefinition :=
  (Json.parse? text).bind ofJson?

/-- Writes a report. -/
def toJson (d : ReportDefinition) : Json :=
  .object ([("id", d.id.toJson), ("name", .string d.name), ("mode", .string d.query.mode),
    match d.query with
    | .rawSql sql => ("sql", .string sql)
    | .declarative config => ("config", config.toJson),
    ("default_params", Params.toJson d.defaults)] ++
    (match d.cacheTtl with
      | some seconds => [("cache_ttl", .integer seconds.toNat)]
      | none => []) ++
    [("cacheable", .bool d.cacheable)])

end ReportDefinition

end ReportSql
