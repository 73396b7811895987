import ReportSql.Digest.Sha256
import ReportSql.Json.Printer
import ReportSql.Report.Id
import ReportSql.Report.Param

/-!
# Cache keys

A key names one result: of a report, with certain parameters, on one page and for
one set of visible rows. Parameters without a value do not matter to it.

## Main definitions

* `Cache.canonicalParams` - the parameters that matter, in their key form
* `Cache.contentHash` - the digest of a value in compact JSON
* `Cache.key` - the key of a result
-/

namespace ReportSql.Cache

/-- The parameters that have a value, by name, in their key form. -/
def canonicalParams (params : Params) : List (String × String) :=
  (params.filter fun _ value => !value.isEmpty).entries.map fun (name, value) =>
    (name, value.keyForm)

/-- The digest of a value written in compact JSON. -/
def contentHash (value : Json) : String :=
  Sha256.hex value.compact

/-- What a key is made of besides the report. -/
def keyMaterial (params : Params) (page pageSize : UInt64) (scope : String) : Json :=
  .object
    [("params", .array ((canonicalParams params).map fun (name, form) =>
        .array [.string name, .string form])),
      ("page", .integer page.toNat),
      ("page_size", .integer pageSize.toNat),
      ("scope", .string scope)]

/-- The key of a result. -/
def key (report : ReportId) (params : Params) (page pageSize : UInt64) (scope : String) :
    String :=
  "report:" ++ report.text ++ ":" ++ contentHash (keyMaterial params page pageSize scope)

end ReportSql.Cache
