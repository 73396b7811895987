import ReportSql.Json.Record

/-!
# Result pages

One page of the output of a report, as it is returned and as it is cached.

## Main definitions

* `ResultPage` - one page of a report
* `ResultPage.toJson`, `ResultPage.ofJson?` - its form in JSON
-/

namespace ReportSql

/-- One page of a report, with the number of rows on all pages. Pages count from zero. -/
structure ResultPage where
  rows : List (List Json)
  columns : List String
  total : UInt64
  page : UInt64
  pageSize : UInt64
  /-- Whether the page comes from the cache. -/
  cached : Bool

namespace ResultPage

/-- The members of a page in JSON. -/
def members (p : ResultPage) : List (String × Json) :=
  [("rows", .array (p.rows.map .array)), ("columns", .array (p.columns.map .string)),
    ("total", .integer p.total.toNat), ("page", .integer p.page.toNat),
    ("page_size", .integer p.pageSize.toNat), ("cached", .bool p.cached)]

/-- The page in JSON. -/
def toJson (p : ResultPage) : Json :=
  .object p.members

/-- Reads a page. -/
def ofJson? (value : Json) : Option ResultPage := do
  let members ← value.record?
    [.required "rows", .required "columns", .required "total", .required "page",
      .required "page_size", .required "cached"]
  let rows ← Json.required? members "rows" (Json.listOf? (Json.listOf? some))
  let columns ← Json.required? members "columns" (Json.listOf? Json.string?)
  let total ← Json.required? members "total" Json.word?
  let page ← Json.required? members "page" Json.word?
  let pageSize ← Json.required? members "page_size" Json.word?
  let cached ← Json.required? members "cached" Json.bool?
  some ⟨rows, columns, total, page, pageSize, cached⟩

end ResultPage

end ReportSql
