import ReportSql.Report.Definition

/-!
# The report registry

The reports that can be run by their identity: the built-in ones, and custom
definitions added by number. A report added under an identity in use replaces
the one before.

## Main definitions

* `Registry` - reports in the order of their identities
* `Registry.insert`, `Registry.get` - adding and finding a report
* `Registry.builtins` - the built-in reports
-/

namespace ReportSql

/-- Reports in the order of their identities. -/
structure Registry where
  reports : List ReportDefinition

namespace Registry

/-- The registry without reports. -/
def empty : Registry := ⟨[]⟩

/-- Sets a report in a list ordered by identity. -/
def insertSorted (d : ReportDefinition) : List ReportDefinition → List ReportDefinition
  | [] => [d]
  | first :: rest =>
    if d.id.rank < first.id.rank then d :: first :: rest
    else if d.id = first.id then d :: rest
    else first :: insertSorted d rest

/-- Adds a report, or replaces the one of the same identity. -/
def insert (r : Registry) (d : ReportDefinition) : Registry :=
  ⟨insertSorted d r.reports⟩

/-- The report of an identity. -/
def get (r : Registry) (id : ReportId) : Except UnknownReport ReportDefinition :=
  match r.reports.find? (·.id = id) with
  | some d => .ok d
  | none => .error ⟨id.text⟩

/-- The identities in their order. -/
def ids (r : Registry) : List ReportId :=
  r.reports.map (·.id)

/-- How many reports there are. -/
def size (r : Registry) : Nat :=
  r.reports.length

/-! ## The built-in reports -/

/-- A plain output column under an alias. -/
def column (table name label : String) : ColumnSpec :=
  ⟨table, name, none, some label⟩

/-- An inner join on one pair of columns. -/
def innerJoin (left right leftColumn rightColumn : String) : JoinSpec :=
  ⟨left, right, "inner", [(leftColumn, rightColumn)]⟩

/-- The number of enrolments of each course. -/
def courseEnrolments : ReportDefinition :=
  { ReportDefinition.of (.builtin .courseEnrolments) "Course enrolments"
      (.declarative
        { tables := [⟨"course", some "c"⟩, ⟨"enrolment", some "e"⟩, ⟨"user", some "u"⟩]
          columns :=
            [column "c" "fullname" "course", ⟨"e", "id", some "count", some "enrolled"⟩]
          joins := [innerJoin "c" "e" "id" "course_id", innerJoin "e" "u" "user_id" "id"]
          filters :=
            [⟨"e", "status", "=", "status", none⟩, ⟨"u", "deleted", "=", "deleted", some "and"⟩]
          groupBy := [⟨"c", "fullname"⟩]
          orderBy := [⟨"c", "fullname", some "asc"⟩] }) with
    defaults := NameMap.ofList [("status", .int 0), ("deleted", .int 0)] }

/-- The lines of a text. -/
def lines (parts : List String) : String :=
  "\n".intercalate parts

/-- The users who were last seen before a point in time. -/
def inactiveUsers : ReportDefinition :=
  { ReportDefinition.of (.builtin .inactiveUsers) "Inactive users"
      (.rawSql (lines
        ["SELECT u.id, u.username, u.firstname, u.lastname, u.lastaccess",
          "           FROM \x7buser\x7d u",
          "          WHERE u.deleted = 0",
          "            AND u.suspended = 0",
          "            AND u.lastaccess < :cutoff",
          "       ORDER BY u.lastaccess ASC, u.id ASC"])) with
    defaults := NameMap.ofList [("cutoff", .int 0)]
    cacheTtl := some 300 }

/-- The number of completions of each course. -/
def courseCompletions : ReportDefinition :=
  .of (.builtin .courseCompletions) "Course completions"
    (.rawSql (lines
      ["SELECT c.fullname AS course, COUNT(cc.id) AS completed",
        "           FROM \x7bcompletion\x7d cc",
        "           JOIN \x7bcourse\x7d c ON c.id = cc.course_id",
        "           JOIN \x7buser\x7d u ON u.id = cc.user_id",
        "          WHERE cc.timecompleted IS NOT NULL",
        "       GROUP BY c.fullname",
        "       ORDER BY c.fullname"]))

/-- The members of each unit. -/
def unitMembers : ReportDefinition :=
  .of (.builtin .unitMembers) "Unit members"
    (.declarative
      { tables := [⟨"unit", some "n"⟩, ⟨"membership", some "m"⟩, ⟨"user", some "u"⟩]
        columns :=
          [column "n" "name" "unit", column "u" "username" "username",
            column "u" "email" "email", column "m" "role" "role"]
        joins := [innerJoin "n" "m" "id" "unit_id", innerJoin "m" "u" "user_id" "id"]
        filters := []
        groupBy := []
        orderBy := [⟨"n", "name", some "asc"⟩, ⟨"u", "username", some "asc"⟩] })

/-- The built-in report of a kind. -/
def builtin : ReportKind → ReportDefinition
  | .courseEnrolments => courseEnrolments
  | .inactiveUsers => inactiveUsers
  | .courseCompletions => courseCompletions
  | .unitMembers => unitMembers

/-- The registry of the built-in reports. -/
def builtins : Registry :=
  (ReportKind.all.map builtin).foldl insert empty

end Registry

end ReportSql
