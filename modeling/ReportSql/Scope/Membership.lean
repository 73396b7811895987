import ReportSql.Execution.Rows
import ReportSql.Scope.Injection

/-!
# Membership look-up

What a user may see is looked up before a report runs: in a directory held by the
program, or in the membership table of the database.

## Main definitions

* `Directory` - memberships held by the program
* `MembershipTable` - the membership table of a database
* `MembershipTable.lookupSql` - the query for the units of a user
* `MembershipTable.accessOf` - what an answer to that query says
-/

namespace ReportSql

/-- Memberships held by the program: those who see everything, the units of users, and the users
whose look-up fails. -/
structure Directory where
  siteAdmins : List UInt64
  members : List (UInt64 × UInt64)
  unreachable : List UInt64

/-- What a user may see according to a directory. -/
def Directory.access (d : Directory) (user : UInt64) : Except ScopeError Access :=
  if d.unreachable.contains user then .error (.membership "directory offline")
  else
    .ok ⟨d.siteAdmins.contains user,
      UnitSet.ofList ((d.members.filter (·.1 = user)).map (·.2))⟩

/-- The membership table of a database. -/
structure MembershipTable where
  settings : TenantSettings
  dialect : Dialect
  tablePrefix : String

namespace MembershipTable

/-- The alias of the table in the look-up. -/
def tableAlias : String := "m"

/-- The placeholder of the user in the look-up. -/
def userSlot : String := "user_id"

/-- The query for the units of a user. -/
def lookupQuery (t : MembershipTable) : Query :=
  let s := t.settings
  { Query.empty with
    select := [⟨.qualified tableAlias s.membershipUnitColumn, none⟩]
    source := some (.table ⟨t.tablePrefix ++ s.membershipTable, some tableAlias⟩)
    condition := some
      (.binary .eq (.qualified tableAlias s.membershipUserColumn) (.placeholder userSlot)) }

/-- The text of the look-up. -/
def lookupSql (t : MembershipTable) : String :=
  t.lookupQuery.sql t.dialect

/-- The values of the look-up for a user. -/
def lookupParams (user : UInt64) : Params :=
  NameMap.empty.insert userSlot (.ofWord user)

/-- The units in the first column; anything but a unit number is passed over. -/
def unitsIn (rows : List (List Json)) : UnitSet :=
  UnitSet.ofList (rows.filterMap fun row => row.head?.bind Json.word?)

/-- What an answer to the look-up says of a user. -/
def accessOf (t : MembershipTable) (user : UInt64) (answer : Except BackendError RowSet) :
    Except ScopeError Access :=
  match answer with
  | .error e => .error (.membership e.message)
  | .ok result => .ok ⟨t.settings.siteAdmins.contains user, unitsIn result.rows⟩

end MembershipTable

end ReportSql
