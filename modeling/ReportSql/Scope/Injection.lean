import ReportSql.Compile.Basic
import ReportSql.Scope.Basic
import ReportSql.Statement.Tables

/-!
# Scoping queries

A restriction to units becomes a condition on the user table of a query: the user
belongs to one of the units. Without units the condition holds of no row. A query
to which the condition cannot be added safely is refused.

## Main definitions

* `TenantSettings` - the names of the tables and columns involved
* `ScopeError` - why a query cannot be scoped
* `Injector.predicate` - the condition of a set of units and its values
* `Injector.injectQuery`, `Injector.injectStatement` - a query with the condition added
-/

namespace ReportSql

/-- How tenancy is set up: the alias and column of the user table in reports, the membership table
with its columns, and the users who see everything. -/
structure TenantSettings where
  enabled : Bool
  userAlias : String
  userColumn : String
  membershipTable : String
  membershipUserColumn : String
  membershipUnitColumn : String
  siteAdmins : List UInt64
deriving DecidableEq, Repr

/-- Why a query cannot be scoped. -/
inductive ScopeError where
  | missingUserAlias (name : String)
  | setOperation
  | placeholderCollision (name : String)
  | membership (cause : String)
deriving DecidableEq, Repr

namespace ScopeError

/-- The code reported to the author. -/
def reason : ScopeError → String
  | missingUserAlias _ => "scope-missing-user-alias"
  | setOperation => "scope-set-operation"
  | placeholderCollision _ => "scope-placeholder-collision"
  | membership _ => "scope-membership"

/-- The wording of an error. -/
def message : ScopeError → String
  | missingUserAlias name => "query has no top-level '" ++ name ++ "' user alias to scope by"
  | setOperation => "queries combining several SELECTs cannot be scoped"
  | placeholderCollision name => "placeholder '" ++ name ++ "' is reserved for tenant scoping"
  | membership cause => "membership lookup failed: " ++ cause

/-- Whether the report itself is at fault. -/
def isDefinitionError : ScopeError → Bool
  | membership _ => false
  | _ => true

end ScopeError

/-- What queries are scoped with. -/
structure Injector where
  settings : TenantSettings
  tablePrefix : String

namespace Injector

/-- The names that are reserved for the values of a scope start like this. -/
def reservedStart : String := "scope_unit_"

/-- A reserved name. -/
def isReserved (name : String) : Bool :=
  reservedStart.toList.isPrefixOf name.toList

/-- The placeholder of the unit at a position. -/
def slotName (position : Nat) : String :=
  reservedStart ++ toString position

/-- The placeholders of units with their values. -/
def slotsFrom (position : Nat) : List UInt64 → List (String × ParamValue)
  | [] => []
  | unit :: rest => (slotName position, ParamValue.ofWord unit) :: slotsFrom (position + 1) rest

/-- The alias of the membership table inside the condition. -/
def membersAlias : String := "scope_m"

/-- The query for the users that belong to the units of some placeholders. -/
def membersQuery (i : Injector) (names : List String) : Query :=
  let s := i.settings
  { Query.empty with
    select := [⟨.qualified membersAlias s.membershipUserColumn, none⟩]
    source := some (.table ⟨i.tablePrefix ++ s.membershipTable, some membersAlias⟩)
    condition := some
      (.inList (.qualified membersAlias s.membershipUnitColumn) (names.map .placeholder) false) }

/-- The condition of a set of units, with the values of its placeholders. -/
def predicate (i : Injector) (units : UnitSet) : Expr × List (String × ParamValue) :=
  match units.units with
  | [] => (.never, [])
  | unit :: rest =>
    let slots := slotsFrom 0 (unit :: rest)
    (.inQuery (.qualified i.settings.userAlias i.settings.userColumn)
      (i.membersQuery (slots.map (·.1))) false, slots)

/-- The user alias must be among the names of the outermost tables, in any ASCII case. -/
def checkUserAlias (i : Injector) (names : List String) : Except ScopeError Unit :=
  if names.any (Text.sameIgnoringCase i.settings.userAlias) then .ok ()
  else .error (.missingUserAlias i.settings.userAlias)

/-- No placeholder and no bound name may be reserved; placeholders are looked at first. -/
def checkReserved (placeholders : List String) (params : Params) : Except ScopeError Unit :=
  match ((NameSet.ofNames placeholders).names ++ params.names).find? isReserved with
  | some name => .error (.placeholderCollision name)
  | none => .ok ()

/-- A compiled query with a restriction applied. -/
def injectQuery (i : Injector) (restriction : Restriction) (compiled : CompiledQuery) :
    Except ScopeError CompiledQuery :=
  match restriction with
  | .unrestricted => .ok compiled
  | .units units => do
    i.checkUserAlias (compiled.query.topLevelTables.map (·.exposedName))
    checkReserved compiled.query.placeholders compiled.params
    let (condition, values) := i.predicate units
    .ok { compiled with
      query := compiled.query.andWhere condition
      params := compiled.params.insertAll values }

/-- An author statement and its values with a restriction applied. -/
def injectStatement (i : Injector) (restriction : Restriction) (s : Statement)
    (params : Params) : Except ScopeError (Statement × Params) :=
  match restriction with
  | .unrestricted => .ok (s, params)
  | .units units =>
    if s.setOperation then .error .setOperation
    else do
      i.checkUserAlias (s.topLevelTables.map (·.exposedName))
      checkReserved s.placeholders params
      let (condition, values) := i.predicate units
      .ok (s.addPredicate condition, params.insertAll values)

end Injector

end ReportSql
