import ReportSql.Compile.Basic
import ReportSql.Report.Config

/-!
# Compiling filters

Each filter compares its column with a placeholder whose name is made from the
column and is not yet in use. Filters linked by OR form one group in parentheses,
and the groups are joined by AND.

## Main definitions

* `Compiler.freshName`, `Compiler.freshListName` - placeholder names not yet in use
* `Compiler.compileFilter` - the condition of one filter
* `Compiler.compileFilters` - the condition of all filters

## Design notes

The search for a fresh name tries one candidate more than there are names in use.
Each name in use blocks at most one candidate, so the search always succeeds.
-/

namespace ReportSql.Compiler

/-- A name with a numeric suffix. -/
def numbered (base : String) (n : Nat) : String :=
  base ++ "_" ++ toString n

/-- The name itself, or its first numbered form from two on, that passes a test. -/
def firstFree (base : String) (attempts : Nat) (free : String → Bool) : String :=
  if free base then base
  else
    (((List.range attempts).map fun n => numbered base (n + 2)).find? free).getD base

/-- A name that is not in use. -/
def freshName (base : String) (bound : Params) : String :=
  firstFree base (bound.size + 1) fun name => !bound.contains name

/-- A name of which none of the first `count` numbered forms is in use. -/
def freshListName (base : String) (count : Nat) (bound : Params) : String :=
  firstFree base (bound.size + 1) fun name =>
    (List.range count).all fun i => !bound.contains (numbered name i)

/-- The values of an IN filter; a single value counts as a list of one. -/
def listItems (param : String) : ParamValue → Except CompileError (List ParamValue)
  | .list items => .ok items
  | .null => .error (.invalidParameter param .null)
  | value => .ok [value]

/-- A value that may stand in an IN list. -/
def isListScalar : ParamValue → Bool
  | .list _ | .null => false
  | _ => true

/-- The numbered slots of a list with their values. -/
def slots (name : String) (items : List ParamValue) : List (String × ParamValue) :=
  items.zipIdx.map fun (item, i) => (numbered name i, item)

/-- The condition of an IN filter and the values bound with it. An empty list matches nothing. -/
def compileInFilter (filter : FilterSpec) (base : String) (value : ParamValue) (bound : Params) :
    Except CompileError (Expr × Params) := do
  let items ← listItems filter.param value
  if items.isEmpty then
    .ok (.never, bound)
  else if !items.all isListScalar then
    .error (.invalidParameter filter.param .nestedList)
  else
    let name := freshListName base items.length bound
    let slots := slots name items
    .ok (.inList (.qualified filter.table filter.column)
        (slots.map fun (slot, _) => .placeholder slot) false,
      bound.insertAll slots)

/-- The condition of a comparison with a single value, and the values bound with it. -/
def compileComparison (filter : FilterSpec) (op : FilterOperator) (base : String)
    (value : ParamValue) (bound : Params) : Except CompileError (Expr × Params) :=
  match value with
  | .null => .error (.invalidParameter filter.param .null)
  | .list _ => .error (.invalidParameter filter.param .listOutsideIn)
  | _ =>
    let name := freshName base bound
    .ok (op.compare (.qualified filter.table filter.column) (.placeholder name),
      bound.insert name value)

/-- The condition of one filter, given the values bound so far, and the values bound with it. -/
def compileFilter (filter : FilterSpec) (params bound : Params) :
    Except CompileError (Expr × Params) := do
  let op ← keyword (FilterOperator.parse filter.operator)
  match params.get? filter.param with
  | none => .error (.missingParameter filter.param)
  | some value =>
    let base := Text.lowerAscii filter.column ++ op.boundSuffix?.getD ""
    if op = .isIn then compileInFilter filter base value bound
    else compileComparison filter op base value bound

/-- The conditions of filters in groups linked by OR, given the groups so far with the latest one
and its latest condition first. -/
def groupFilters (params : Params) (groups : List (List Expr)) (bound : Params) :
    List FilterSpec → Except CompileError (List (List Expr) × Params)
  | [] => .ok (groups, bound)
  | filter :: rest => do
    let logic ← keyword (Logic.parse (filter.logic.getD ""))
    let (condition, bound) ← compileFilter filter params bound
    match logic, groups with
    | .or, group :: earlier => groupFilters params ((condition :: group) :: earlier) bound rest
    | _, _ => groupFilters params ([condition] :: groups) bound rest

/-- A group as one condition: a single one stands alone, several are linked in parentheses. -/
def groupCondition? : List Expr → Option Expr
  | [] => none
  | [single] => some single
  | first :: rest => some (.paren (rest.foldl Expr.or first))

/-- The conjunction of conditions from left to right. -/
def conjunction? : List Expr → Option Expr
  | [] => none
  | first :: rest => some (rest.foldl Expr.and first)

/-- The condition of all filters, if there are any, and the values of its placeholders. -/
def compileFilters (filters : List FilterSpec) (params : Params) :
    Except CompileError (Option Expr × Params) := do
  let (groups, bound) ← groupFilters params [] NameMap.empty filters
  let inOrder := (groups.map List.reverse).reverse
  .ok (conjunction? (inOrder.filterMap groupCondition?), bound)

end ReportSql.Compiler
