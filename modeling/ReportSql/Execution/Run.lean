import ReportSql.Execution.Executor

/-!
# Runs over a database

A whole run of a report: the membership of the caller is looked up in the database
where tenancy asks for it, and the queries of the run are sent in order.

## Main definitions

* `Database` - something that answers queries
* `Executor.serve` - a run for a caller who was looked up
* `Executor.run` - a run from its request to its outcome
-/

namespace ReportSql

/-- Something that answers queries. -/
structure Database (m : Type → Type) where
  query : String → Params → m (Except BackendError RowSet)

namespace Executor

variable {σ : Type} {m : Type → Type} [Monad m]

/-- What the database knows of a user; without tenancy it is not asked. -/
def lookUp (e : Executor σ) (db : Database m) (user : UInt64) : m (Except ScopeError Access) := do
  if e.settings.tenant.enabled then
    let table := e.membershipTable
    return table.accessOf user (← db.query table.lookupSql (MembershipTable.lookupParams user))
  else
    return .ok ⟨false, UnitSet.empty⟩

/-- An answer with the time that it took. -/
def timed (db : Database m) (clock : m UInt64) (sql : String) (params : Params) : m Reply := do
  let began ← clock
  let outcome ← db.query sql params
  let ended ← clock
  return ⟨outcome, (Cache.saturatingSub ended began).toNat⟩

/-- A run for a caller of whom the given is known, with the executor after it. -/
def serve [Cache.Store σ] (e : Executor σ) (db : Database m) (clock : m UInt64)
    (r : ReportRequest) (access : Except ScopeError Access) :
    m (Executor σ × Except ReportError ResultPage) := do
  match e.start (← clock) r access with
  | (e, .ended outcome) => return (e, outcome)
  | (e, .counting job) =>
    let params := job.prepared.params
    match e.receiveTotal job (← timed db clock job.prepared.countSql params) with
    | (e, .error cause) => return (e, .error cause)
    | (e, .ok counted) =>
      let reply ← timed db clock (job.prepared.pagedSql job.page job.pageSize) params
      return e.receivePage (← clock) counted reply

/-- A run from its request to its outcome, with the executor after it. -/
def run [Cache.Store σ] (e : Executor σ) (db : Database m) (clock : m UInt64)
    (r : ReportRequest) : m (Executor σ × Except ReportError ResultPage) := do
  let access ← e.lookUp db r.caller.userId
  e.serve db clock r access

end Executor

end ReportSql
