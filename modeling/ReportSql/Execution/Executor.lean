import ReportSql.Cache.Key
import ReportSql.Cache.Result
import ReportSql.Compile.Report
import ReportSql.Execution.Error
import ReportSql.Execution.Page
import ReportSql.Execution.Prepared
import ReportSql.Report.Registry
import ReportSql.Scope.Membership
import ReportSql.Settings.Basic

/-!
# Running reports

A run of a report goes through these stages, each of which may end it:

* the restriction of the caller is resolved, the parameters are merged, and the
  query is checked or compiled, bound and scoped;
* the result is looked up in the cache;
* the run is admitted, if not too many runs are under way;
* the database counts the rows, and then gives the page;
* the result is put into the cache.

A failing cache is passed over.

## Main definitions

* `Executor` - what reports are run with
* `Executor.prepare` - the query of a report for a caller
* `Executor.start`, `Executor.receiveTotal`, `Executor.receivePage` - a run, up to each query and
  after each answer

## Design notes

A run is cut at the two queries that it sends, so that several runs can go on at
the same time over one executor, and the database stays outside.
-/

namespace ReportSql

/-- A request for one page of a report. -/
structure ReportRequest where
  definition : ReportDefinition
  params : Params
  caller : Caller
  page : UInt64
  /-- The rows on a page; zero asks for the default. -/
  pageSize : UInt64

/-- Where the result of a run is cached, and for how long. -/
structure CacheSlot where
  key : String
  ttlMs : UInt64
deriving DecidableEq, Repr

/-- An admitted run, about to count its rows. -/
structure Job where
  prepared : PreparedQuery
  page : UInt64
  pageSize : UInt64
  slot : Option CacheSlot

/-- An admitted run that knows the number of its rows and has used some of its time. -/
structure CountedJob where
  job : Job
  total : UInt64
  elapsedMs : Nat

/-- An answer of the database and the time that it took. -/
structure Reply where
  outcome : Except BackendError RowSet
  elapsedMs : Nat

/-- How a run starts: it ends at once, or it goes on to count its rows. -/
inductive Started where
  | ended (outcome : Except ReportError ResultPage)
  | counting (job : Job)

/-- What reports are run with. -/
structure Executor (σ : Type) where
  settings : Settings
  whitelist : Whitelist
  registry : Registry
  cache : Option σ
  /-- The number of admitted runs that have not ended. -/
  running : Nat

namespace Executor

variable {σ : Type}

/-- An executor with the built-in reports. -/
def new (settings : Settings) (whitelist : Whitelist) (cache : Option σ) : Executor σ :=
  ⟨settings, whitelist, Registry.builtins, cache, 0⟩

/-- The report of an identity. -/
def find (e : Executor σ) (id : ReportId) : Except ReportError ReportDefinition :=
  match e.registry.get id with
  | .ok definition => .ok definition
  | .error cause => .error (.unknownReport cause)

/-- The membership table of the settings. -/
def membershipTable (e : Executor σ) : MembershipTable :=
  ⟨e.settings.tenant, e.settings.database.dialect, e.settings.database.tablePrefix⟩

/-! ## Preparation -/

/-- The query of an author statement for a restriction. -/
def prepareRaw (e : Executor σ) (sql : String) (params : Params) (restriction : Restriction) :
    Except ReportError PreparedQuery :=
  let database := e.settings.database
  match Validator.validate ⟨e.whitelist, database.dialect, database.tablePrefix⟩ sql with
  | .error cause => .error (.validation cause)
  | .ok statement =>
    match Compiler.bindPlaceholders statement params with
    | .error cause => .error (.compile cause)
    | .ok bound =>
      match Injector.injectStatement ⟨e.settings.tenant, database.tablePrefix⟩ restriction
          statement bound with
      | .error cause => .error (.scope cause)
      | .ok (statement, bound) => .ok (.raw statement bound database.tablePrefix)

/-- The query of a declarative report for a restriction. -/
def prepareCompiled (e : Executor σ) (config : QueryConfig) (params : Params)
    (restriction : Restriction) : Except ReportError PreparedQuery :=
  let database := e.settings.database
  match Compiler.compile ⟨e.whitelist, database.dialect, database.tablePrefix⟩ config params with
  | .error cause => .error (.compile cause)
  | .ok compiled =>
    match Injector.injectQuery ⟨e.settings.tenant, database.tablePrefix⟩ restriction compiled with
    | .error cause => .error (.scope cause)
    | .ok compiled => .ok (.compiled compiled)

/-- The query of a report for a restriction. -/
def prepare (e : Executor σ) (definition : ReportDefinition) (params : Params)
    (restriction : Restriction) : Except ReportError PreparedQuery :=
  match definition.query with
  | .rawSql sql => e.prepareRaw sql params restriction
  | .declarative config => e.prepareCompiled config params restriction

/-- The rows on a page: the default where none are asked for, and never more than the maximum. -/
def effectivePageSize (e : Executor σ) (requested : UInt64) : UInt64 :=
  if requested = 0 then e.settings.execution.defaultPageSize
  else min requested e.settings.execution.maxPageSize

/-! ## Caching -/

/-- Where a result is cached. Without a cache, for a report that is not cacheable and for a time of
zero it is not cached. -/
def cacheSlot (e : Executor σ) (definition : ReportDefinition) (params : Params)
    (page pageSize : UInt64) (restriction : Restriction) : Option CacheSlot :=
  let seconds := definition.cacheTtl.getD e.settings.cache.defaultTtlSeconds
  if e.cache.isNone || !definition.cacheable || seconds = 0 then none
  else
    some ⟨Cache.key definition.id params page pageSize restriction.fingerprint,
      Cache.millisecondsOf seconds⟩

variable [Cache.Store σ]

/-- The page in a slot, if the cache has it. -/
def readCache (e : Executor σ) (slot : Option CacheSlot) (nowMs : UInt64) :
    Option ResultPage × Executor σ :=
  match e.cache, slot with
  | some store, some slot =>
    let (result, store) := Cache.fetch ResultPage.ofJson? store slot.key nowMs
    (result.toOption.join, { e with cache := some store })
  | _, _ => (none, e)

/-- Puts a page into a slot. -/
def writeCache (e : Executor σ) (slot : Option CacheSlot) (page : ResultPage) (nowMs : UInt64) :
    Executor σ :=
  match e.cache, slot with
  | some store, some slot =>
    match Cache.put store slot.key page.toJson slot.ttlMs nowMs with
    | .ok store => { e with cache := some store }
    | .error _ => e
  | _, _ => e

/-! ## Stages of a run -/

/-- Whether one more run may be admitted. -/
def admits (e : Executor σ) : Bool :=
  e.settings.execution.maxConcurrent.all fun limit => e.running < limit.toNat

/-- The executor after a run is admitted. -/
def enter (e : Executor σ) : Executor σ :=
  { e with running := e.running + 1 }

/-- The executor after an admitted run has ended. -/
def leave (e : Executor σ) : Executor σ :=
  { e with running := e.running - 1 }

/-- A run up to its first query, for what is known of the caller. -/
def start (e : Executor σ) (nowMs : UInt64) (r : ReportRequest)
    (access : Except ScopeError Access) : Executor σ × Started :=
  match access with
  | .error cause => (e, .ended (.error (.scope cause)))
  | .ok access =>
    let restriction := Restriction.resolve r.caller access e.settings.tenant.enabled
    let params := Params.merge r.definition.defaults r.params
    match e.prepare r.definition params restriction with
    | .error cause => (e, .ended (.error cause))
    | .ok prepared =>
      let pageSize := e.effectivePageSize r.pageSize
      let slot := e.cacheSlot r.definition params r.page pageSize restriction
      match e.readCache slot nowMs with
      | (some page, e) => (e, .ended (.ok { page with cached := true }))
      | (none, e) =>
        if e.admits then (e.enter, .counting ⟨prepared, r.page, pageSize, slot⟩)
        else (e, .ended (.error .busy))

/-- The rows of a reply, unless the run has used more than its time. -/
def rowsOf (e : Executor σ) (elapsedMs : Nat) (outcome : Except BackendError RowSet) :
    Except ExecutionError RowSet :=
  let limit := e.settings.database.queryTimeoutSecs
  if limit.toNat * 1000 < elapsedMs then .error (.timeout limit)
  else
    match outcome with
    | .error cause => .error (.backend cause)
    | .ok rows => .ok rows

/-- A run after the answer to its first query. -/
def receiveTotal (e : Executor σ) (job : Job) (reply : Reply) :
    Executor σ × Except ReportError CountedJob :=
  match e.rowsOf reply.elapsedMs reply.outcome with
  | .error cause => (e.leave, .error (.execution cause))
  | .ok rows =>
    match rows.total? with
    | none => (e.leave, .error (.execution .missingTotal))
    | some total => (e, .ok ⟨job, total, reply.elapsedMs⟩)

/-- A run after the answer to its second query. -/
def receivePage (e : Executor σ) (nowMs : UInt64) (counted : CountedJob) (reply : Reply) :
    Executor σ × Except ReportError ResultPage :=
  match e.rowsOf (counted.elapsedMs + reply.elapsedMs) reply.outcome with
  | .error cause => (e.leave, .error (.execution cause))
  | .ok rows =>
    let job := counted.job
    let page : ResultPage :=
      ⟨rows.rows, rows.columns, counted.total, job.page, job.pageSize, false⟩
    ((e.writeCache job.slot page nowMs).leave, .ok page)

end Executor

end ReportSql
