import ReportSql.Proofs.Execution.Journal

/-!
# The courses of a run

A run ends in one of six ways: its caller is not resolved, its query is refused, its page is in
the cache, it is not admitted, one of its two queries fails, or it gives a page. Each course tells
what was sent, the executor after it and the outcome. What holds of every run is read off the
courses.

## Main definitions

* `Executor.Course` - the ways in which a run can go

## Main results

* `Executor.serve_course` - every run follows a course
-/

namespace ReportSql

variable {σ ω : Type}

/-- The queries for a page: the count, then the page, with the same values. -/
def PreparedQuery.queriesFor (q : PreparedQuery) (page pageSize : UInt64) : List SentQuery :=
  [⟨q.countSql, q.params⟩, ⟨q.pagedSql page pageSize, q.params⟩]

namespace Executor

variable [Cache.Store σ]

/-- The ways in which a run can go, with what it sends, the executor after it and its outcome. The
cache is read at the time `now`. -/
inductive Course (e : Executor σ) (r : ReportRequest) (now : UInt64) :
    Except ScopeError Access → List SentQuery → Executor σ → Except ReportError ResultPage →
      Prop where
  | unresolved (cause : ScopeError) : Course e r now (.error cause) [] e (.error (.scope cause))
  | refused {access : Access} {cause : ReportError} (hquery : e.queryOf r access = .error cause) :
      Course e r now (.ok access) [] e (.error cause)
  | cached {access : Access} {prepared : PreparedQuery} {page : ResultPage} {e₁ : Executor σ}
      (hquery : e.queryOf r access = .ok prepared)
      (hread : e.readCache (e.slotOf r access) now = (some page, e₁)) :
      Course e r now (.ok access) [] e₁ (.ok { page with cached := true })
  | busy {access : Access} {prepared : PreparedQuery} {e₁ : Executor σ}
      (hquery : e.queryOf r access = .ok prepared)
      (hread : e.readCache (e.slotOf r access) now = (none, e₁)) (hadmits : e₁.admits = false) :
      Course e r now (.ok access) [] e₁ (.error .busy)
  | failed {access : Access} {prepared : PreparedQuery} {e₁ : Executor σ} {sent : List SentQuery}
      {cause : ExecutionError} (hquery : e.queryOf r access = .ok prepared)
      (hread : e.readCache (e.slotOf r access) now = (none, e₁)) (hadmits : e₁.admits = true)
      (hsent : sent <+: prepared.queriesFor r.page (e.effectivePageSize r.pageSize)) :
      Course e r now (.ok access) sent e₁.enter.leave (.error (.execution cause))
  | completed {access : Access} {prepared : PreparedQuery} {page : ResultPage} {e₁ : Executor σ}
      (later : UInt64) (hquery : e.queryOf r access = .ok prepared)
      (hread : e.readCache (e.slotOf r access) now = (none, e₁)) (hadmits : e₁.admits = true)
      (hcached : page.cached = false) (hpage : page.page = r.page)
      (hpageSize : page.pageSize = e.effectivePageSize r.pageSize) :
      Course e r now (.ok access) (prepared.queriesFor r.page (e.effectivePageSize r.pageSize))
        (e₁.enter.writeCache (e.slotOf r access) page later).leave (.ok page)

/-- Ways in which worlds follow each other while queries are sent. -/
structure Records (db : Database (StateM ω)) (clock : StateM ω UInt64)
    (R : ω → List SentQuery → ω → Prop) : Prop where
  start : ∀ w, R w [] w
  tick : ∀ {w sent w'}, R w sent w' → R w sent (clock w').2
  query : ∀ {w sent w'} sql params, R w sent w' →
    R w (sent ++ [⟨sql, params⟩]) (db.query sql params w').2

theorem Records.timed {db : Database (StateM ω)} {clock : StateM ω UInt64}
    {R : ω → List SentQuery → ω → Prop} (h : Records db clock R) {w w' : ω} {sent : List SentQuery}
    (sql : String) (params : Params) (hw : R w sent w') :
    R w (sent ++ [⟨sql, params⟩]) (Executor.timed db clock sql params w').2 :=
  h.tick (h.query sql params (h.tick hw))

/-- What a run does up to its first query. -/
inductive StartCourse (e : Executor σ) (r : ReportRequest) (now : UInt64) :
    Except ScopeError Access → Executor σ × Started → Prop where
  | ended {access : Except ScopeError Access} {e₁ : Executor σ} {outcome : Except ReportError ResultPage}
      (h : Course e r now access [] e₁ outcome) : StartCourse e r now access (e₁, .ended outcome)
  | counting {access : Access} {prepared : PreparedQuery} {e₁ : Executor σ}
      (hquery : e.queryOf r access = .ok prepared)
      (hread : e.readCache (e.slotOf r access) now = (none, e₁)) (hadmits : e₁.admits = true) :
      StartCourse e r now (.ok access) (e₁.enter,
        .counting ⟨prepared, r.page, e.effectivePageSize r.pageSize, e.slotOf r access⟩)

theorem start_course (e : Executor σ) (r : ReportRequest) (now : UInt64)
    (access : Except ScopeError Access) : StartCourse e r now access (e.start now r access) := by
  cases access with
  | error cause => exact .ended (.unresolved cause)
  | ok access =>
    rw [start_eq]
    cases hquery : e.queryOf r access with
    | error cause => exact .ended (.refused hquery)
    | ok prepared =>
      dsimp only
      rcases hread : e.readCache (e.slotOf r access) now with ⟨found, e₁⟩
      cases found with
      | some page => exact .ended (.cached hquery hread)
      | none =>
        dsimp only
        split
        case isTrue hadmits => exact .counting hquery hread hadmits
        case isFalse hadmits => exact .ended (.busy hquery hread (Bool.eq_false_iff.2 hadmits))

omit [Cache.Store σ] in
theorem receiveTotal_cases (e : Executor σ) (job : Job) (reply : Reply) :
    (∃ cause, e.receiveTotal job reply = (e.leave, .error (.execution cause))) ∨
      ∃ total, e.receiveTotal job reply = (e, .ok ⟨job, total, reply.elapsedMs⟩) := by
  unfold receiveTotal
  cases e.rowsOf reply.elapsedMs reply.outcome with
  | error cause => exact .inl ⟨cause, rfl⟩
  | ok rows =>
    dsimp only
    cases rows.total? with
    | none => exact .inl ⟨.missingTotal, rfl⟩
    | some total => exact .inr ⟨total, rfl⟩

theorem receivePage_cases (e : Executor σ) (now : UInt64) (counted : CountedJob) (reply : Reply) :
    (∃ cause, e.receivePage now counted reply = (e.leave, .error (.execution cause))) ∨
      ∃ rows columns, e.receivePage now counted reply =
        ((e.writeCache counted.job.slot
          ⟨rows, columns, counted.total, counted.job.page, counted.job.pageSize, false⟩ now).leave,
          .ok ⟨rows, columns, counted.total, counted.job.page, counted.job.pageSize, false⟩) := by
  unfold receivePage
  cases e.rowsOf (counted.elapsedMs + reply.elapsedMs) reply.outcome with
  | error cause => exact .inl ⟨cause, rfl⟩
  | ok rows => exact .inr ⟨rows.rows, rows.columns, rfl⟩

/-- Every run follows a course. -/
theorem serve_course {db : Database (StateM ω)} {clock : StateM ω UInt64}
    {R : ω → List SentQuery → ω → Prop} (hR : Records db clock R) (e : Executor σ)
    (r : ReportRequest) (access : Except ScopeError Access) (w : ω) :
    ∃ sent, Course e r (clock w).1 access sent (e.serve db clock r access w).1.1
        (e.serve db clock r access w).1.2 ∧ R w sent (e.serve db clock r access w).2 := by
  rw [serve_eq]
  -- every step is recorded, a tick of the clock as well as a query that is sent
  have hticked : R w [] (clock w).2 := hR.tick (hR.start w)
  rcases hstart : e.start (clock w).1 r access with ⟨e₁, started⟩
  have hcourse := e.start_course r (clock w).1 access
  rw [hstart] at hcourse
  cases hcourse with
  | ended h => exact ⟨[], h, hticked⟩
  | @counting access prepared e₁ hquery hread hadmits =>
    dsimp only
    have hcounted := hR.timed prepared.countSql prepared.params hticked
    rcases receiveTotal_cases e₁.enter ⟨prepared, r.page, e.effectivePageSize r.pageSize,
      e.slotOf r access⟩ (timed db clock prepared.countSql prepared.params (clock w).2).1
      with ⟨cause, htotal⟩ | ⟨total, htotal⟩
    · rw [htotal]
      exact ⟨_, .failed hquery hread hadmits (List.prefix_append _ _), hcounted⟩
    · rw [htotal]
      dsimp only
      have hpaged := hR.tick (hR.timed (prepared.pagedSql r.page (e.effectivePageSize r.pageSize))
        prepared.params hcounted)
      rcases receivePage_cases e₁.enter _ _ _ with ⟨cause, hpage⟩ | ⟨rows, columns, hpage⟩
      · rw [hpage]
        exact ⟨_, .failed hquery hread hadmits (List.prefix_refl _), hpaged⟩
      · rw [hpage]
        exact ⟨_, .completed _ hquery hread hadmits rfl rfl rfl, hpaged⟩

end Executor

end ReportSql
