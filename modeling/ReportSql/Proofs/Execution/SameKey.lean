import ReportSql.Proofs.Compile.Report
import ReportSql.Proofs.Execution.Provenance
import ReportSql.Proofs.Scope.Injection
import ReportSql.Proofs.Validation
import ReportSql.Proofs.Whitelist

/-!
# Requests with the same key

A key tells all parameters that have a value, so requests with the same key bind the same
values, apart from parameters that are empty in both: these are left out of the key, but a
null, an empty text and an empty list are bound in different ways. Where no used parameter is
empty in two ways, requests with the same key have the same query.

## Main definitions

* `Params.AlikeAt` - two maps do not hold different empty values under a name
* `Executor.usedNames` - the parameters that a report uses
* `Executor.ShareKey` - two requests have the same key

## Main results

* `Executor.prepare_of_key` - the queries of requests with the same key
-/

namespace ReportSql

variable {σ : Type}

/-! ## Values that a key tells -/

namespace Params

/-- Two maps do not hold different empty values under a name. -/
def AlikeAt (p q : Params) (name : String) : Prop :=
  ∀ v ∈ p.get? name, ∀ w ∈ q.get? name, v.isEmpty = true → w.isEmpty = true → v = w

variable {p q : Params} {name : String}

theorem get?_of_given (h : Cache.givenEntries p.entries = Cache.givenEntries q.entries)
    {v : ParamValue} (hv : p.get? name = some v) (hgiven : v.isEmpty = false) :
    q.get? name = some v := by
  have hmem : (name, v) ∈ Cache.givenEntries p.entries :=
    List.mem_filter.2 ⟨NameMap.get?_eq_some_iff.1 hv, by simp [hgiven]⟩
  rw [h] at hmem
  exact NameMap.get?_eq_some_iff.2 (List.mem_filter.1 hmem).1

/-- A name that both maps have holds the same value in both, unless it is empty in two ways. -/
theorem get?_eq_of_given (h : Cache.givenEntries p.entries = Cache.givenEntries q.entries)
    (hp : (p.get? name).isSome) (hq : (q.get? name).isSome) (halike : p.AlikeAt q name) :
    p.get? name = q.get? name := by
  obtain ⟨v, hv⟩ := Option.isSome_iff_exists.1 hp
  obtain ⟨w, hw⟩ := Option.isSome_iff_exists.1 hq
  cases hvempty : v.isEmpty with
  | false => rw [hv, get?_of_given h hv hvempty]
  | true =>
    cases hwempty : w.isEmpty with
    | false => rw [hw, get?_of_given h.symm hw hwempty]
    | true => rw [hv, hw, halike v hv w hw hvempty hwempty]

end Params

/-! ## Values that a query uses -/

namespace Compiler

variable {p q : Params}

/-- A statement is bound to the values of its placeholders. -/
theorem bindPlaceholders_eq_ok {s : Statement} {bound : Params}
    (h : bindPlaceholders s p = .ok bound) :
    ∀ name ∈ s.placeholders, (p.get? name).isSome ∧ bound.get? name = p.get? name := by
  unfold bindPlaceholders at h
  obtain ⟨entries, hentries, hbound⟩ := bind_eq_ok.1 h
  obtain rfl := Except.ok.inj hbound
  have hentry : ∀ {name entry}, bindPlaceholder p name = .ok entry →
      entry.1 = name ∧ p.get? name = some entry.2 := by
    intro name entry h
    unfold bindPlaceholder at h
    split at h
    · simp at h
    · simp at h
    · rename_i value _ hvalue
      obtain rfl := Except.ok.inj h
      exact ⟨rfl, hvalue⟩
  -- the entries come in the order of the names, and so they have the same names
  have hall := mapM_eq_ok.1 hentries
  have hnames : entries.map (·.1) = (NameSet.ofNames s.placeholders).names := by
    refine List.ext_getElem (by simpa using hall.length_eq.symm) fun n hn hn' => ?_
    rw [List.getElem_map]
    exact (hentry (List.forall₂_iff_get.1 hall |>.2 n hn' (by simpa using hn))).1
  intro name hname
  rw [← NameSet.mem_ofNames, ← hnames] at hname
  obtain ⟨entry, hmem, rfl⟩ := List.mem_map.1 hname
  obtain ⟨name, -, hbind⟩ := exists_of_mem_mapM hentries hmem
  obtain ⟨rfl, hvalue⟩ := hentry hbind
  have hnodup : (entries.map (·.1)).Nodup := hnames ▸ NameMap.names_nodup _
  rw [NameMap.ofList, NameMap.get?_insertAll_of_mem hnodup hmem, hvalue]
  exact ⟨rfl, rfl⟩

theorem bindPlaceholders_congr {s : Statement}
    (h : ∀ name ∈ s.placeholders, p.get? name = q.get? name) :
    bindPlaceholders s p = bindPlaceholders s q := by
  have hentries : ∀ names : List String, (∀ name ∈ names, p.get? name = q.get? name) →
      names.mapM (bindPlaceholder p) = names.mapM (bindPlaceholder q) := by
    intro names hnames
    induction names with
    | nil => rfl
    | cons name rest ih =>
      obtain ⟨hname, hrest⟩ := List.forall_mem_cons.1 hnames
      have hfirst : bindPlaceholder p name = bindPlaceholder q name := by
        rw [bindPlaceholder, bindPlaceholder, hname]
      rw [List.mapM_cons, List.mapM_cons, hfirst, ih hrest]
  rw [bindPlaceholders, bindPlaceholders,
    hentries _ fun name hname => h name (NameSet.mem_ofNames.1 hname)]

theorem groupFilters_congr {filters : List FilterSpec} (groups : List (List Expr)) (bound : Params)
    (h : ∀ f ∈ filters, p.get? f.param = q.get? f.param) :
    groupFilters p groups bound filters = groupFilters q groups bound filters := by
  induction filters generalizing groups bound with
  | nil => rfl
  | cons f rest ih =>
    obtain ⟨hfirst, hrest⟩ := List.forall_mem_cons.1 h
    have hfilter : compileFilter f p bound = compileFilter f q bound := by
      unfold compileFilter
      rw [hfirst]
    unfold groupFilters
    rw [hfilter]
    simp only [fun groups bound => ih groups bound hrest]

theorem compile_congr {c : Compiler} {config : QueryConfig}
    (h : ∀ f ∈ config.filters, p.get? f.param = q.get? f.param) :
    c.compile config p = c.compile config q := by
  have hfilters : compileFilters config.filters p = compileFilters config.filters q := by
    unfold compileFilters
    rw [groupFilters_congr _ _ h]
  unfold compile
  rw [hfilters]

/-- A report that compiles has a value for each of its filters. -/
theorem compile_provided {c : Compiler} {config : QueryConfig} {compiled : CompiledQuery}
    (h : c.compile config p = .ok compiled) : ∀ f ∈ config.filters, (p.get? f.param).isSome := by
  obtain ⟨filters, hspecs, hfollows, -⟩ := compile_eq_ok h
  intro f hf
  rw [← hspecs] at hf
  obtain ⟨g, hg, rfl⟩ := List.mem_map.1 hf
  obtain ⟨value, hvalue, -⟩ := (hfollows g hg).values
  rw [hvalue]
  rfl

end Compiler

/-! ## Queries of requests with the same key -/

/-- What a report is run for: its parameters, a restriction and a page. -/
structure Asked where
  params : Params
  restriction : Restriction
  page : UInt64
  pageSize : UInt64

/-- The values of a statement stay when it is scoped. -/
theorem Injector.get?_injectStatement {i : Injector} {restriction : Restriction}
    {s restricted : Statement} {params bound : Params}
    (h : i.injectStatement restriction s params = .ok (restricted, bound)) {name : String}
    (hname : (params.get? name).isSome) : bound.get? name = params.get? name := by
  rcases injectStatement_eq_ok h with ⟨-, -, rfl⟩ | ⟨units, -, hreserved, -, rfl⟩
  · rfl
  · refine NameMap.get?_insertAll_of_notMem fun hscope => ?_
    have hfree := hreserved name (NameMap.mem_names_iff.2 (Option.isSome_iff_exists.1 hname))
    rw [isReserved_predicate hscope] at hfree
    exact Bool.noConfusion hfree

namespace Executor

variable {e : Executor σ} {definition : ReportDefinition} {params : Params} {restriction : Restriction}
  {x y : Asked} {q q' : PreparedQuery}

/-- The parameters that a report uses: the placeholders of its statement, or those of its filters. -/
def usedNames (e : Executor σ) (definition : ReportDefinition) : List String :=
  match definition.query with
  | .rawSql sql =>
    match Statement.parse sql e.settings.database.dialect with
    | .ok s => s.placeholders
    | .error _ => []
  | .declarative config => config.filters.map (·.param)

/-- The checks that author statements pass. -/
def validator (e : Executor σ) : Validator :=
  ⟨e.whitelist, e.settings.database.dialect, e.settings.database.tablePrefix⟩

/-- What declarative reports are compiled with. -/
def compiler (e : Executor σ) : Compiler :=
  ⟨e.whitelist, e.settings.database.dialect, e.settings.database.tablePrefix⟩

/-- What queries are scoped with. -/
def injector (e : Executor σ) : Injector :=
  ⟨e.settings.tenant, e.settings.database.tablePrefix⟩

/-- What a request asks of its report. -/
def asked (e : Executor σ) (r : ReportRequest) (a : Access) : Asked :=
  ⟨r.merged, e.restrictionOf r a, r.page, e.effectivePageSize r.pageSize⟩

/-- The query for what is asked of a report. -/
def prepareFor (e : Executor σ) (definition : ReportDefinition) (x : Asked) :
    Except ReportError PreparedQuery :=
  e.prepare definition x.params x.restriction

/-- What is asked of a report is cached under the same key in two cases, and the digest tells them
apart if they are different. -/
structure ShareKey (e : Executor σ) (definition : ReportDefinition) (x y : Asked) : Prop where
  slots : ∃ slot slot', e.cacheSlot definition x.params x.page x.pageSize x.restriction = some slot ∧
    e.cacheSlot definition y.params y.page y.pageSize y.restriction = some slot' ∧ slot.key = slot'.key
  digest : Cache.Distinguished
    (Cache.keyMaterial x.params x.page x.pageSize x.restriction.fingerprint)
    (Cache.keyMaterial y.params y.page y.pageSize y.restriction.fingerprint)

/-- A shared key tells the page, the restriction and the parameters that have a value. -/
theorem ShareKey.same (h : e.ShareKey definition x y) :
    x.page = y.page ∧ x.pageSize = y.pageSize ∧ x.restriction = y.restriction ∧
      Cache.givenEntries x.params.entries = Cache.givenEntries y.params.entries := by
  obtain ⟨⟨slot, slot', hslot, hslot', hkey⟩, hdigest⟩ := h
  rw [key_cacheSlot hslot, key_cacheSlot hslot'] at hkey
  exact (Cache.same_of_key hkey hdigest).2

/-- A statement is checked, bound and scoped. -/
theorem prepareRaw_eq_ok {sql : String} (h : e.prepareRaw sql params restriction = .ok q) :
    ∃ s bound restricted bound', e.validator.validate sql = .ok s ∧
      Compiler.bindPlaceholders s params = .ok bound ∧
      e.injector.injectStatement restriction s bound = .ok (restricted, bound') ∧
      q = .raw restricted bound' e.settings.database.tablePrefix := by
  unfold prepareRaw at h
  dsimp only at h
  split at h
  · simp at h
  · rename_i s hvalid
    split at h
    · simp at h
    · rename_i bound hbound
      split at h
      · simp at h
      · rename_i restricted bound' hscoped
        exact ⟨s, bound, restricted, bound', hvalid, hbound, hscoped, (Except.ok.inj h).symm⟩

theorem prepareRaw_unrestricted {sql : String} {s : Statement} {bound : Params}
    (h : e.validator.validate sql = .ok s) (hbound : Compiler.bindPlaceholders s params = .ok bound) :
    e.prepareRaw sql params .unrestricted = .ok (.raw s bound e.settings.database.tablePrefix) := by
  unfold validator at h
  unfold prepareRaw
  dsimp only
  rw [h]
  dsimp only
  rw [hbound]
  rfl

/-- A declarative report is compiled and scoped. -/
theorem prepareCompiled_eq_ok {config : QueryConfig}
    (h : e.prepareCompiled config params restriction = .ok q) :
    ∃ compiled restricted, e.compiler.compile config params = .ok compiled ∧
      e.injector.injectQuery restriction compiled = .ok restricted ∧ q = .compiled restricted := by
  unfold prepareCompiled at h
  dsimp only at h
  split at h
  · simp at h
  · rename_i compiled hcompiled
    split at h
    · simp at h
    · rename_i restricted hscoped
      exact ⟨compiled, restricted, hcompiled, hscoped, (Except.ok.inj h).symm⟩

theorem prepareCompiled_unrestricted {config : QueryConfig} {compiled : CompiledQuery}
    (h : e.compiler.compile config params = .ok compiled) :
    e.prepareCompiled config params .unrestricted = .ok (.compiled compiled) := by
  unfold compiler at h
  unfold prepareCompiled
  dsimp only
  rw [h]
  rfl

/-- A report has a value for each parameter that it uses. -/
theorem prepare_provided (h : e.prepare definition params restriction = .ok q) :
    ∀ name ∈ e.usedNames definition, (params.get? name).isSome := by
  intro name hname
  unfold prepare at h
  unfold usedNames at hname
  split at h
  · obtain ⟨s, bound, -, -, hvalid, hbound, -⟩ := prepareRaw_eq_ok h
    have hparse : Statement.parse _ e.settings.database.dialect = .ok s := (Validator.validate_eq_ok hvalid).2.1
    simp only [*] at hname
    exact (Compiler.bindPlaceholders_eq_ok hbound name hname).1
  · obtain ⟨compiled, -, hcompiled, -⟩ := prepareCompiled_eq_ok h
    simp only [*] at hname
    obtain ⟨f, hf, rfl⟩ := List.mem_map.1 hname
    exact Compiler.compile_provided hcompiled f hf

/-- A statement is run with the values of the parameters that it uses. -/
theorem get?_prepare {sql : String} (hsql : definition.query = .rawSql sql)
    (h : e.prepare definition params restriction = .ok q) {name : String}
    (hname : name ∈ e.usedNames definition) : q.params.get? name = params.get? name := by
  unfold prepare at h
  unfold usedNames at hname
  simp only [hsql] at h hname
  obtain ⟨s, bound, restricted, bound', hvalid, hbound, hscoped, rfl⟩ := prepareRaw_eq_ok h
  have hparse : Statement.parse sql e.settings.database.dialect = .ok s := (Validator.validate_eq_ok hvalid).2.1
  simp only [hparse] at hname
  obtain ⟨hsome, hvalue⟩ := Compiler.bindPlaceholders_eq_ok hbound name hname
  rw [← hvalue] at hsome ⊢
  exact Injector.get?_injectStatement hscoped hsome

/-- The query of a report depends on the parameters that it uses only. -/
theorem prepare_congr {p p' : Params}
    (h : ∀ name ∈ e.usedNames definition, p.get? name = p'.get? name) :
    e.prepare definition p restriction = e.prepare definition p' restriction := by
  unfold prepare
  unfold usedNames at h
  split
  · rename_i sql hsql
    rw [hsql] at h
    unfold prepareRaw
    dsimp only
    split
    · rfl
    · rename_i s hvalid
      simp only [(Validator.validate_eq_ok hvalid).2.1] at h
      rw [Compiler.bindPlaceholders_congr h]
  · rename_i config hconfig
    simp only [hconfig, List.forall_mem_map] at h
    unfold prepareCompiled
    dsimp only
    rw [Compiler.compile_congr h]

/-- With a shared key the query is the same, if no parameter that the report uses is empty in two
ways. -/
theorem ShareKey.prepared (h : e.ShareKey definition x y)
    (halike : ∀ name ∈ e.usedNames definition, x.params.AlikeAt y.params name)
    (hq : e.prepareFor definition x = .ok q) (hq' : e.prepareFor definition y = .ok q') :
    q = q' := by
  obtain ⟨-, -, hscope, hgiven⟩ := h.same
  have hvalues : ∀ name ∈ e.usedNames definition, x.params.get? name = y.params.get? name :=
    fun name hname => Params.get?_eq_of_given hgiven (prepare_provided hq name hname)
      (prepare_provided hq' name hname) (halike name hname)
  unfold prepareFor at hq hq'
  rw [prepare_congr hvalues, hscope, hq'] at hq
  exact (Except.ok.inj hq).symm

/-- Without a cache, runs for the same query and page come to the same. -/
theorem serve_uncached_congr [Cache.Store σ] {ω : Type} {r r' : ReportRequest} {a a' : Access}
    (hquery : e.queryOf r a = e.queryOf r' a') (hpage : r.page = r'.page)
    (hpageSize : e.effectivePageSize r.pageSize = e.effectivePageSize r'.pageSize)
    (db : Database (StateM ω)) (clock : StateM ω UInt64) (w : ω) :
    e.uncached.serve db clock r (.ok a) w = e.uncached.serve db clock r' (.ok a') w := by
  have hstart : ∀ now, e.uncached.start now r (.ok a) = e.uncached.start now r' (.ok a') := by
    intro now
    have hsetup : e.uncached.queryOf r a = e.uncached.queryOf r' a' ∧
        e.uncached.effectivePageSize r.pageSize = e.uncached.effectivePageSize r'.pageSize :=
      ⟨hquery, hpageSize⟩
    rw [start_eq, start_eq, hsetup.1, hsetup.2, hpage, slotOf_uncached, slotOf_uncached]
  rw [serve_eq, serve_eq, hstart]

/-- Requests for a report that share a key have the same query with the same values, and without
a cache they come to the same, if no parameter that the report uses is empty in two ways. The
values of a statement are the same in no other case. -/
theorem prepare_of_key [Cache.Store σ] (hkey : e.ShareKey definition x y)
    (hq : e.prepareFor definition x = .ok q) (hq' : e.prepareFor definition y = .ok q') :
    ((∀ name ∈ e.usedNames definition, x.params.AlikeAt y.params name) →
      (q.countSql = q'.countSql ∧
        q.pagedSql x.page x.pageSize = q'.pagedSql y.page y.pageSize ∧ q.params = q'.params) ∧
      ∀ {ω : Type} (db : Database (StateM ω)) (clock : StateM ω UInt64) (w : ω)
        (r r' : ReportRequest) (a a' : Access), r.definition = definition → r'.definition = definition →
        e.asked r a = x → e.asked r' a' = y →
        e.uncached.serve db clock r (.ok a) w = e.uncached.serve db clock r' (.ok a') w) ∧
    ∀ sql, definition.query = .rawSql sql → q.params = q'.params →
      ∀ name ∈ e.usedNames definition, x.params.AlikeAt y.params name := by
  obtain ⟨hpage, hpageSize, -, -⟩ := hkey.same
  constructor
  · intro halike
    obtain rfl := hkey.prepared halike hq hq'
    refine ⟨⟨rfl, by rw [hpage, hpageSize], rfl⟩, ?_⟩
    rintro ω db clock w r r' a a' rfl hdefinition rfl rfl
    refine serve_uncached_congr ?_ hpage hpageSize db clock w
    have hquery : e.queryOf r a = .ok q := hq
    have hquery' : e.queryOf r' a' = e.prepareFor r.definition (e.asked r' a') := by
      rw [← hdefinition]
      rfl
    rw [hquery, hquery', hq']
  · intro sql hsql hparams name hname v hv w hw _ _
    have hvalue := get?_prepare hsql hq hname
    rw [hparams, get?_prepare hsql hq' hname] at hvalue
    exact Option.some.inj (hv.symm.trans (hvalue.symm.trans hw))

/-- The courses of a name. -/
def coursesNamed : ReportDefinition :=
  .of (.custom 2) "Courses" (.rawSql "SELECT c.id FROM {course} c WHERE c.fullname = :name")

/-- The first page of a report without a restriction. -/
def firstPage (entries : List (String × ParamValue)) : Asked :=
  ⟨NameMap.ofList entries, .unrestricted, 0, 50⟩

theorem shareKey_firstPage {entries entries' : List (String × ParamValue)}
    (h : Cache.canonicalParams (NameMap.ofList entries) = Cache.canonicalParams (NameMap.ofList entries')) :
    singleDesk.ShareKey coursesNamed (firstPage entries) (firstPage entries') := by
  have hmaterial : Cache.keyMaterial (NameMap.ofList entries) 0 50 Restriction.unrestricted.fingerprint =
      Cache.keyMaterial (NameMap.ofList entries') 0 50 Restriction.unrestricted.fingerprint :=
    Cache.keyMaterial_inj.2 ⟨h, rfl, rfl, rfl⟩
  constructor
  · refine ⟨_, _, rfl, rfl, ?_⟩
    exact Cache.key_inj.2 ⟨rfl, congrArg Cache.contentHash hmaterial⟩
  · exact fun _ => congrArg Json.compact hmaterial

/-- Courses are found by their name, whatever else is given. -/
theorem prepareFor_coursesNamed : singleDesk.usedNames coursesNamed = ["name"] ∧
    ∀ entries value, (NameMap.ofList entries).get? "name" = some value →
      (∀ items, value ≠ .list items) →
      ∃ q, singleDesk.prepareFor coursesNamed (firstPage entries) = .ok q ∧
        q.params = NameMap.ofList [("name", value)] := by
  obtain ⟨s, hvalid, hnames⟩ : ∃ s, singleDesk.validator.validate
      "SELECT c.id FROM {course} c WHERE c.fullname = :name" = .ok s ∧ s.placeholders = ["name"] := by
    decide +kernel
  constructor
  · unfold usedNames coursesNamed ReportDefinition.of
    have hparse : Statement.parse "SELECT c.id FROM {course} c WHERE c.fullname = :name"
        singleDesk.settings.database.dialect = .ok s := (Validator.validate_eq_ok hvalid).2.1
    dsimp only
    rw [hparse]
    exact hnames
  · intro entries value hvalue hscalar
    have hbound : Compiler.bindPlaceholders s (NameMap.ofList entries) =
        .ok (NameMap.ofList [("name", value)]) := by
      unfold Compiler.bindPlaceholders
      have hone : (NameSet.ofNames ["name"]).names = ["name"] := rfl
      have hentry : Compiler.bindPlaceholder (NameMap.ofList entries) "name" = .ok ("name", value) := by
        unfold Compiler.bindPlaceholder
        rw [hvalue]
        cases value with
        | list items => exact absurd rfl (hscalar items)
        | _ => rfl
      rw [hnames, hone, List.mapM_cons, hentry]
      rfl
    exact ⟨_, prepareRaw_unrestricted hvalid hbound, rfl⟩

/-- An empty parameter that the report does not use. -/
theorem prepare_of_key_unused : ∃ q q',
    singleDesk.prepareFor coursesNamed (firstPage [("name", .text "Logic"), ("note", .text "")]) = .ok q ∧
      singleDesk.prepareFor coursesNamed (firstPage [("name", .text "Logic"), ("note", .null)]) = .ok q' ∧
      q.countSql = q'.countSql ∧ q.params = q'.params := by
  obtain ⟨hused, hprepared⟩ := prepareFor_coursesNamed
  obtain ⟨q, hq, -⟩ := hprepared [("name", .text "Logic"), ("note", .text "")] _ rfl (by simp)
  obtain ⟨q', hq', -⟩ := hprepared [("name", .text "Logic"), ("note", .null)] _ rfl (by simp)
  obtain ⟨hsame, -⟩ := prepare_of_key (shareKey_firstPage (by decide)) hq hq'
  obtain ⟨⟨hcount, -, hparams⟩, -⟩ := hsame (by
    intro name hname v hv w hw hempty
    obtain rfl := List.mem_singleton.1 (hused ▸ hname)
    obtain rfl := Option.some.inj hv
    exact absurd hempty (by decide))
  exact ⟨q, q', hq, hq', hcount, hparams⟩

/-- An empty name and a null name have the same key. -/
theorem prepare_of_key_empty : ∃ q q',
    singleDesk.ShareKey coursesNamed (firstPage [("name", .text "")]) (firstPage [("name", .null)]) ∧
      singleDesk.prepareFor coursesNamed (firstPage [("name", .text "")]) = .ok q ∧
      singleDesk.prepareFor coursesNamed (firstPage [("name", .null)]) = .ok q' ∧
      q.params ≠ q'.params := by
  obtain ⟨-, hprepared⟩ := prepareFor_coursesNamed
  obtain ⟨q, hq, hparams⟩ := hprepared [("name", .text "")] _ rfl (by simp)
  obtain ⟨q', hq', hparams'⟩ := hprepared [("name", .null)] _ rfl (by simp)
  refine ⟨q, q', shareKey_firstPage (by decide), hq, hq', ?_⟩
  rw [hparams, hparams']
  intro hsame
  have hvalue := congrArg (fun p : Params => p.get? "name") hsame
  exact absurd (Option.some.inj hvalue) (by simp)

end Executor

end ReportSql
