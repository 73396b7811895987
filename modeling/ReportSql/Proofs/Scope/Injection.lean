import ReportSql.Proofs.Compile.Report
import ReportSql.Proofs.Whitelist
import ReportSql.Scope.Injection

/-!
# Placeholders of scoped reports

The values of a scope are bound to reserved names of their own. A scoped report
therefore keeps every value of its filters, and its placeholders are again exactly
the names that it binds.

## Main definitions

* `CompiledQuery.Binds` - the placeholders are the names bound, and filters keep their values

## Main results

* `Compiler.compile_binds` - the bindings of a compiled report, before and after scoping
-/

namespace ReportSql

open Fragment

namespace Injector

variable {i : Injector} {restriction : Restriction} {compiled restricted : CompiledQuery}

/-! ## The names of a scope -/

theorem slotName_inj {n k : Nat} : slotName n = slotName k ↔ n = k := by
  constructor
  · intro h
    have hdigits := congrArg String.toList h
    simp only [slotName, String.toList_append, List.append_cancel_left_eq] at hdigits
    rw [← Nat.repr_inj, ← Nat.toString_eq_repr, ← Nat.toString_eq_repr]
    exact String.toList_injective hdigits
  · rintro rfl
    rfl

theorem isReserved_slotName (n : Nat) : isReserved (slotName n) = true := by
  rw [isReserved, slotName, String.toList_append]
  exact List.isPrefixOf_iff_prefix.2 (List.prefix_append _ _)

theorem names_slotsFrom (position : Nat) (units : List UInt64) :
    (slotsFrom position units).map (·.1) = (List.range' position units.length).map slotName := by
  induction units generalizing position with
  | nil => rfl
  | cons unit rest ih => simp [slotsFrom, ih, List.range'_succ]

/-- The values of a scope are those of its units in order. -/
theorem values_predicate (i : Injector) (units : UnitSet) :
    (i.predicate units).2 = slotsFrom 0 units.units := by
  unfold predicate
  split
  · rename_i hunits
    rw [hunits, slotsFrom]
  · rename_i hunits
    rw [hunits]

/-- The placeholders of the condition of a scope are its names. -/
theorem names_predicate (i : Injector) (units : UnitSet) :
    names (i.predicate units).1.fragments = (i.predicate units).2.map (·.1) := by
  unfold predicate
  split
  · simp
  · rename_i unit rest _
    have hlist := names_inList_placeholders (.qualified membersAlias i.settings.membershipUnitColumn)
      (slotName 0) ((slotsFrom 1 rest).map (·.1))
    rw [names_qualified, List.nil_append] at hlist
    dsimp only
    rw [Expr.fragments]
    simp only [names_append, names_inFragments, Query.names_fragments]
    simpa [membersQuery, Query.empty, Source.fragments, name?, slotsFrom] using hlist

theorem nodup_predicate (i : Injector) (units : UnitSet) :
    ((i.predicate units).2.map (·.1)).Nodup := by
  rw [values_predicate, names_slotsFrom]
  exact (List.nodup_range' _).map fun _ _ h => slotName_inj.1 h

theorem isReserved_predicate {units : UnitSet} {name : String}
    (h : name ∈ (i.predicate units).2.map (·.1)) : isReserved name = true := by
  rw [values_predicate, names_slotsFrom] at h
  obtain ⟨n, -, rfl⟩ := List.mem_map.1 h
  exact isReserved_slotName n

/-! ## Scoping a query -/

theorem checkReserved_eq_ok {placeholders : List String} {params : Params} :
    checkReserved placeholders params = .ok () ↔
      ∀ name, name ∈ placeholders ∨ name ∈ params.names → isReserved name = false := by
  unfold checkReserved
  cases hfind : ((NameSet.ofNames placeholders).names ++ params.names).find? isReserved with
  | none =>
    rw [List.find?_eq_none] at hfind
    simpa [NameSet.mem_ofNames] using hfind
  | some name =>
    obtain ⟨hreserved, hmem⟩ := And.intro (List.find?_some hfind) (List.mem_of_find?_eq_some hfind)
    rw [List.mem_append, NameSet.mem_ofNames] at hmem
    refine ⟨fun h => absurd h (by simp), fun h => ?_⟩
    rw [h name hmem] at hreserved
    exact Bool.noConfusion hreserved

theorem checkUserAlias_eq_ok {names : List String} :
    i.checkUserAlias names = .ok () ↔ ∃ name ∈ names,
      Text.sameIgnoringCase i.settings.userAlias name = true := by
  unfold checkUserAlias
  split <;> simp_all

/-- What it takes to restrict a query to units, and what becomes of it. -/
theorem injectQuery_units {units : UnitSet} :
    i.injectQuery (.units units) compiled = .ok restricted ↔
      i.checkUserAlias (compiled.query.topLevelTables.map (·.exposedName)) = .ok () ∧
        checkReserved compiled.query.placeholders compiled.params = .ok () ∧
          restricted = { compiled with
            query := compiled.query.andWhere (i.predicate units).1
            params := compiled.params.insertAll (i.predicate units).2 } := by
  unfold injectQuery
  simp only [bind_eq_ok, Except.ok.injEq]
  constructor
  · rintro ⟨⟨⟩, halias, ⟨⟩, hreserved, rfl⟩
    exact ⟨halias, hreserved, rfl⟩
  · rintro ⟨halias, hreserved, rfl⟩
    exact ⟨(), halias, (), hreserved, rfl⟩

/-- A restriction to units adds their condition and their values, which have names of their own. -/
theorem injectQuery_eq_ok (h : i.injectQuery restriction compiled = .ok restricted) :
    (restriction = .unrestricted ∧ restricted = compiled) ∨
      ∃ units, restriction = .units units ∧
        (∀ name ∈ compiled.params.names, isReserved name = false) ∧
        restricted = { compiled with
          query := compiled.query.andWhere (i.predicate units).1
          params := compiled.params.insertAll (i.predicate units).2 } := by
  cases restriction with
  | unrestricted => exact .inl ⟨rfl, (Except.ok.inj h).symm⟩
  | units units =>
    obtain ⟨-, hreserved, heq⟩ := injectQuery_units.1 h
    exact .inr ⟨units, rfl, fun name hname => checkReserved_eq_ok.1 hreserved name (.inr hname), heq⟩

/-- What it takes to restrict an author statement to units, and what becomes of it. -/
theorem injectStatement_units {s : Statement} {params : Params} {units : UnitSet}
    {result : Statement × Params} :
    i.injectStatement (.units units) s params = .ok result ↔
      s.setOperation = false ∧
        i.checkUserAlias (s.topLevelTables.map (·.exposedName)) = .ok () ∧
          checkReserved s.placeholders params = .ok () ∧
            result = (s.addPredicate (i.predicate units).1,
              params.insertAll (i.predicate units).2) := by
  unfold injectStatement
  cases s.setOperation with
  | true => simp
  | false =>
    simp only [Bool.false_eq_true, if_false, bind_eq_ok, Except.ok.injEq, true_and]
    constructor
    · rintro ⟨⟨⟩, halias, ⟨⟩, hreserved, rfl⟩
      exact ⟨halias, hreserved, rfl⟩
    · rintro ⟨halias, hreserved, rfl⟩
      exact ⟨(), halias, (), hreserved, rfl⟩

/-- So it does with an author statement. -/
theorem injectStatement_eq_ok {s restrictedStatement : Statement} {params bound : Params}
    (h : i.injectStatement restriction s params = .ok (restrictedStatement, bound)) :
    (restriction = .unrestricted ∧ restrictedStatement = s ∧ bound = params) ∨
      ∃ units, restriction = .units units ∧ (∀ name ∈ params.names, isReserved name = false) ∧
        restrictedStatement = s.addPredicate (i.predicate units).1 ∧
        bound = params.insertAll (i.predicate units).2 := by
  cases restriction with
  | unrestricted =>
    obtain ⟨rfl, rfl⟩ := Prod.mk.inj (Except.ok.inj h)
    exact .inl ⟨rfl, rfl, rfl⟩
  | units units =>
    obtain ⟨-, -, hreserved, heq⟩ := injectStatement_units.1 h
    obtain ⟨rfl, rfl⟩ := Prod.mk.inj heq
    exact .inr ⟨units, rfl, fun name hname => checkReserved_eq_ok.1 hreserved name (.inr hname),
      rfl, rfl⟩

end Injector

/-- A further condition adds its placeholders after those of the present one. -/
theorem Query.mem_names_andWhere (layout : Layout) (q : Query) (condition : Expr) (name : String) :
    name ∈ names ((q.andWhere condition).fragments layout) ↔
      name ∈ names (q.fragments layout) ∨ name ∈ names condition.fragments := by
  have hcondition : name ∈ ((q.andWhere condition).condition.toList.flatMap
      fun e => names e.fragments) ↔ name ∈ (q.condition.toList.flatMap fun e => names e.fragments) ∨
        name ∈ names condition.fragments := by
    unfold andWhere
    split <;> simp_all [Expr.and, Expr.fragments, name?, or_assoc]
  rw [Query.names_fragments, Query.names_fragments]
  simp only [List.mem_append, hcondition]
  have hrest : (q.andWhere condition).select = q.select ∧
      (q.andWhere condition).source = q.source ∧ (q.andWhere condition).joins = q.joins ∧
      (q.andWhere condition).groupBy = q.groupBy ∧ (q.andWhere condition).orderBy = q.orderBy :=
    ⟨rfl, rfl, rfl, rfl, rfl⟩
  obtain ⟨hselect, hsource, hjoins, hgroupBy, horderBy⟩ := hrest
  rw [hselect, hsource, hjoins, hgroupBy, horderBy]
  tauto

/-- The placeholders of a query are the names that it binds, and the slots of its filters are bound
to their values. -/
structure CompiledQuery.Binds (q : CompiledQuery) (filters : List CompiledFilter) : Prop where
  placeholders : ∀ name,
    name ∈ Fragment.names (q.query.fragments (.lines q.dialect)) ↔ name ∈ q.params.names
  slots : ∀ f ∈ filters, ∀ slot ∈ f.slots, q.params.get? slot.1 = some slot.2

/-- Scoping keeps the bindings of the filters. -/
theorem Injector.injectQuery_binds {i : Injector} {restriction : Restriction}
    {compiled restricted : CompiledQuery} {filters : List CompiledFilter} (hbinds : compiled.Binds filters)
    (h : i.injectQuery restriction compiled = .ok restricted) : restricted.Binds filters := by
  rcases injectQuery_eq_ok h with ⟨-, rfl⟩ | ⟨units, -, hreserved, rfl⟩
  · exact hbinds
  · constructor
    · intro name
      rw [Query.mem_names_andWhere, hbinds.placeholders, names_predicate,
        NameMap.mem_names_insertAll, or_comm]
    · intro f hf slot hslot
      have hslotValue := hbinds.slots f hf slot hslot
      rw [NameMap.get?_insertAll_of_notMem, hslotValue]
      intro hscope
      have hname := hreserved slot.1 (NameMap.mem_names_iff.2 ⟨slot.2, hslotValue⟩)
      rw [isReserved_predicate hscope] at hname
      exact Bool.noConfusion hname

namespace Compiler

/-- A compiled report binds the slots of its filters and nothing else. -/
theorem binds_of_compile {c : Compiler} {config : QueryConfig} {params : Params}
    {compiled : CompiledQuery} (h : c.compile config params = .ok compiled) :
    ∃ filters : List CompiledFilter, filters.map (·.spec) = config.filters ∧
      (∀ f ∈ filters, f.Follows params) ∧ ((slotsOf filters).map (·.1)).Nodup ∧
      compiled.query.condition = filterCondition? filters ∧ compiled.Binds filters := by
  obtain ⟨filters, hspecs, hfollows, hnodup, hparams, hcondition, -, hnames⟩ := compile_eq_ok h
  refine ⟨filters, hspecs, hfollows, hnodup, hcondition, fun name => ?_, fun f hf slot hslot => ?_⟩
  · rw [hnames, hcondition, names_filterCondition hfollows, hparams, NameMap.ofList,
      NameMap.mem_names_insertAll]
    exact ⟨.inl, fun h => h.resolve_right List.not_mem_nil⟩
  · rw [hparams]
    exact NameMap.get?_insertAll_of_mem hnodup (List.mem_flatMap_of_mem hf hslot)

/-- The bindings of a compiled report, before and after scoping. Every filter has placeholders of its
own, bound to the value of its parameter. The search for their names ends at the first free one. -/
theorem compile_binds {c : Compiler} {config : QueryConfig} {params : Params}
    {compiled : CompiledQuery} (h : c.compile config params = .ok compiled) :
    (∃ filters : List CompiledFilter, filters.map (·.spec) = config.filters ∧
      (∀ f ∈ filters, f.Follows params) ∧
      compiled.query.condition = filterCondition? filters ∧
      filters.Pairwise (fun f g => f.names.Disjoint g.names) ∧
      compiled.Binds filters ∧
      ∀ (i : Injector) (restriction : Restriction) (restricted : CompiledQuery),
        i.injectQuery restriction compiled = .ok restricted → restricted.Binds filters) ∧
    ∀ (base : String) (bound : Params),
      FirstFree base (fun name => !bound.contains name) (freshName base bound) ∧
      ∀ count, FirstFree base
        (fun name => (List.range count).all fun i => !bound.contains (numbered name i))
        (freshListName base count bound) := by
  refine ⟨?_, fun base bound => ⟨freshName_spec base bound,
    fun count => freshListName_spec base count bound⟩⟩
  obtain ⟨filters, hspecs, hfollows, hnodup, hcondition, hbinds⟩ := binds_of_compile h
  refine ⟨filters, hspecs, hfollows, hcondition, ?_, hbinds,
    fun i restriction restricted hscoped => Injector.injectQuery_binds hbinds hscoped⟩
  rw [slotsOf, List.map_flatMap] at hnodup
  exact (List.nodup_flatMap.1 hnodup).2

/-- A report with filters that would take the same name: `city` twice, `city_0` and `city_1` for a
list, and a range. -/
def crowdedReport : QueryConfig where
  tables := [⟨"user", some "u"⟩]
  columns := [⟨"u", "id", none, none⟩]
  joins := []
  filters := [⟨"u", "city", "=", "place", none⟩, ⟨"u", "city", "like", "place", some "or"⟩,
    ⟨"u", "city", "in", "places", none⟩, ⟨"u", "city", "in", "places", some "or"⟩,
    ⟨"u", "id", ">=", "least", none⟩]
  groupBy := []
  orderBy := []

/-- Values for the crowded report. -/
def crowdedParams : Params :=
  NameMap.ofList [("place", .text "Delft"), ("places", .list [.text "Delft", .text "Gent"]),
    ("least", .int 7)]

/-- The builtin schema without a prefix. -/
def plainCompiler : Compiler :=
  ⟨Whitelist.builtin, .postgres, ""⟩

/-- Tenancy over the builtin schema. -/
def plainInjector : Injector :=
  ⟨⟨true, "u", "id", "membership", "user_id", "unit_id", []⟩, ""⟩

theorem crowdedReport_runs : ∃ compiled restricted,
    plainCompiler.compile crowdedReport crowdedParams = .ok compiled ∧
      plainInjector.injectQuery (.units (UnitSet.ofList [4, 2])) compiled = .ok restricted := by
  obtain ⟨compiled, hcompiled, restricted, hrestricted⟩ : ∃ compiled,
      plainCompiler.compile crowdedReport crowdedParams = .ok compiled ∧ ∃ restricted,
        plainInjector.injectQuery (.units (UnitSet.ofList [4, 2])) compiled = .ok restricted := by
    decide +kernel
  exact ⟨compiled, restricted, hcompiled, hrestricted⟩

theorem compile_binds_crowded : ∃ filters compiled restricted,
    plainCompiler.compile crowdedReport crowdedParams = .ok compiled ∧
      plainInjector.injectQuery (.units (UnitSet.ofList [4, 2])) compiled = .ok restricted ∧
      filters.map CompiledFilter.spec = crowdedReport.filters ∧
      compiled.Binds filters ∧ restricted.Binds filters := by
  obtain ⟨compiled, restricted, hcompiled, hrestricted⟩ := crowdedReport_runs
  obtain ⟨⟨filters, hspecs, -, -, -, hbinds, hscoping⟩, -⟩ := compile_binds hcompiled
  exact ⟨filters, compiled, restricted, hcompiled, hrestricted, hspecs, hbinds,
    hscoping _ _ _ hrestricted⟩

end Compiler

end ReportSql
