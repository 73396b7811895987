import ReportSql.Proofs.Compile.Names

/-!
# Qualifiers in compiled reports

Every column of a compiled report is qualified by the alias of its table. The compiler tells
aliases apart exactly as they are written. They are printed bare unless they are reserved words,
and bare names are the same in any ASCII case. As every table takes part in a join, each alias is
in use once there are two tables, so the qualifiers denote one table each just when the aliases
differ by more than case.

## Main definitions

* `DistinctIgnoringCase` - names that differ by more than ASCII case
* `Query.denoted` - the tables that a bare qualifier denotes
* `Query.Resolves` - a column whose qualifier denotes exactly one table

## Main results

* `Compiler.resolves_iff_distinctIgnoringCase` - when every qualifier denotes one table
* `Compiler.compile_qualifiers` - the qualifiers of a compiled report, before and after scoping
-/

namespace ReportSql

/-- Names that differ by more than ASCII case. -/
def DistinctIgnoringCase (names : List String) : Prop :=
  (names.map Text.lowerAscii).Nodup

instance (names : List String) : Decidable (DistinctIgnoringCase names) :=
  inferInstanceAs (Decidable (List.Nodup _))

namespace Query

variable {q : Query}

/-- The names by which the tables at the top of a query are known. -/
def tableNames (q : Query) : List String :=
  q.topLevelTables.map (·.exposedName)

/-- The tables at the top of a query that a bare qualifier denotes. -/
def denoted (q : Query) (qualifier : String) : List TableRef :=
  q.topLevelTables.filter fun t => Text.sameIgnoringCase qualifier t.exposedName

/-- The qualifier of a column denotes exactly one table. -/
def Resolves (q : Query) (use : ColumnUse) : Prop :=
  ∃ name t, use.qualifier = some name ∧ q.denoted name = [t]

theorem names_denoted (q : Query) (qualifier : String) :
    (q.denoted qualifier).map (·.exposedName) =
      q.tableNames.filter (Text.sameIgnoringCase qualifier) := by
  rw [tableNames, List.filter_map]
  rfl

/-- As many tables are denoted as there are names that are the same in lower case. -/
theorem length_denoted (q : Query) (qualifier : String) :
    (q.denoted qualifier).length =
      (q.tableNames.map Text.lowerAscii).count (Text.lowerAscii qualifier) := by
  rw [← List.length_map (·.exposedName), names_denoted, ← List.countP_eq_length_filter, List.count,
    List.countP_map]
  refine List.countP_congr fun name _ => ?_
  rw [Text.sameIgnoringCase, Function.comp_apply, beq_iff_eq, beq_iff_eq, eq_comm]

theorem denoted_eq_singleton {qualifier : String} : (∃ t, q.denoted qualifier = [t]) ↔
    (q.tableNames.map Text.lowerAscii).count (Text.lowerAscii qualifier) = 1 := by
  rw [← length_denoted, List.length_eq_one_iff]

/-- Names that differ by more than case denote one table each. -/
theorem denoted_of_distinct (h : DistinctIgnoringCase q.tableNames) {qualifier : String}
    (hsome : q.denoted qualifier ≠ []) : ∃ t, q.denoted qualifier = [t] := by
  rw [denoted_eq_singleton]
  have hpos : (q.tableNames.map Text.lowerAscii).count (Text.lowerAscii qualifier) ≠ 0 := by
    rwa [← length_denoted, Ne, List.length_eq_zero_iff]
  have hle := List.nodup_iff_count_le_one.1 h (Text.lowerAscii qualifier)
  omega

theorem denoted_ne_nil {qualifier : String} : q.denoted qualifier ≠ [] ↔
    ∃ name ∈ q.tableNames, Text.sameIgnoringCase qualifier name = true := by
  rw [Ne, denoted, List.filter_eq_nil_iff, tableNames]
  simp

theorem topLevelTables_andWhere (q : Query) (condition : Expr) :
    (q.andWhere condition).topLevelTables = q.topLevelTables :=
  rfl

end Query

namespace Compiler

variable {c : Compiler}

/-! ## Aliases in use -/

theorem columnUses_foldl_and (first : Expr) (rest : List Expr) :
    (rest.foldl Expr.and first).columnUses = first.columnUses ++ rest.flatMap Expr.columnUses := by
  induction rest generalizing first with
  | nil => simp
  | cons e rest ih =>
    rw [List.foldl_cons, ih, List.flatMap_cons, ← List.append_assoc]
    rfl

/-- The condition of a join uses columns of both of its tables. -/
theorem exists_use_joinCondition {spec : JoinSpec} {on : Expr} (h : joinCondition spec = .ok on) :
    (∃ use ∈ on.columnUses, use.qualifier = some spec.left) ∧
      ∃ use ∈ on.columnUses, use.qualifier = some spec.right := by
  obtain ⟨pair, rest, -, rfl⟩ := joinCondition_eq_ok.1 h
  rw [columnUses_foldl_and]
  simp [pairCondition, Expr.eq, Expr.qualified, Expr.columnUses]

/-- A join uses columns of the table that it introduces and of one that was placed before. -/
theorem Introduces.exists_use {placed : List String} {t : AliasedTable} {spec : JoinSpec}
    {join : Join} (h : c.Introduces placed t spec join) :
    (∃ use ∈ join.on.columnUses, use.qualifier = some t.name) ∧
      ∃ earlier ∈ placed, ∃ use ∈ join.on.columnUses, use.qualifier = some earlier := by
  obtain ⟨hleft, hright⟩ := exists_use_joinCondition h.condition
  obtain ⟨earlier, hearlier, ⟨hfirst, hsecond⟩ | ⟨hfirst, hsecond⟩, -⟩ := h.scope
  · exact ⟨hsecond ▸ hright, earlier, hearlier, hfirst ▸ hleft⟩
  · exact ⟨hfirst ▸ hleft, earlier, hearlier, hsecond ▸ hright⟩

theorem Placement.exists_use {placed : List String} {tables : List AliasedTable}
    {specs : List JoinSpec} {joins : List Join} (h : c.Placement placed tables specs joins) :
    ∀ t ∈ tables, ∃ join ∈ joins, ∃ use ∈ join.on.columnUses, use.qualifier = some t.name := by
  induction h with
  | nil placed => simp
  | @cons _ _ _ _ _ join _ first _ ih =>
    refine List.forall_mem_cons.2 ⟨⟨join, List.mem_cons_self, first.exists_use.1⟩, fun t ht => ?_⟩
    obtain ⟨other, hother, huse⟩ := ih t ht
    exact ⟨other, List.mem_cons_of_mem _ hother, huse⟩

variable {config : QueryConfig} {q : Query}

theorem WellJoined.tableNames (h : c.WellJoined config q) :
    q.tableNames = config.tables.map TableSpec.name := by
  obtain ⟨first, rest, specs, hmap, hsource, -, hplacement⟩ := h.placed
  have htop : q.topLevelTables = (first :: rest).map c.tableRef := by
    rw [Query.topLevelTables, hsource, hplacement.tables]
    rfl
  rw [Query.tableNames, htop, ← hmap, List.map_map, List.map_map]
  rfl

/-- Where there are two tables, the alias of each is in use. -/
theorem WellJoined.exists_use (h : c.WellJoined config q) (htwo : 2 ≤ config.tables.length) :
    ∀ name ∈ config.tables.map TableSpec.name, ∃ use ∈ q.columnUses, use.qualifier = some name := by
  obtain ⟨first, rest, specs, hmap, -, -, hplacement⟩ := h.placed
  have hjoin : ∀ {name join use}, join ∈ q.joins → use ∈ join.on.columnUses →
      use.qualifier = some name → ∃ use ∈ q.columnUses, use.qualifier = some name :=
    fun hjoin huse hname => ⟨_, Query.mem_columnUses.2 (.inr (.inr (.inl ⟨_, hjoin, huse⟩))), hname⟩
  have hnames : config.tables.map TableSpec.name = first.name :: rest.map (·.name) := by
    rw [← List.map_cons (f := AliasedTable.name), ← hmap, List.map_map]
    rfl
  rw [hnames]
  refine List.forall_mem_cons.2 ⟨?_, fun name hname => ?_⟩
  · -- the join of the second table can only link it to the first one
    have hlength := congrArg List.length hmap
    rw [List.length_map, List.length_cons] at hlength
    generalize hjoins : q.joins = joins at hplacement
    cases hplacement with
    | nil =>
      rw [List.length_nil] at hlength
      omega
    | cons introduces _ =>
      obtain ⟨-, earlier, hearlier, use, huse, hname⟩ := introduces.exists_use
      obtain rfl := List.mem_singleton.1 hearlier
      exact hjoin (hjoins.symm ▸ List.mem_cons_self) huse hname
  · obtain ⟨t, ht, rfl⟩ := List.mem_map.1 hname
    obtain ⟨join, hmem, use, huse, hname⟩ := hplacement.exists_use t ht
    exact hjoin hmem huse hname

/-! ## Reports -/

/-- A qualifier of a compiled report is an alias, so it denotes one of the tables at least. -/
theorem exists_denoted {params : Params} {compiled : CompiledQuery} (hw : c.whitelist.Built)
    (h : c.compile config params = .ok compiled) : ∀ use ∈ compiled.query.columnUses,
      ∃ name ∈ compiled.query.tableNames, use.qualifier = some name := by
  intro use huse
  obtain ⟨tables, -, -, hclauses⟩ := compile_clauses hw h
  obtain ⟨t, ht, column, -, rfl⟩ := hclauses.checked_columns use huse
  refine ⟨t.name, ?_, rfl⟩
  rw [Query.tableNames, hclauses.placed, List.map_map]
  exact List.mem_map.2 ⟨t, ht, rfl⟩

/-- Every qualifier denotes one table just when the aliases differ by more than case. -/
theorem resolves_iff_distinctIgnoringCase {params : Params} {compiled : CompiledQuery}
    (hw : c.whitelist.Built) (h : c.compile config params = .ok compiled) :
    (∀ use ∈ compiled.query.columnUses, compiled.query.Resolves use) ↔
      DistinctIgnoringCase (config.tables.map TableSpec.name) := by
  have hjoined := wellJoined_of_compile h
  rw [← hjoined.tableNames]
  constructor
  · intro hresolves
    by_cases htwo : 2 ≤ config.tables.length
    · refine List.nodup_iff_count_eq_one.2 fun lower hlower => ?_
      obtain ⟨name, hname, rfl⟩ := List.mem_map.1 hlower
      -- the alias is in use, so one table is denoted by it
      obtain ⟨use, huse, hqualifier⟩ :=
        hjoined.exists_use htwo name (hjoined.tableNames ▸ hname)
      obtain ⟨_, t, hsome, hone⟩ := hresolves use huse
      obtain rfl := Option.some.inj (hqualifier.symm.trans hsome)
      exact Query.denoted_eq_singleton.1 ⟨t, hone⟩
    · have hlength : (compiled.query.tableNames.map Text.lowerAscii).length ≤ 1 := by
        rw [List.length_map, hjoined.tableNames, List.length_map]
        omega
      exact List.nodup_iff_count_le_one.2 fun _ => List.count_le_length.trans hlength
  · intro hdistinct use huse
    obtain ⟨name, hname, hqualifier⟩ := exists_denoted hw h use huse
    obtain ⟨t, hone⟩ := Query.denoted_of_distinct hdistinct (Query.denoted_ne_nil.2
      ⟨name, hname, beq_self_eq_true _⟩)
    exact ⟨name, t, hqualifier, hone⟩

/-- The qualifiers of a compiled report. Its aliases are distinct as they are written, and every
qualifier denotes one table just when they differ by more than case. Scoping leaves the tables as
they are. It wants the alias of the users among them in any case, so the alias denotes the tables of
all the aliases that are the same in lower case. -/
theorem compile_qualifiers {params : Params} {compiled : CompiledQuery} (hw : c.whitelist.Built)
    (h : c.compile config params = .ok compiled) :
    compiled.query.tableNames = config.tables.map TableSpec.name ∧
      compiled.query.tableNames.Nodup ∧
      (∀ use ∈ compiled.query.columnUses,
        ∃ name ∈ compiled.query.tableNames, use.qualifier = some name) ∧
      ((∀ use ∈ compiled.query.columnUses, compiled.query.Resolves use) ↔
        DistinctIgnoringCase (config.tables.map TableSpec.name)) ∧
      ∀ (i : Injector) (units : UnitSet) (restricted : CompiledQuery),
        i.injectQuery (.units units) compiled = .ok restricted →
          restricted.query.topLevelTables = compiled.query.topLevelTables ∧
          (restricted.query.denoted i.settings.userAlias).map (·.exposedName) =
            (config.tables.map TableSpec.name).filter
              (Text.sameIgnoringCase i.settings.userAlias) ∧
          restricted.query.denoted i.settings.userAlias ≠ [] ∧
          (DistinctIgnoringCase (config.tables.map TableSpec.name) →
            ∃ t, restricted.query.denoted i.settings.userAlias = [t]) := by
  have hjoined := wellJoined_of_compile h
  have hnames := hjoined.tableNames
  refine ⟨hnames, hnames ▸ hjoined.distinct, exists_denoted hw h,
    resolves_iff_distinctIgnoringCase hw h, fun i units restricted hscoped => ?_⟩
  obtain ⟨halias, -, rfl⟩ := Injector.injectQuery_units.1 hscoped
  have hdenoted : ∀ name, (compiled.query.andWhere (i.predicate units).1).denoted name =
      compiled.query.denoted name := fun name => rfl
  have hsome : compiled.query.denoted i.settings.userAlias ≠ [] :=
    Query.denoted_ne_nil.2 (Injector.checkUserAlias_eq_ok.1 halias)
  refine ⟨Query.topLevelTables_andWhere _ _, ?_, ?_, fun hdistinct => ?_⟩
  · rw [hdenoted, Query.names_denoted, hnames]
  · rwa [hdenoted]
  · rw [hdenoted]
    exact Query.denoted_of_distinct (hnames ▸ hdistinct) hsome

/-- A report whose tables go by `u` and `U`. -/
def twinReport : QueryConfig where
  tables := [⟨"user", some "u"⟩, ⟨"enrolment", some "U"⟩]
  columns := [⟨"u", "id", none, none⟩]
  joins := [⟨"u", "U", "inner", [("id", "user_id")]⟩]
  filters := []
  groupBy := []
  orderBy := []

/-- The report compiles, and it can be scoped. The alias of the users then denotes both tables. -/
theorem twinReport_denoted : ∃ compiled restricted,
    plainCompiler.compile twinReport .empty = .ok compiled ∧
      plainInjector.injectQuery (.units (UnitSet.ofList [5])) compiled = .ok restricted ∧
      ¬ DistinctIgnoringCase compiled.query.tableNames ∧
      (¬ ∀ use ∈ compiled.query.columnUses, compiled.query.Resolves use) ∧
      (restricted.query.denoted plainInjector.settings.userAlias).map (·.exposedName) =
        ["u", "U"] := by
  obtain ⟨compiled, hcompiled, restricted, hscoped⟩ : ∃ compiled,
      plainCompiler.compile twinReport .empty = .ok compiled ∧ ∃ restricted,
        plainInjector.injectQuery (.units (UnitSet.ofList [5])) compiled = .ok restricted := by
    decide +kernel
  have hsmall : Text.lowerAscii "u" = "u" := by decide +kernel
  have hlarge : Text.lowerAscii "U" = "u" := by decide +kernel
  have htwins : ¬ DistinctIgnoringCase (twinReport.tables.map TableSpec.name) := by
    simp [DistinctIgnoringCase, twinReport, TableSpec.name, hsmall, hlarge]
  have hnames := (wellJoined_of_compile hcompiled).tableNames
  refine ⟨compiled, restricted, hcompiled, hscoped, by rwa [hnames], fun hall => ?_, ?_⟩
  · exact htwins
      ((resolves_iff_distinctIgnoringCase Whitelist.built_builtin hcompiled).1 hall)
  · obtain ⟨-, -, rfl⟩ := Injector.injectQuery_units.1 hscoped
    rw [Query.names_denoted, Query.tableNames, Query.topLevelTables_andWhere,
      ← Query.tableNames, hnames]
    simp [plainInjector, twinReport, TableSpec.name, Text.sameIgnoringCase, hsmall, hlarge]

theorem compile_qualifiers_enrolments : ∃ compiled restricted,
    prefixedCompiler.compile enrolmentReport (NameMap.ofList [("status", .int 1)]) = .ok compiled ∧
      prefixedSettings.injector.injectQuery (.units (UnitSet.ofList [4, 2])) compiled =
        .ok restricted ∧
      (∀ use ∈ compiled.query.columnUses, compiled.query.Resolves use) ∧
      ∃ t, restricted.query.denoted prefixedSettings.injector.settings.userAlias = [t] := by
  obtain ⟨compiled, restricted, hcompiled, hrestricted⟩ := enrolmentReport_runs
  have hdistinct : DistinctIgnoringCase (enrolmentReport.tables.map TableSpec.name) := by
    decide +kernel
  obtain ⟨-, -, -, hiff, hscoping⟩ := compile_qualifiers Whitelist.built_builtin hcompiled
  obtain ⟨-, -, -, hone⟩ := hscoping _ _ restricted hrestricted
  exact ⟨compiled, restricted, hcompiled, hrestricted, hiff.2 hdistinct, hone hdistinct⟩

end Compiler

end ReportSql
