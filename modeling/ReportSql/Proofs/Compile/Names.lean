import ReportSql.Proofs.Compile.Joins
import ReportSql.Proofs.Scope.Injection
import ReportSql.Settings.Basic

/-!
# Names in compiled reports

Columns are checked before the query is put together. Every column in any clause of
the query is one that was checked, for the table behind its alias, and every
identifier that is printed is plain. The condition of a scope keeps the identifiers
plain when the settings are valid.

## Main definitions

* `Query.Whitelisted` - the tables and columns of a query are in a whitelist
* `CompiledQuery.PlainNames` - the identifiers in every form of a query are plain

## Main results

* `Compiler.compile_whitelisted` - the names of a compiled report, before and after scoping
-/

namespace ReportSql

open Fragment

/-- Every table of a query is the lower case of a whitelisted one behind the prefix. The tables have
names of their own, and every column is qualified by such a name and whitelisted for its table. -/
structure Query.Whitelisted (w : Whitelist) (tablePrefix : String) (q : Query) : Prop where
  source : ∃ ref, q.source = some (.table ref)
  tables : ∀ ref ∈ q.topLevelTables, ∃ table, w.allowsTable table = true ∧
    ref.table = tablePrefix ++ Text.lowerAscii table
  names : (q.topLevelTables.map (·.exposedName)).Nodup
  columns : ∀ use ∈ q.columnUses, ∃ ref ∈ q.topLevelTables, ∃ table column,
    ref.table = tablePrefix ++ Text.lowerAscii table ∧ w.allowsColumn table column = true ∧
      use = ⟨some ref.exposedName, some column⟩

/-- The identifiers in the query, in its count and in every page are plain. -/
structure CompiledQuery.PlainNames (q : CompiledQuery) : Prop where
  query : AllPlain (q.query.fragments (.lines q.dialect))
  count : AllPlain (q.query.countQuery.fragments (.lines q.dialect))
  paged : ∀ page pageSize, AllPlain ((q.query.paged page pageSize).fragments (.lines q.dialect))

/-- The three forms of a query print the same identifiers, apart from the names of the count. -/
theorem CompiledQuery.plainNames_of_query {q : CompiledQuery}
    (h : AllPlain (q.query.fragments (.lines q.dialect))) : q.PlainNames := by
  obtain ⟨hselect, hsource, hjoins, hcondition, hgroupBy, horderBy⟩ := (Query.allPlain_fragments _ _).1 h
  have hcounted : AllPlain
      (Query.fragments (.lines q.dialect) { q.query with orderBy := [], window := none }) :=
    (Query.allPlain_fragments _ _).2 ⟨hselect, hsource, hjoins, hcondition, hgroupBy, by simp⟩
  refine ⟨h, ?_, fun page pageSize => (Query.allPlain_fragments _ _).2
    ⟨hselect, hsource, hjoins, hcondition, hgroupBy, horderBy⟩⟩
  have hnames : Dialect.isPlainIdentifier Query.countColumn = true ∧
      Dialect.isPlainIdentifier Query.countTable = true := by decide
  rw [Query.allPlain_fragments]
  simp [Query.countQuery, Query.empty, Source.fragments, Expr.countAll, Expr.fragments,
    Layout.dialect, IsPlain, hcounted, hnames]

/-- A further condition adds its identifiers. -/
theorem Query.allPlain_andWhere {layout : Layout} {q : Query} {condition : Expr}
    (hquery : AllPlain (q.fragments layout)) (hcondition : AllPlain condition.fragments) :
    AllPlain ((q.andWhere condition).fragments layout) := by
  obtain ⟨hselect, hsource, hjoins, hpresent, hgroupBy, horderBy⟩ := (Query.allPlain_fragments _ _).1 hquery
  refine (Query.allPlain_fragments _ _).2 ⟨hselect, hsource, hjoins, ?_, hgroupBy, horderBy⟩
  unfold andWhere
  split <;> simp_all [Expr.and, Expr.fragments, IsPlain]

/-! ## Checked expressions -/

/-- An expression that a report is compiled to, over checked columns: each is qualified by the alias of a
table and whitelisted for that table, and its identifiers are plain. -/
inductive Expr.Checked (w : Whitelist) (tables : List AliasedTable) : Expr → Prop
  | column {t : AliasedTable} {column : String} (htable : t ∈ tables)
      (hallowed : w.allowsColumn t.table column = true)
      (hname : Dialect.isPlainIdentifier t.name = true)
      (hcolumn : Dialect.isPlainIdentifier column = true) : Checked w tables (.qualified t.name column)
  | never : Checked w tables .never
  | placeholder (name : String) : Checked w tables (.placeholder name)
  | paren {e : Expr} (h : Checked w tables e) : Checked w tables (.paren e)
  | binary {left right : Expr} (op : BinaryOp) (hleft : Checked w tables left)
      (hright : Checked w tables right) : Checked w tables (.binary op left right)
  | summary {e : Expr} (a : Aggregate) (h : Checked w tables e) : Checked w tables (a.apply e)
  | inList {operand : Expr} {values : List Expr} (negated : Bool) (hoperand : Checked w tables operand)
      (hvalues : ∀ e ∈ values, Checked w tables e) : Checked w tables (.inList operand values negated)

namespace Expr.Checked

variable {w : Whitelist} {tables : List AliasedTable} {e : Expr}

theorem columns (h : Checked w tables e) : ∀ use ∈ e.columnUses, ∃ t ∈ tables, ∃ column,
    w.allowsColumn t.table column = true ∧ use = ⟨some t.name, some column⟩ := by
  induction h with
  | @column t column htable hallowed =>
    intro use huse
    rw [Expr.qualified, columnUses, List.mem_singleton] at huse
    exact ⟨t, htable, column, hallowed, huse⟩
  | never => simp [Expr.never, Expr.eq, columnUses]
  | placeholder name => simp [columnUses]
  | paren _ ih => exact ih
  | binary op _ _ ihleft ihright =>
    intro use huse
    rw [columnUses] at huse
    exact (List.mem_append.1 huse).elim (ihleft use) (ihright use)
  | summary a _ ih => simpa [Aggregate.apply, columnUses, columnUsesOf] using ih
  | inList negated _ _ ihoperand ihvalues =>
    intro use huse
    rw [columnUses, columnUsesOf_eq] at huse
    rcases List.mem_append.1 huse with huse | huse
    · exact ihoperand use huse
    · obtain ⟨e, he, huse⟩ := List.mem_flatMap.1 huse
      exact ihvalues e he use huse

theorem plain (h : Checked w tables e) : AllPlain e.fragments := by
  induction h with
  | column _ _ hname hcolumn => simp [Expr.qualified, fragments, IsPlain, hname, hcolumn]
  | never => simp [Expr.never, Expr.eq, fragments, IsPlain]
  | placeholder name => simp [fragments, IsPlain]
  | paren _ ih => simp [fragments, IsPlain, ih]
  | binary op _ _ ihleft ihright => simp [fragments, IsPlain, ihleft, ihright]
  | summary a _ ih => simp [Aggregate.apply, fragments, IsPlain, ih]
  | inList negated _ _ ihoperand ihvalues => exact allPlain_inList negated ihoperand ihvalues

theorem foldl_binary {first : Expr} {rest : List Expr} (op : BinaryOp)
    (h : ∀ e ∈ first :: rest, Checked w tables e) :
    Checked w tables (rest.foldl (Expr.binary op) first) := by
  induction rest generalizing first with
  | nil => exact h first List.mem_cons_self
  | cons e rest ih =>
    obtain ⟨hfirst, he, hrest⟩ : Checked w tables first ∧ Checked w tables e ∧
        ∀ e ∈ rest, Checked w tables e := by simpa using h
    exact ih (List.forall_mem_cons.2 ⟨hfirst.binary op he, hrest⟩)

end Expr.Checked

namespace Compiler

variable {c : Compiler} {tables : List AliasedTable}

/-- A column that was checked. -/
theorem checked_qualified {column : ColumnRef} (hw : c.whitelist.Built)
    (htables : ∀ t ∈ tables, c.Resolved t) (h : c.checkColumn tables column = .ok ()) :
    (Expr.qualified column.table column.column).Checked c.whitelist tables := by
  obtain ⟨t, ht, hname, hallowed⟩ := checkColumn_eq_ok h
  rw [← hname]
  exact .column ht hallowed (htables t ht).name (hw.isPlainIdentifier_column hallowed)

/-! ## Clauses -/

variable {w : Whitelist}

theorem checked_joinCondition {join : JoinSpec} {on : Expr} (h : joinCondition join = .ok on)
    (hrefs : ∀ column ∈ join.refs, (Expr.qualified column.table column.column).Checked w tables) :
    on.Checked w tables := by
  have hpair : ∀ pair ∈ join.on, (pairCondition join pair).Checked w tables := by
    intro pair hpair
    have hmem : ∀ column ∈ [ColumnRef.mk join.left pair.1, ⟨join.right, pair.2⟩],
        column ∈ join.refs := fun column hcolumn => List.mem_flatMap.2 ⟨pair, hpair, hcolumn⟩
    exact (hrefs _ (hmem _ List.mem_cons_self)).binary .eq
      (hrefs _ (hmem _ (List.mem_cons_of_mem _ List.mem_cons_self)))
  obtain ⟨pair, rest, hpairs, rfl⟩ := joinCondition_eq_ok.1 h
  rw [hpairs] at hpair
  obtain ⟨hfirst, hrest⟩ := List.forall_mem_cons.1 hpair
  exact .foldl_binary .and (List.forall_mem_cons.2 ⟨hfirst, List.forall_mem_map.2 hrest⟩)

theorem checked_condition {f : CompiledFilter} (h : f.column.Checked w tables) :
    f.condition.Checked w tables := by
  unfold CompiledFilter.condition
  split
  · exact .never
  · split
    · refine .inList false h fun e he => ?_
      obtain ⟨slot, -, rfl⟩ := List.mem_map.1 he
      exact .placeholder _
    · cases f.operator
      case isIn => exact .inList false h fun e he => List.mem_singleton.1 he ▸ .placeholder _
      all_goals exact h.binary _ (.placeholder _)

theorem checked_groupCondition {conditions : List Expr}
    (h : ∀ e ∈ conditions, e.Checked w tables) :
    ∀ e ∈ groupCondition? conditions, e.Checked w tables := by
  rcases conditions with _ | ⟨first, _ | ⟨second, rest⟩⟩
  · simp [groupCondition?]
  · simpa [groupCondition?] using h
  · intro e he
    obtain rfl := Option.some.inj he
    exact (Expr.Checked.foldl_binary .or h).paren

theorem checked_conjunction {conditions : List Expr} (h : ∀ e ∈ conditions, e.Checked w tables) :
    ∀ e ∈ conjunction? conditions, e.Checked w tables := by
  cases conditions with
  | nil => simp [conjunction?]
  | cons first rest =>
    intro e he
    obtain rfl := Option.some.inj he
    exact .foldl_binary .and h

theorem checked_filterCondition {filters : List CompiledFilter}
    (h : ∀ f ∈ filters, f.column.Checked w tables) :
    ∀ e ∈ filterCondition? filters, e.Checked w tables := by
  refine checked_conjunction fun group hgroup => ?_
  obtain ⟨run, hrun, hsome⟩ := List.mem_filterMap.1 hgroup
  refine checked_groupCondition (fun e he => ?_) group hsome
  obtain ⟨f, hf, rfl⟩ := List.mem_map.1 he
  refine checked_condition (h f ?_)
  rw [← flatten_orRuns filters]
  exact List.mem_flatten_of_mem hrun hf

theorem isPlainIdentifier_aggregate (a : Aggregate) {column : String}
    (h : Dialect.isPlainIdentifier column = true) :
    Dialect.isPlainIdentifier (a.name ++ "_" ++ column) = true := by
  have hstart : Dialect.isPlainIdentifier (a.name ++ "_") = true := by cases a <;> decide
  exact Dialect.isPlainIdentifier_append (.inr hstart) h

/-- An output column is checked, and so is its alias. -/
theorem checked_selectItem {spec : ColumnSpec} {item : SelectItem} (h : selectItem spec = .ok item)
    (hcolumn : (Expr.qualified spec.table spec.column).Checked w tables)
    (hplain : Dialect.isPlainIdentifier spec.column = true) :
    item.expr.Checked w tables ∧ ∀ name ∈ item.alias?, Dialect.isPlainIdentifier name = true := by
  obtain ⟨aggregate, -, hexpr, halias⟩ := selectItem_eq_ok h
  refine ⟨?_, fun name hname => ?_⟩
  · rw [hexpr]
    cases aggregate with
    | none => exact hcolumn
    | some aggregate => exact hcolumn.summary aggregate
  · rcases halias name hname with hname | ⟨a, rfl⟩
    · exact hname
    · exact isPlainIdentifier_aggregate a hplain

theorem checked_orderItem {spec : OrderSpec} {item : OrderItem} (h : orderItem spec = .ok item)
    (hcolumn : (Expr.qualified spec.table spec.column).Checked w tables) :
    item.expr.Checked w tables := by
  unfold orderItem at h
  obtain ⟨direction, -, h⟩ := bind_eq_ok.1 h
  obtain rfl := Except.ok.inj h
  exact hcolumn

/-! ## Reports -/

/-- The clauses of a compiled report: its tables stand in it once, under their aliases, and every
expression of any clause is checked. -/
structure Clauses (c : Compiler) (tables : List AliasedTable) (q : Query) : Prop where
  source : ∃ ref, q.source = some (.table ref)
  placed : q.topLevelTables = tables.map c.tableRef
  select : ∀ item ∈ q.select, item.expr.Checked c.whitelist tables ∧
    ∀ name ∈ item.alias?, Dialect.isPlainIdentifier name = true
  joins : ∀ join ∈ q.joins, join.on.Checked c.whitelist tables
  condition : ∀ e ∈ q.condition, e.Checked c.whitelist tables
  groupBy : ∀ e ∈ q.groupBy, e.Checked c.whitelist tables
  orderBy : ∀ item ∈ q.orderBy, item.expr.Checked c.whitelist tables

theorem compile_clauses {config : QueryConfig} {params : Params} {compiled : CompiledQuery}
    (hw : c.whitelist.Built) (h : c.compile config params = .ok compiled) :
    ∃ tables, (∀ t ∈ tables, c.Resolved t) ∧ (tables.map (·.name)).Nodup ∧
      c.Clauses tables compiled.query := by
  obtain ⟨p, rfl⟩ := compile_iff_parts.1 h
  obtain ⟨hresolved, hnodup⟩ := resolveTables_eq_ok p.resolved
  have hchecked := fun column hmem => checked_qualified hw hresolved (p.checked column hmem)
  obtain ⟨hsource, hplaced, hconditions⟩ := joinTables_tables p.linked
  obtain ⟨filters, hspecs, -, -, -, -, hcondition⟩ := compileFilters_spec p.filtered
  refine ⟨p.tables, hresolved, hnodup, ⟨hsource, hplaced, ?_, ?_, ?_, ?_, ?_⟩⟩
  · intro item hitem
    obtain ⟨spec, hspec, hitem⟩ := exists_of_mem_mapM p.selected hitem
    have hmem : spec.ref ∈ config.columnRefs := mem_columnRefs.2 (.inl ⟨spec, hspec, rfl⟩)
    obtain ⟨t, -, -, hallowed⟩ := checkColumn_eq_ok (p.checked _ hmem)
    exact checked_selectItem hitem (hchecked _ hmem) (hw.isPlainIdentifier_column hallowed)
  · intro join hjoin
    obtain ⟨spec, hspec, hon⟩ := hconditions join hjoin
    exact checked_joinCondition hon fun column hmem =>
      hchecked column (mem_columnRefs.2 (.inr (.inl ⟨spec, hspec, hmem⟩)))
  · intro e he
    rw [Parts.compiled, hcondition] at he
    refine checked_filterCondition (fun f hf => hchecked ⟨f.spec.table, f.spec.column⟩ ?_) e he
    have hspec : f.spec ∈ config.filters := hspecs ▸ List.mem_map_of_mem hf
    exact mem_columnRefs.2 (.inr (.inr (.inl ⟨f.spec, hspec, rfl⟩)))
  · intro e he
    obtain ⟨column, hmem, rfl⟩ := List.mem_map.1 he
    exact hchecked column (mem_columnRefs.2 (.inr (.inr (.inr (.inl hmem)))))
  · intro item hitem
    obtain ⟨spec, hspec, hitem⟩ := exists_of_mem_mapM p.ordered hitem
    exact checked_orderItem hitem (hchecked ⟨spec.table, spec.column⟩
      (mem_columnRefs.2 (.inr (.inr (.inr (.inr ⟨spec, hspec, rfl⟩))))))

namespace Clauses

variable {q : Query}

theorem checked_columns (h : c.Clauses tables q) : ∀ use ∈ q.columnUses, ∃ t ∈ tables, ∃ column,
    c.whitelist.allowsColumn t.table column = true ∧ use = ⟨some t.name, some column⟩ := by
  intro use huse
  rcases Query.mem_columnUses.1 huse with ⟨item, hmem, huse⟩ | ⟨source, hmem, huse⟩ |
    ⟨join, hmem, huse⟩ | ⟨e, hmem, huse⟩ | ⟨e, hmem, huse⟩ | ⟨item, hmem, huse⟩
  · exact (h.select item hmem).1.columns use huse
  · -- the source is a table, which uses no column
    obtain ⟨ref, href⟩ := h.source
    obtain rfl := Option.some.inj (href.symm.trans hmem)
    exact absurd huse List.not_mem_nil
  · exact (h.joins join hmem).columns use huse
  · exact (h.condition e hmem).columns use huse
  · exact (h.groupBy e hmem).columns use huse
  · exact (h.orderBy item hmem).columns use huse

theorem whitelisted (h : c.Clauses tables q) (htables : ∀ t ∈ tables, c.Resolved t)
    (hnodup : (tables.map (·.name)).Nodup) : q.Whitelisted c.whitelist c.tablePrefix where
  source := h.source
  tables := by
    intro ref href
    rw [h.placed] at href
    obtain ⟨t, ht, rfl⟩ := List.mem_map.1 href
    obtain ⟨table, hallowed, htable⟩ := (htables t ht).table
    exact ⟨table, hallowed, congrArg (c.tablePrefix ++ ·) htable⟩
  names := by
    rw [h.placed, List.map_map]
    exact hnodup
  columns := by
    intro use huse
    obtain ⟨t, ht, column, hallowed, rfl⟩ := h.checked_columns use huse
    obtain ⟨table, -, htable⟩ := (htables t ht).table
    refine ⟨c.tableRef t, h.placed ▸ List.mem_map_of_mem ht, t.table, column, ?_, hallowed, rfl⟩
    rw [htable, Text.lowerAscii_lowerAscii, tableRef, htable]

theorem allPlain_tables (h : c.Clauses tables q) (hw : c.whitelist.Built)
    (htables : ∀ t ∈ tables, c.Resolved t)
    (hpre : c.tablePrefix = "" ∨ Dialect.isPlainIdentifier c.tablePrefix = true) :
    ∀ ref ∈ q.topLevelTables, AllPlain ref.fragments := by
  intro ref href
  rw [h.placed] at href
  obtain ⟨t, ht, rfl⟩ := List.mem_map.1 href
  obtain ⟨table, hallowed, htable⟩ := (htables t ht).table
  have hplain : Dialect.isPlainIdentifier t.table = true := by
    rw [htable, Dialect.isPlainIdentifier_lowerAscii]
    exact hw.wellFormed.isPlainIdentifier hallowed
  simp [tableRef, Dialect.isPlainIdentifier_append hpre hplain, (htables t ht).name]

theorem allPlain (h : c.Clauses tables q) (hw : c.whitelist.Built)
    (htables : ∀ t ∈ tables, c.Resolved t)
    (hpre : c.tablePrefix = "" ∨ Dialect.isPlainIdentifier c.tablePrefix = true)
    (layout : Layout) : AllPlain (q.fragments layout) := by
  have hplain := h.allPlain_tables hw htables hpre
  refine (Query.allPlain_fragments layout q).2 ⟨fun item hitem => ?_, fun source hsource => ?_,
    fun join hjoin => ⟨hplain _ ?_, (h.joins join hjoin).plain⟩, fun e he => (h.condition e he).plain,
    fun e he => (h.groupBy e he).plain, fun item hitem => (h.orderBy item hitem).plain⟩
  · obtain ⟨hexpr, hname⟩ := h.select item hitem
    exact ⟨hexpr.plain, hname⟩
  · obtain ⟨ref, href⟩ := h.source
    obtain rfl := Option.some.inj (href.symm.trans hsource)
    rw [Source.fragments]
    exact hplain ref (by simp [Query.topLevelTables, href])
  · exact List.mem_append_right _ (List.mem_map_of_mem hjoin)

end Clauses

end Compiler

/-! ## Scopes -/

/-- What valid settings put into generated SQL. -/
theorem Settings.validate_eq_ok {s : Settings} (h : s.validate = .ok ()) :
    (s.database.tablePrefix = "" ∨ Dialect.isPlainIdentifier s.database.tablePrefix = true) ∧
      ∀ entry ∈ s.tenant.identifiers, Dialect.isPlainIdentifier entry.2 = true := by
  unfold validate at h
  dsimp only at h
  split at h
  · simp at h
  · rename_i hpre
    split at h
    · simp at h
    · rename_i hfind
      constructor
      · by_cases hempty : s.database.tablePrefix = ""
        · exact .inl hempty
        · exact .inr (by simpa [hempty] using hpre)
      · intro entry hentry
        simpa using List.find?_eq_none.1 hfind entry hentry

/-- The injector that settings describe. -/
def Settings.injector (s : Settings) : Injector :=
  ⟨s.tenant, s.database.tablePrefix⟩

/-- The identifiers of the condition of a scope are those of the settings. -/
theorem Settings.allPlain_predicate {s : Settings} (h : s.validate = .ok ()) (units : UnitSet) :
    AllPlain (s.injector.predicate units).1.fragments := by
  obtain ⟨hpre, hidentifiers⟩ := validate_eq_ok h
  obtain ⟨halias, hcolumn, htable, huser, hunit⟩ :
      Dialect.isPlainIdentifier s.tenant.userAlias = true ∧
        Dialect.isPlainIdentifier s.tenant.userColumn = true ∧
        Dialect.isPlainIdentifier s.tenant.membershipTable = true ∧
        Dialect.isPlainIdentifier s.tenant.membershipUserColumn = true ∧
        Dialect.isPlainIdentifier s.tenant.membershipUnitColumn = true := by
    simpa [TenantSettings.identifiers] using hidentifiers
  have hmembers : Dialect.isPlainIdentifier Injector.membersAlias = true := by decide
  have hplaced := Dialect.isPlainIdentifier_append hpre htable
  unfold Injector.predicate
  split
  · -- without units the condition never holds
    have hnever : Expr.Checked .empty [] .never := .never
    exact hnever.plain
  · rename_i unit rest _
    have hcondition : AllPlain (Expr.inList
        (.qualified Injector.membersAlias s.tenant.membershipUnitColumn)
        (((Injector.slotsFrom 0 (unit :: rest)).map (·.1)).map .placeholder) false).fragments := by
      refine Expr.allPlain_inList false ?_ fun e he => ?_
      · simp [Expr.qualified, Expr.fragments, IsPlain, hmembers, hunit]
      · obtain ⟨name, -, rfl⟩ := List.mem_map.1 he
        simp [Expr.fragments, IsPlain]
    rw [Expr.fragments]
    simp only [allPlain_append, Query.allPlain_fragments]
    simpa [Injector.membersQuery, injector, Query.empty, Source.fragments, Expr.qualified,
      Expr.fragments, IsPlain, halias, hcolumn, hmembers, huser, hplaced] using hcondition

namespace Compiler

/-- The names of a compiled report. Its tables and columns are whitelisted and its identifiers are
plain, and under valid settings they stay so when it is scoped. -/
theorem compile_whitelisted {c : Compiler} {config : QueryConfig} {params : Params}
    {compiled : CompiledQuery} (hw : c.whitelist.Built)
    (hpre : c.tablePrefix = "" ∨ Dialect.isPlainIdentifier c.tablePrefix = true)
    (h : c.compile config params = .ok compiled) :
    compiled.query.Whitelisted c.whitelist c.tablePrefix ∧ compiled.PlainNames ∧
      ∀ (s : Settings) (restriction : Restriction) (restricted : CompiledQuery),
        s.validate = .ok () → s.injector.injectQuery restriction compiled = .ok restricted →
          restricted.PlainNames := by
  obtain ⟨tables, htables, hnodup, hclauses⟩ := compile_clauses hw h
  have hplain := hclauses.allPlain hw htables hpre
  refine ⟨hclauses.whitelisted htables hnodup, CompiledQuery.plainNames_of_query (hplain _),
    fun s restriction restricted hvalid hinject => ?_⟩
  rcases Injector.injectQuery_eq_ok hinject with ⟨-, rfl⟩ | ⟨units, -, -, rfl⟩
  · exact CompiledQuery.plainNames_of_query (hplain _)
  · exact CompiledQuery.plainNames_of_query
      (Query.allPlain_andWhere (hplain _) (s.allPlain_predicate hvalid units))

/-- A report on two tables: how many enrolments there are for each city. -/
def enrolmentReport : QueryConfig where
  tables := [⟨"user", some "u"⟩, ⟨"enrolment", some "e"⟩]
  columns := [⟨"u", "city", none, none⟩, ⟨"e", "id", some "count", none⟩]
  joins := [⟨"u", "e", "inner", [("id", "user_id")]⟩]
  filters := [⟨"e", "status", "=", "status", none⟩]
  groupBy := [⟨"u", "city"⟩]
  orderBy := [⟨"u", "city", some "desc"⟩]

/-- Default settings with a table prefix. -/
def prefixedSettings : Settings :=
  { Settings.default with database := ⟨.mysql, "mdl_", none, 30⟩ }

/-- The builtin schema behind that prefix. -/
def prefixedCompiler : Compiler :=
  ⟨Whitelist.builtin, .mysql, "mdl_"⟩

theorem enrolmentReport_runs : ∃ compiled restricted,
    prefixedCompiler.compile enrolmentReport (NameMap.ofList [("status", .int 1)]) = .ok compiled ∧
      prefixedSettings.injector.injectQuery (.units (UnitSet.ofList [4, 2])) compiled =
        .ok restricted := by
  obtain ⟨compiled, hcompiled, restricted, hrestricted⟩ : ∃ compiled,
      prefixedCompiler.compile enrolmentReport (NameMap.ofList [("status", .int 1)]) = .ok compiled ∧
        ∃ restricted, prefixedSettings.injector.injectQuery (.units (UnitSet.ofList [4, 2])) compiled =
          .ok restricted := by
    decide +kernel
  exact ⟨compiled, restricted, hcompiled, hrestricted⟩

theorem validate_prefixedSettings : prefixedSettings.validate = .ok () := by
  cbv

theorem compile_whitelisted_enrolments : ∃ compiled restricted,
    prefixedCompiler.compile enrolmentReport (NameMap.ofList [("status", .int 1)]) = .ok compiled ∧
      prefixedSettings.injector.injectQuery (.units (UnitSet.ofList [4, 2])) compiled =
        .ok restricted ∧
      compiled.query.Whitelisted Whitelist.builtin "mdl_" ∧ compiled.PlainNames ∧
      restricted.PlainNames := by
  obtain ⟨compiled, restricted, hcompiled, hrestricted⟩ := enrolmentReport_runs
  obtain ⟨hwhitelisted, hplain, hscoped⟩ :=
    compile_whitelisted Whitelist.built_builtin (.inr (by decide)) hcompiled
  exact ⟨compiled, restricted, hcompiled, hrestricted, hwhitelisted, hplain,
    hscoped prefixedSettings _ restricted validate_prefixedSettings hrestricted⟩

end Compiler

end ReportSql
