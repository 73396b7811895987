import ReportSql.Proofs.Compile.Tables
import ReportSql.Proofs.Query.Names

/-!
# Joins of compiled reports

The tables of a report are joined in the order in which they are listed. Each takes
the first unused join that links it to a table placed before. As the aliases are
distinct, a join can serve only the later one of the tables at its two ends, so when
every join is used there is never more than one to take. The order of the list of
joins therefore does not matter.

## Main definitions

* `Compiler.Introduces` - a join of the query that introduces a table through a join of the report
* `Compiler.Placement` - the joins of a query, each with the table that it introduces
* `Compiler.WellJoined` - the FROM clause of a compiled report

## Main results

* `Compiler.placeTables_placement` - the joins that are placed
* `Compiler.joinTables_tables` - the tables and conditions in the query
* `Compiler.placeTables_perm` - they do not depend on the order of the joins of the report
* `Compiler.compile_joins` - a compiled report is well joined, whatever the order of its joins
-/

namespace ReportSql

namespace Compiler

/-! ## The first element that passes a test -/

section takeFirst?

variable {α : Type} {test : α → Bool} {as bs others : List α} {a : α}

theorem takeFirst?_perm (h : takeFirst? test as = some (a, others)) :
    test a = true ∧ as.Perm (a :: others) := by
  induction as generalizing others with
  | nil => simp [takeFirst?] at h
  | cons first rest ih =>
    unfold takeFirst? at h
    split at h
    · rename_i hfirst
      obtain ⟨rfl, rfl⟩ := Prod.mk.inj (Option.some.inj h)
      exact ⟨hfirst, .refl _⟩
    · obtain ⟨⟨found, more⟩, hmore, heq⟩ := Option.map_eq_some_iff.1 h
      obtain ⟨rfl, rfl⟩ := Prod.mk.inj heq
      obtain ⟨hfound, hperm⟩ := ih hmore
      exact ⟨hfound, (hperm.cons first).trans (.swap found first more)⟩

theorem exists_takeFirst? (ha : a ∈ as) (htest : test a = true) :
    ∃ found others, takeFirst? test as = some (found, others) := by
  induction as with
  | nil => exact absurd ha List.not_mem_nil
  | cons first rest ih =>
    unfold takeFirst?
    by_cases hfirst : test first = true
    · exact ⟨first, rest, if_pos hfirst⟩
    · rw [if_neg hfirst]
      have hmem : a ∈ rest := by
        rcases List.mem_cons.1 ha with rfl | hmem
        · exact absurd htest hfirst
        · exact hmem
      obtain ⟨found, others, hfound⟩ := ih hmem
      exact ⟨found, first :: others, by rw [hfound]; rfl⟩

/-- The only element that passes is found in any order. -/
theorem takeFirst?_of_perm (h : takeFirst? test as = some (a, others))
    (hothers : ∀ b ∈ others, test b = false) (hperm : bs.Perm as) :
    ∃ left, takeFirst? test bs = some (a, left) ∧ left.Perm others := by
  obtain ⟨ha, hrest⟩ := takeFirst?_perm h
  have hmem : a ∈ bs := (hperm.trans hrest).mem_iff.2 List.mem_cons_self
  obtain ⟨found, left, hleft⟩ := exists_takeFirst? hmem ha
  obtain ⟨hfound, hbs⟩ := takeFirst?_perm hleft
  have hsame : (found :: left).Perm (a :: others) := hbs.symm.trans (hperm.trans hrest)
  obtain rfl : found = a := by
    rcases List.mem_cons.1 (hsame.mem_iff.1 List.mem_cons_self) with heq | hmem
    · exact heq
    · simp [hothers found hmem] at hfound
  exact ⟨left, hleft, hsame.cons_inv⟩

end takeFirst?

/-! ## Placing tables -/

variable {c : Compiler}

/-- A join of the report has these two tables at its ends, in either direction. -/
def Connects (spec : JoinSpec) (first second : String) : Prop :=
  (spec.left = first ∧ spec.right = second) ∨ (spec.left = second ∧ spec.right = first)

/-- A join of the query introduces a table. It is written from a join of the report between the
table and one placed before, and its condition speaks of no other table. -/
structure Introduces (c : Compiler) (placed : List String) (t : AliasedTable) (spec : JoinSpec)
    (join : Join) : Prop where
  table : join.table = c.tableRef t
  kind : JoinKind.parse spec.joinType = .ok join.kind
  condition : joinCondition spec = .ok join.on
  scope : ∃ earlier ∈ placed, Connects spec earlier t.name ∧
    ∀ use ∈ join.on.columnUses, use.qualifier = some earlier ∨ use.qualifier = some t.name
  left : join.kind = .left → spec.right = t.name

/-- The tables behind those that are placed, the joins of the report that they use and the joins of
the query, one for each table in turn. -/
inductive Placement (c : Compiler) :
    List String → List AliasedTable → List JoinSpec → List Join → Prop where
  | nil (placed : List String) : Placement c placed [] [] []
  | cons {placed : List String} {t : AliasedTable} {tables : List AliasedTable} {spec : JoinSpec}
      {specs : List JoinSpec} {join : Join} {joins : List Join}
      (first : c.Introduces placed t spec join)
      (rest : Placement c (t.name :: placed) tables specs joins) :
      Placement c placed (t :: tables) (spec :: specs) (join :: joins)

theorem Placement.length {placed : List String} {tables : List AliasedTable} {specs : List JoinSpec}
    {joins : List Join} (h : c.Placement placed tables specs joins) :
    specs.length = tables.length ∧ joins.length = tables.length := by
  induction h with
  | nil placed => exact ⟨rfl, rfl⟩
  | cons _ _ ih => exact ⟨congrArg (· + 1) ih.1, congrArg (· + 1) ih.2⟩

theorem Placement.tables {placed : List String} {tables : List AliasedTable} {specs : List JoinSpec}
    {joins : List Join} (h : c.Placement placed tables specs joins) :
    joins.map (·.table) = tables.map c.tableRef := by
  induction h with
  | nil placed => rfl
  | cons first _ ih => rw [List.map_cons, List.map_cons, first.table, ih]

theorem Placement.conditions {placed : List String} {tables : List AliasedTable}
    {specs : List JoinSpec} {joins : List Join} (h : c.Placement placed tables specs joins) :
    ∀ join ∈ joins, ∃ spec ∈ specs, joinCondition spec = .ok join.on := by
  induction h with
  | nil placed => simp
  | @cons _ _ _ spec specs join joins first _ ih =>
    refine List.forall_mem_cons.2 ⟨⟨spec, List.mem_cons_self, first.condition⟩, fun other hother => ?_⟩
    obtain ⟨used, hused, hcondition⟩ := ih other hother
    exact ⟨used, List.mem_cons_of_mem _ hused, hcondition⟩

/-- The condition of a join speaks of its two tables only. -/
theorem qualifier_joinCondition {spec : JoinSpec} {on : Expr} (h : joinCondition spec = .ok on) :
    ∀ use ∈ on.columnUses,
      use.qualifier = some spec.left ∨ use.qualifier = some spec.right := by
  -- each further pair of columns speaks of the same two tables
  have hfold : ∀ (rest : List (String × String)) (first : Expr),
      (∀ use ∈ first.columnUses,
        use.qualifier = some spec.left ∨ use.qualifier = some spec.right) →
      ∀ use ∈ ((rest.map (pairCondition spec)).foldl Expr.and first).columnUses,
        use.qualifier = some spec.left ∨ use.qualifier = some spec.right := by
    intro rest
    induction rest with
    | nil => exact fun first hfirst => hfirst
    | cons pair rest ih =>
      intro first hfirst
      refine ih _ fun use huse => ?_
      rw [Expr.and, Expr.columnUses, List.mem_append] at huse
      rcases huse with huse | huse
      · exact hfirst use huse
      · simp [pairCondition, Expr.eq, Expr.qualified, Expr.columnUses] at huse
        rcases huse with rfl | rfl <;> simp
  obtain ⟨pair, rest, -, rfl⟩ := joinCondition_eq_ok.1 h
  refine hfold rest _ fun use huse => ?_
  simp [pairCondition, Expr.eq, Expr.qualified, Expr.columnUses] at huse
  rcases huse with rfl | rfl <;> simp

theorem links_eq_true {placed : List String} {name : String} {spec : JoinSpec} :
    links placed name spec = true ↔ ∃ earlier ∈ placed, Connects spec earlier name := by
  unfold links Connects
  simp only [Bool.or_eq_true, Bool.and_eq_true, beq_iff_eq, List.contains_iff_mem]
  constructor
  · rintro (⟨hright, hleft⟩ | ⟨hleft, hright⟩)
    · exact ⟨spec.left, hleft, .inl ⟨rfl, hright⟩⟩
    · exact ⟨spec.right, hright, .inr ⟨hleft, rfl⟩⟩
  · rintro ⟨earlier, hmem, ⟨rfl, hright⟩ | ⟨hleft, rfl⟩⟩
    · exact .inl ⟨hright, hmem⟩
    · exact .inr ⟨hleft, hmem⟩

/-- The joins that are placed use every join of the report once. -/
theorem placeTables_placement {placed : List String} {unused : List JoinSpec}
    {tables : List AliasedTable} {joins : List Join}
    (h : c.placeTables placed unused tables = .ok joins) :
    ∃ specs, specs.Perm unused ∧ c.Placement placed tables specs joins := by
  induction tables generalizing placed unused joins with
  | nil =>
    obtain ⟨rfl, rfl⟩ := placeTables_nil.1 h
    exact ⟨[], .nil, .nil placed⟩
  | cons t rest ih =>
    obtain ⟨spec, others, kind, on, more, htaken, hkind, hleft, hon, hmore, rfl⟩ :=
      placeTables_cons.1 h
    obtain ⟨hlinks, hperm⟩ := takeFirst?_perm htaken
    obtain ⟨earlier, hearlier, hconnects⟩ := links_eq_true.1 hlinks
    obtain ⟨specs, hspecs, hplacement⟩ := ih hmore
    -- whichever table a join names first, it speaks of the new one and of one placed before
    have hscope : ∀ use ∈ on.columnUses,
        use.qualifier = some earlier ∨ use.qualifier = some t.name := by
      intro use huse
      rcases hconnects with ⟨rfl, hright⟩ | ⟨hleft, rfl⟩
      · exact hright ▸ qualifier_joinCondition hon use huse
      · exact hleft ▸ (qualifier_joinCondition hon use huse).symm
    exact ⟨spec :: specs, (hspecs.cons spec).trans hperm.symm,
      .cons ⟨rfl, hkind, hon, ⟨earlier, hearlier, hconnects, hscope⟩, hleft⟩ hplacement⟩

/-- A join that is used has the table that it introduces at one of its ends. -/
theorem Placement.mem_names {placed : List String} {tables : List AliasedTable}
    {specs : List JoinSpec} {joins : List Join} (h : c.Placement placed tables specs joins)
    {spec : JoinSpec} (hspec : spec ∈ specs) :
    spec.left ∈ tables.map (·.name) ∨ spec.right ∈ tables.map (·.name) := by
  induction h with
  | nil placed => exact absurd hspec List.not_mem_nil
  | cons first _ ih =>
    rcases List.mem_cons.1 hspec with rfl | hspec
    · obtain ⟨earlier, -, ⟨-, hright⟩ | ⟨hleft, -⟩, -⟩ := first.scope
      · exact .inr (hright ▸ List.mem_cons_self)
      · exact .inl (hleft ▸ List.mem_cons_self)
    · exact (ih hspec).imp (List.mem_cons_of_mem _) (List.mem_cons_of_mem _)

/-- The joins of the query do not depend on the order of the joins of the report: a join that is used
for a later table links nothing to this one, so there is only one to take. -/
theorem placeTables_perm {placed : List String} {unused given : List JoinSpec}
    {tables : List AliasedTable} {joins : List Join}
    (hnodup : (tables.map (·.name)).Nodup) (hnew : ∀ t ∈ tables, t.name ∉ placed)
    (hperm : given.Perm unused) (h : c.placeTables placed unused tables = .ok joins) :
    c.placeTables placed given tables = .ok joins := by
  induction tables generalizing placed unused given joins with
  | nil =>
    obtain ⟨rfl, rfl⟩ := placeTables_nil.1 h
    rwa [hperm.eq_nil]
  | cons t rest ih =>
    obtain ⟨spec, others, kind, on, more, htaken, hkind, hleft, hon, hmore, rfl⟩ :=
      placeTables_cons.1 h
    obtain ⟨hfirst, hrest⟩ := List.nodup_cons.1 hnodup
    have hlater : ∀ name ∈ rest.map (·.name), name ∉ t.name :: placed := by
      intro name hname hold
      rcases List.mem_cons.1 hold with rfl | hold
      · exact hfirst hname
      · obtain ⟨later, hmem, rfl⟩ := List.mem_map.1 hname
        exact hnew later (List.mem_cons_of_mem _ hmem) hold
    -- each of the others introduces a later table, so it cannot link this one to the placed ones
    obtain ⟨specs, hspecs, hplacement⟩ := placeTables_placement hmore
    have hothers : ∀ other ∈ others, links placed t.name other = false := by
      intro other hother
      rw [Bool.eq_false_iff]
      intro hlinks
      obtain ⟨earlier, hearlier, hconnects⟩ := links_eq_true.1 hlinks
      have hold : other.left ∈ t.name :: placed ∧ other.right ∈ t.name :: placed := by
        rcases hconnects with ⟨rfl, hright⟩ | ⟨hleft, rfl⟩
        · exact ⟨List.mem_cons_of_mem _ hearlier, hright ▸ List.mem_cons_self⟩
        · exact ⟨hleft ▸ List.mem_cons_self, List.mem_cons_of_mem _ hearlier⟩
      rcases hplacement.mem_names (hspecs.mem_iff.2 hother) with hname | hname
      · exact hlater _ hname hold.1
      · exact hlater _ hname hold.2
    obtain ⟨left, hleftover, hsame⟩ := takeFirst?_of_perm htaken hothers hperm
    have hplaced : c.placeTables (t.name :: placed) left rest = .ok more :=
      ih hrest (fun later hmem => hlater _ (List.mem_map_of_mem hmem)) hsame hmore
    exact placeTables_cons.2
      ⟨spec, left, kind, on, more, hleftover, hkind, hleft, hon, hplaced, rfl⟩

/-- Every table stands in the query once, and the conditions of joins come from the report. -/
theorem joinTables_tables {tables : List AliasedTable} {joins : List JoinSpec} {q : Query}
    (h : c.joinTables tables joins = .ok q) :
    (∃ ref, q.source = some (.table ref)) ∧ q.topLevelTables = tables.map c.tableRef ∧
      ∀ join ∈ q.joins, ∃ spec ∈ joins, joinCondition spec = .ok join.on := by
  obtain ⟨first, rest, joined, rfl, -, hjoined, rfl⟩ := joinTables_eq_ok.1 h
  obtain ⟨specs, hspecs, hplacement⟩ := placeTables_placement hjoined
  refine ⟨⟨_, rfl⟩, ?_, fun join hjoin => ?_⟩
  · unfold Query.topLevelTables
    dsimp only
    rw [hplacement.tables]
    rfl
  · obtain ⟨spec, hspec, hcondition⟩ := hplacement.conditions join hjoin
    exact ⟨spec, hspecs.mem_iff.1 hspec, hcondition⟩

/-! ## Reports -/

theorem joinTables_perm {tables : List AliasedTable} {joins given : List JoinSpec} {q : Query}
    (hnodup : (tables.map (·.name)).Nodup) (hperm : given.Perm joins)
    (h : c.joinTables tables joins = .ok q) : c.joinTables tables given = .ok q := by
  obtain ⟨first, rest, joined, rfl, hchecked, hjoined, rfl⟩ := joinTables_eq_ok.1 h
  obtain ⟨hfirst, hrest⟩ := List.nodup_cons.1 hnodup
  have hnew : ∀ t ∈ rest, t.name ∉ [first.name] := by
    intro t ht hname
    exact hfirst (List.mem_map.2 ⟨t, ht, List.mem_singleton.1 hname⟩)
  exact joinTables_eq_ok.2 ⟨first, rest, joined, rfl,
    fun join hjoin => hchecked join (hperm.mem_iff.1 hjoin),
    placeTables_perm hrest hnew hperm hjoined, rfl⟩

theorem mem_columnRefs_perm {config : QueryConfig} {joins : List JoinSpec} {column : ColumnRef}
    (hperm : joins.Perm config.joins) :
    column ∈ ({ config with joins } : QueryConfig).columnRefs ↔ column ∈ config.columnRefs := by
  have hjoins : column ∈ joins.flatMap JoinSpec.refs ↔ column ∈ config.joins.flatMap JoinSpec.refs :=
    (hperm.flatMap_right JoinSpec.refs).mem_iff
  simp only [QueryConfig.columnRefs, List.mem_append, hjoins]

theorem compile_perm (config : QueryConfig) {params : Params} {joins : List JoinSpec}
    {compiled : CompiledQuery} (hperm : joins.Perm config.joins)
    (h : c.compile config params = .ok compiled) :
    c.compile { config with joins } params = .ok compiled := by
  obtain ⟨p, rfl⟩ := compile_iff_parts.1 h
  have hcolumns : ∀ column ∈ ({ config with joins } : QueryConfig).columnRefs,
      c.checkColumn p.tables column = .ok () :=
    fun column hcolumn => p.checked column ((mem_columnRefs_perm hperm).1 hcolumn)
  have hlinked := joinTables_perm (resolveTables_eq_ok p.resolved).2 hperm p.linked
  exact compile_iff_parts.2 ⟨{ p with checked := hcolumns, linked := hlinked }, rfl⟩

/-- The FROM clause of a compiled report: the first table is the source, and the others are joined in
the order in which they are listed, each through a join of its own until all are used. -/
structure WellJoined (c : Compiler) (config : QueryConfig) (q : Query) : Prop where
  distinct : (config.tables.map TableSpec.name).Nodup
  placed : ∃ first rest specs, config.tables.map aliased = first :: rest ∧
    q.source = some (.table (c.tableRef first)) ∧ specs.Perm config.joins ∧
    c.Placement [first.name] rest specs q.joins
  fewer : q.joins.length + 1 = config.tables.length ∧ config.joins.length = q.joins.length

theorem joinTables_wellJoined {config : QueryConfig} {tables : List AliasedTable} {q : Query}
    (htables : c.resolveTables config.tables = .ok tables)
    (h : c.joinTables tables config.joins = .ok q) : c.WellJoined config q := by
  have hmap := resolveTables_map htables
  have hnodup := (resolveTables_eq_ok htables).2
  obtain ⟨first, rest, joined, rfl, -, hjoined, rfl⟩ := joinTables_eq_ok.1 h
  obtain ⟨specs, hspecs, hplacement⟩ := placeTables_placement hjoined
  obtain ⟨hused, hjoins⟩ := hplacement.length
  refine ⟨?_, ⟨first, rest, specs, hmap.symm, rfl, hspecs, hplacement⟩, ?_, ?_⟩
  · rw [hmap, List.map_map] at hnodup
    exact hnodup
  · rw [← List.length_map aliased, ← hmap, List.length_cons, ← hjoins]
  · exact hspecs.length_eq.symm.trans (hused.trans hjoins.symm)

theorem wellJoined_of_compile {config : QueryConfig} {params : Params} {compiled : CompiledQuery}
    (h : c.compile config params = .ok compiled) : c.WellJoined config compiled.query := by
  obtain ⟨p, rfl⟩ := compile_iff_parts.1 h
  obtain ⟨hdistinct, hplaced, hfewer⟩ := joinTables_wellJoined p.resolved p.linked
  exact ⟨hdistinct, hplaced, hfewer⟩

/-- A compiled report is well joined, and it stays the same when its joins are listed in another
order. -/
theorem compile_joins (c : Compiler) (config : QueryConfig) (params : Params) :
    (∀ compiled, c.compile config params = .ok compiled → c.WellJoined config compiled.query) ∧
      ∀ joins, joins.Perm config.joins →
        (c.compile { config with joins } params).toOption = (c.compile config params).toOption := by
  constructor
  · exact fun compiled h => wellJoined_of_compile h
  · intro joins hperm
    ext compiled
    rw [toOption_eq_some, toOption_eq_some]
    exact ⟨compile_perm { config with joins } hperm.symm, compile_perm config hperm⟩

/-- A report on three tables whose joins are listed from the last table to the first, one of them
towards the table that is placed before. -/
def gradeReport : QueryConfig where
  tables := [⟨"user", some "u"⟩, ⟨"enrolment", some "e"⟩, ⟨"course", some "c"⟩]
  columns := [⟨"u", "city", none, none⟩, ⟨"c", "id", none, none⟩]
  joins := [⟨"c", "e", "inner", [("id", "course_id")]⟩, ⟨"u", "e", "left", [("id", "user_id")]⟩]
  filters := []
  groupBy := []
  orderBy := []

/-- The builtin schema without a prefix. -/
def builtinCompiler : Compiler :=
  ⟨Whitelist.builtin, .sqlite, ""⟩

theorem compile_joins_grades : ∃ compiled,
    builtinCompiler.compile gradeReport .empty = .ok compiled ∧
      builtinCompiler.WellJoined gradeReport compiled.query ∧
      gradeReport.joins.reverse ≠ gradeReport.joins ∧
      builtinCompiler.compile { gradeReport with joins := gradeReport.joins.reverse } .empty =
        .ok compiled := by
  obtain ⟨compiled, hcompiled⟩ : ∃ compiled,
      builtinCompiler.compile gradeReport .empty = .ok compiled := by
    decide +kernel
  obtain ⟨hjoined, hsame⟩ := compile_joins builtinCompiler gradeReport .empty
  have hreversed := (hsame _ (List.reverse_perm _)).trans (toOption_eq_some.2 hcompiled)
  exact ⟨compiled, hcompiled, hjoined compiled hcompiled, by decide, toOption_eq_some.1 hreversed⟩

end Compiler

end ReportSql
