import ReportSql.Proofs.Query.Rows
import ReportSql.Proofs.Scope.Injection

/-!
# Scopes without units

Without units the condition of a scope is never true, and no joined row satisfies it. A report
that is grouped, or that selects no aggregate, then has no rows. A report that summarises all rows
still has one, the row of an empty group, and its count is one. In neither case does the result
depend on the contents of the database.

## Main definitions

* `QueryConfig.SummarisesAll` - an aggregate is selected without a grouping

## Main results

* `Compiler.injectQuery_withoutUnits` - the rows and the count of a report scoped to no units
-/

namespace ReportSql

/-- An aggregate is selected without a grouping. -/
def QueryConfig.SummarisesAll (config : QueryConfig) : Prop :=
  config.groupBy = [] ∧ config.columns.any ColumnSpec.isSummarised = true

instance (config : QueryConfig) : Decidable config.SummarisesAll :=
  inferInstanceAs (Decidable (_ ∧ _))

/-- The same database with other tables. -/
def Store.withContents {V : Type} (s : Store V) (contents : String → List (Row V)) : Store V :=
  { s with rows := contents }

namespace Compiler

theorem compile_select {c : Compiler} {config : QueryConfig} {params : Params}
    {compiled : CompiledQuery} (h : c.compile config params = .ok compiled) :
    config.columns.mapM selectItem = .ok compiled.query.select ∧
      compiled.query.groupBy = config.groupBy.map fun column =>
        .qualified column.table column.column := by
  obtain ⟨p, rfl⟩ := compile_iff_parts.1 h
  exact ⟨p.selected, rfl⟩

theorem isAggregateName_name (a : Aggregate) : isAggregateName (Text.upperAscii a.name) = true := by
  cases a <;> cbv

theorem summarises_selectItem {spec : ColumnSpec} {item : SelectItem}
    (h : selectItem spec = .ok item) : item.expr.summarises = spec.isSummarised := by
  obtain ⟨aggregate, hsome, hexpr, -⟩ := selectItem_eq_ok h
  rw [hexpr, ← hsome]
  cases aggregate with
  | none => rfl
  | some a => simp [Aggregate.apply, Expr.summarises, isAggregateName_name]

theorem summarises_select {specs : List ColumnSpec} {items : List SelectItem}
    (h : specs.mapM selectItem = .ok items) :
    items.any (·.expr.summarises) = specs.any ColumnSpec.isSummarised := by
  have hall := mapM_eq_ok.1 h
  induction hall with
  | nil => rfl
  | cons hfirst hrest ih =>
    rw [List.any_cons, List.any_cons, summarises_selectItem hfirst, ih (mapM_eq_ok.2 hrest)]

/-- For an empty group, an output column has the same value over any contents. -/
theorem rowOf_withContents {V : Type} {s : Store V} (contents : String → List (Row V))
    {specs : List ColumnSpec} {items : List SelectItem} (h : specs.mapM selectItem = .ok items) :
    SelectItem.rowOf (s.withContents contents) [] [] items = SelectItem.rowOf s [] [] items := by
  have hall := mapM_eq_ok.1 h
  induction hall with
  | nil => rfl
  | @cons spec item specs items hfirst hrest ih =>
    obtain ⟨aggregate, -, hexpr, -⟩ := selectItem_eq_ok hfirst
    obtain ⟨expr, alias?⟩ := item
    have hvalue : Expr.value (s.withContents contents) [] [] expr = Expr.value s [] [] expr := by
      obtain rfl : expr = _ := hexpr
      cases aggregate with
      | none => rfl
      | some a => simp [Aggregate.apply, Expr.value, Store.call, isAggregateName_name,
          Store.withContents]
    rw [SelectItem.rowOf, SelectItem.rowOf, hvalue, ih (mapM_eq_ok.2 hrest)]

/-- The rows of a report scoped to no units: the row of an empty group, if it summarises all rows. -/
theorem rows_withoutUnits {c : Compiler} {config : QueryConfig} {params : Params}
    {compiled restricted : CompiledQuery} {i : Injector}
    (hcompile : c.compile config params = .ok compiled)
    (hinject : i.injectQuery (.units UnitSet.empty) compiled = .ok restricted) {V : Type}
    (s : Store V) : restricted.query.rows s [] =
      if config.SummarisesAll then [SelectItem.rowOf s [] [] compiled.query.select] else [] := by
  obtain ⟨hselect, hgroupBy⟩ := compile_select hcompile
  obtain ⟨⟨⟩, -⟩ | ⟨units, ⟨⟩, -, rfl⟩ := Injector.injectQuery_eq_ok hinject
  have hsummarises : (compiled.query.groupBy = [] ∧
      compiled.query.select.any (·.expr.summarises) = true) ↔ config.SummarisesAll := by
    rw [hgroupBy, List.map_eq_nil_iff, summarises_select hselect, QueryConfig.SummarisesAll]
  have hpredicate : (i.predicate UnitSet.empty).1 = .never := rfl
  dsimp only
  rw [hpredicate, Query.rows_andWhere_never]
  simp only [hsummarises]

/-- A report scoped to no units has no rows and a count of zero, unless it summarises all rows: then
it has the one row of an empty group. The contents of the database have no part in it. -/
theorem injectQuery_withoutUnits {c : Compiler} {config : QueryConfig} {params : Params}
    {compiled restricted : CompiledQuery} {i : Injector}
    (hcompile : c.compile config params = .ok compiled)
    (hinject : i.injectQuery (.units UnitSet.empty) compiled = .ok restricted) :
    ∀ (V : Type) (s : Store V),
      (restricted.query.rows s []).length = (if config.SummarisesAll then 1 else 0) ∧
      restricted.query.countQuery.rows s [] =
        [[(Query.countColumn, s.integer (if config.SummarisesAll then 1 else 0))]] ∧
      ∀ contents, restricted.query.rows (s.withContents contents) [] = restricted.query.rows s [] := by
  intro V s
  have hrows := fun s : Store V => rows_withoutUnits hcompile hinject s
  have hlength : (restricted.query.rows s []).length = if config.SummarisesAll then 1 else 0 := by
    rw [hrows]
    split <;> rfl
  refine ⟨hlength, ?_, fun contents => ?_⟩
  · rw [Query.rows_countQuery, hlength]
    split <;> rfl
  · rw [hrows, hrows, rowOf_withContents contents (compile_select hcompile).1]

/-- The number of users, for each group of some columns. -/
def userCount (groupBy : List ColumnRef) : QueryConfig where
  tables := [⟨"user", some "u"⟩]
  columns := [⟨"u", "id", some "count", none⟩]
  joins := []
  filters := []
  groupBy
  orderBy := []

theorem userCount_runs (groupBy : List ColumnRef) (h : groupBy = [] ∨ groupBy = [⟨"u", "city"⟩]) :
    ∃ compiled restricted,
      plainCompiler.compile (userCount groupBy) NameMap.empty = .ok compiled ∧
        plainInjector.injectQuery (.units UnitSet.empty) compiled = .ok restricted := by
  obtain ⟨compiled, hcompiled, restricted, hrestricted⟩ : ∃ compiled,
      plainCompiler.compile (userCount groupBy) NameMap.empty = .ok compiled ∧ ∃ restricted,
        plainInjector.injectQuery (.units UnitSet.empty) compiled = .ok restricted := by
    rcases h with rfl | rfl <;> decide +kernel
  exact ⟨compiled, restricted, hcompiled, hrestricted⟩

theorem injectQuery_withoutUnits_grouped : ∃ compiled restricted,
    plainCompiler.compile (userCount [⟨"u", "city"⟩]) NameMap.empty = .ok compiled ∧
      plainInjector.injectQuery (.units UnitSet.empty) compiled = .ok restricted ∧
      ∀ (V : Type) (s : Store V), (restricted.query.rows s []).length = 0 := by
  obtain ⟨compiled, restricted, hcompiled, hrestricted⟩ := userCount_runs [⟨"u", "city"⟩] (.inr rfl)
  have hgrouped : ¬ (userCount [⟨"u", "city"⟩]).SummarisesAll := by decide
  refine ⟨compiled, restricted, hcompiled, hrestricted, fun V s => ?_⟩
  rw [(injectQuery_withoutUnits hcompiled hrestricted V s).1, if_neg hgrouped]

/-- A database of numbers. -/
def numberStore (contents : String → List (Row (Option Int))) : Store (Option Int) where
  rows := contents
  bound _ := none
  null := none
  integer := some
  ofTruth t := t.map fun b => if b then 1 else 0
  truth v := v.map (· ≠ 0)
  compare _ a b := a.bind fun a => b.map (a == ·)
  same a b := a == b
  apply _ _ := none
  summarise _ rows := some rows.length
  truth_ofTruth t := by rcases t with _ | _ | _ <;> rfl
  compare_integer _ _ := rfl

/-- Whatever the contents, the number of all users has a row for a caller without units. -/
theorem injectQuery_withoutUnits_summarised : ∃ compiled restricted,
    plainCompiler.compile (userCount []) NameMap.empty = .ok compiled ∧
      plainInjector.injectQuery (.units UnitSet.empty) compiled = .ok restricted ∧
      ∀ contents, restricted.query.rows (numberStore contents) [] ≠ [] ∧
        restricted.query.countQuery.rows (numberStore contents) [] =
          [[(Query.countColumn, some 1)]] := by
  obtain ⟨compiled, restricted, hcompiled, hrestricted⟩ := userCount_runs [] (.inl rfl)
  have hsummarised : (userCount []).SummarisesAll := by decide
  refine ⟨compiled, restricted, hcompiled, hrestricted, fun contents => ?_⟩
  have hrows := rows_withoutUnits hcompiled hrestricted (numberStore contents)
  rw [if_pos hsummarised] at hrows
  rw [Query.rows_countQuery, hrows]
  exact ⟨List.cons_ne_nil _ _, rfl⟩

end Compiler

end ReportSql
