import Mathlib
import ReportSql.Query.Printer

/-!
# Placeholders of printed queries

The named parameters among the fragments of a query, clause by clause.

## Main definitions

* `Fragment.names` - the names of the placeholders among fragments

## Main results

* `Query.names_fragments` - the placeholders of a query are those of its clauses
-/

namespace ReportSql

namespace Fragment

/-- The name of a placeholder. -/
def name? : Fragment → Option String
  | placeholder name => some name
  | _ => none

/-- The names of the placeholders among fragments, in order. -/
def names (fragments : List Fragment) : List String :=
  fragments.filterMap name?

@[simp] theorem names_nil : names [] = [] :=
  rfl

@[simp] theorem names_cons (f : Fragment) (rest : List Fragment) :
    names (f :: rest) = f.name?.toList ++ names rest := by
  cases h : f.name? <;> simp [names, h]

@[simp] theorem names_append (first second : List Fragment) :
    names (first ++ second) = names first ++ names second := by
  simp [names]

@[simp] theorem names_paging (d : Dialect) (limit offset : Option UInt64) :
    names (paging d limit offset) = [] := by
  cases d <;> cases limit <;> cases offset <;> rfl

end Fragment

open Fragment

/-! ## Lists of printed parts -/

@[simp] theorem names_aliasFragments (name : String) : names (aliasFragments name) = [] :=
  rfl

@[simp] theorem names_clauseBreak (layout : Layout) : names layout.clauseBreak = [] := by
  cases layout <;> rfl

@[simp] theorem names_itemBreak (layout : Layout) : names layout.itemBreak = [] := by
  cases layout <;> rfl

@[simp] theorem names_qualifier (table : Option String) : names (qualifierFragments table) = [] := by
  cases table <;> rfl

@[simp] theorem names_inFragments (negated : Bool) : names (inFragments negated) = [] := by
  cases negated <;> rfl

@[simp] theorem TableRef.names_fragments (t : TableRef) : names t.fragments = [] := by
  obtain ⟨table, _ | name⟩ := t
  · rfl
  · by_cases h : name = table <;> simp [TableRef.fragments, h, name?]

@[simp] theorem names_optionalAlias (name : Option String) : names (optionalAlias name) = [] := by
  cases name <;> rfl

@[simp] theorem names_constantOrder (layout : Layout) (window : Option RowWindow) :
    names (constantOrder layout window) = [] := by
  cases layout with
  | inline => rfl
  | lines d => cases d <;> cases window <;> rfl

@[simp] theorem names_windowFragments (layout : Layout) (window : Option RowWindow) :
    names (windowFragments layout window) = [] := by
  cases layout with
  | inline => rfl
  | lines d => cases window <;> simp [windowFragments, name?]

@[simp] theorem names_clauseFragments (layout : Layout) (word : Keyword) (content : List Fragment) :
    names (clauseFragments layout word content) = names content := by
  simp [clauseFragments, name?]

theorem Expr.names_listFragments (es : List Expr) :
    names (Expr.listFragments es) = es.flatMap fun e => names e.fragments := by
  induction es with
  | nil => simp [Expr.listFragments]
  | cons e rest ih =>
    cases rest with
    | nil => simp [Expr.listFragments]
    | cons next rest =>
      rw [Expr.listFragments, List.flatMap_cons, ← ih]
      simp [name?]

theorem SelectItem.names_listFragments (layout : Layout) (items : List SelectItem) :
    names (SelectItem.listFragments layout items) =
      items.flatMap fun item => names item.expr.fragments := by
  induction items with
  | nil => simp [SelectItem.listFragments]
  | cons item rest ih =>
    obtain ⟨expr, alias?⟩ := item
    cases rest with
    | nil => simp [SelectItem.listFragments]
    | cons next rest =>
      rw [SelectItem.listFragments, List.flatMap_cons, ← ih]
      simp [name?]

theorem Join.names_listFragments (layout : Layout) (joins : List Join) :
    names (Join.listFragments layout joins) = joins.flatMap fun join => names join.on.fragments := by
  induction joins with
  | nil => simp [Join.listFragments]
  | cons join rest ih =>
    obtain ⟨kind, table, on⟩ := join
    rw [Join.listFragments, List.flatMap_cons, ← ih]
    simp [name?]

theorem OrderItem.names_listFragments (items : List OrderItem) :
    names (OrderItem.listFragments items) = items.flatMap fun item => names item.expr.fragments := by
  induction items with
  | nil => simp [OrderItem.listFragments]
  | cons item rest ih =>
    obtain ⟨expr, direction⟩ := item
    cases rest with
    | nil => simp [OrderItem.listFragments, name?]
    | cons next rest =>
      rw [OrderItem.listFragments, List.flatMap_cons, ← ih]
      simp [name?]

/-! ## Queries -/

/-- The placeholders of a query are those of its clauses. -/
theorem Query.names_fragments (layout : Layout) (q : Query) :
    names (q.fragments layout) =
      q.select.flatMap (fun item => names item.expr.fragments) ++
        q.source.toList.flatMap (fun source => names (source.fragments layout.dialect)) ++
        q.joins.flatMap (fun join => names join.on.fragments) ++
        q.condition.toList.flatMap (fun condition => names condition.fragments) ++
        q.groupBy.flatMap (fun e => names e.fragments) ++
        q.orderBy.flatMap (fun item => names item.expr.fragments) := by
  obtain ⟨select, source, joins, condition, groupBy, orderBy, window⟩ := q
  unfold Query.fragments
  simp only [names_append, SelectItem.names_listFragments, Join.names_listFragments,
    names_windowFragments, ← Expr.names_listFragments, ← OrderItem.names_listFragments]
  cases source <;> cases condition <;> cases groupBy <;> cases orderBy <;>
    simp [Expr.listFragments, OrderItem.listFragments, name?]

end ReportSql
