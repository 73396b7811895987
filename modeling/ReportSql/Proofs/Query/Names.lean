import Mathlib
import ReportSql.Query.Printer

/-!
# Names in queries

The columns that a query uses, clause by clause and with those of nested queries,
and the identifiers among the fragments that it prints.

## Main definitions

* `ColumnUse`, `Query.columnUses` - the columns that a query uses
* `Fragment.AllPlain` - fragments of which every identifier is plain

## Main results

* `Query.allPlain_fragments` - the identifiers of a printed query are those of its clauses
-/

namespace ReportSql

/-! ## Columns -/

/-- A use of a column: its qualifier, and its name unless it is a star. -/
structure ColumnUse where
  qualifier : Option String
  name : Option String
deriving DecidableEq

mutual

/-- The columns that an expression uses. -/
def Expr.columnUses : Expr → List ColumnUse
  | .column table name => [⟨table, some name⟩]
  | .star table => [⟨table, none⟩]
  | .binary _ left right => left.columnUses ++ right.columnUses
  | .not operand => operand.columnUses
  | .paren inner => inner.columnUses
  | .call _ args => Expr.columnUsesOf args
  | .inList operand values _ => operand.columnUses ++ Expr.columnUsesOf values
  | .inQuery operand query _ => operand.columnUses ++ query.columnUses
  | .integer _ | .null | .placeholder _ => []

/-- The columns that several expressions use. -/
def Expr.columnUsesOf : List Expr → List ColumnUse
  | [] => []
  | e :: rest => e.columnUses ++ Expr.columnUsesOf rest

/-- The columns that the output columns use. -/
def SelectItem.columnUsesOf : List SelectItem → List ColumnUse
  | [] => []
  | ⟨expr, _⟩ :: rest => expr.columnUses ++ SelectItem.columnUsesOf rest

/-- The columns that the conditions of joins use. -/
def Join.columnUsesOf : List Join → List ColumnUse
  | [] => []
  | ⟨_, _, on⟩ :: rest => on.columnUses ++ Join.columnUsesOf rest

/-- The columns that an order uses. -/
def OrderItem.columnUsesOf : List OrderItem → List ColumnUse
  | [] => []
  | ⟨expr, _⟩ :: rest => expr.columnUses ++ OrderItem.columnUsesOf rest

/-- The columns that a source uses. -/
def Source.columnUses : Source → List ColumnUse
  | .table _ => []
  | .derived query _ => query.columnUses

/-- The columns that a query uses in any clause. -/
def Query.columnUses : Query → List ColumnUse
  | ⟨select, source, joins, condition, groupBy, orderBy, _⟩ =>
    SelectItem.columnUsesOf select ++
      (match source with
        | some source => source.columnUses
        | none => []) ++
      Join.columnUsesOf joins ++
      (match condition with
        | some condition => condition.columnUses
        | none => []) ++
      Expr.columnUsesOf groupBy ++ OrderItem.columnUsesOf orderBy

end

theorem Expr.columnUsesOf_eq (es : List Expr) : Expr.columnUsesOf es = es.flatMap Expr.columnUses := by
  induction es with
  | nil => rfl
  | cons e rest ih => rw [Expr.columnUsesOf, ih, List.flatMap_cons]

theorem SelectItem.columnUsesOf_eq (items : List SelectItem) :
    SelectItem.columnUsesOf items = items.flatMap fun item => item.expr.columnUses := by
  induction items with
  | nil => rfl
  | cons item rest ih =>
    obtain ⟨expr, alias?⟩ := item
    rw [SelectItem.columnUsesOf, ih, List.flatMap_cons]

theorem Join.columnUsesOf_eq (joins : List Join) :
    Join.columnUsesOf joins = joins.flatMap fun join => join.on.columnUses := by
  induction joins with
  | nil => rfl
  | cons join rest ih =>
    obtain ⟨kind, table, on⟩ := join
    rw [Join.columnUsesOf, ih, List.flatMap_cons]

theorem OrderItem.columnUsesOf_eq (items : List OrderItem) :
    OrderItem.columnUsesOf items = items.flatMap fun item => item.expr.columnUses := by
  induction items with
  | nil => rfl
  | cons item rest ih =>
    obtain ⟨expr, direction⟩ := item
    rw [OrderItem.columnUsesOf, ih, List.flatMap_cons]

theorem Query.mem_columnUses {q : Query} {use : ColumnUse} : use ∈ q.columnUses ↔
    (∃ item ∈ q.select, use ∈ item.expr.columnUses) ∨ (∃ source ∈ q.source, use ∈ source.columnUses) ∨
      (∃ join ∈ q.joins, use ∈ join.on.columnUses) ∨ (∃ e ∈ q.condition, use ∈ e.columnUses) ∨
        (∃ e ∈ q.groupBy, use ∈ e.columnUses) ∨ ∃ item ∈ q.orderBy, use ∈ item.expr.columnUses := by
  obtain ⟨select, source, joins, condition, groupBy, orderBy, window⟩ := q
  unfold Query.columnUses
  rw [SelectItem.columnUsesOf_eq, Join.columnUsesOf_eq, Expr.columnUsesOf_eq,
    OrderItem.columnUsesOf_eq]
  cases source <;> cases condition <;>
    simp only [List.append_assoc, List.mem_append, List.mem_flatMap, Option.mem_def,
      List.not_mem_nil, Option.some.injEq, exists_eq_left', reduceCtorEq, false_and, exists_false]

/-! ## Identifiers -/

namespace Fragment

/-- A fragment that is no identifier, or a plain one. -/
def IsPlain : Fragment → Prop
  | identifier name => Dialect.isPlainIdentifier name = true
  | _ => True

/-- Fragments of which every identifier is plain. -/
def AllPlain (fragments : List Fragment) : Prop :=
  ∀ f ∈ fragments, f.IsPlain

@[simp] theorem allPlain_nil : AllPlain [] := by
  simp [AllPlain]

@[simp] theorem allPlain_cons (f : Fragment) (rest : List Fragment) :
    AllPlain (f :: rest) ↔ f.IsPlain ∧ AllPlain rest :=
  List.forall_mem_cons

@[simp] theorem allPlain_append (first second : List Fragment) :
    AllPlain (first ++ second) ↔ AllPlain first ∧ AllPlain second :=
  List.forall_mem_append

@[simp] theorem allPlain_paging (d : Dialect) (limit offset : Option UInt64) :
    AllPlain (paging d limit offset) := by
  cases d <;> cases limit <;> cases offset <;> simp [paging, bound, IsPlain]

end Fragment

open Fragment

@[simp] theorem allPlain_aliasFragments (name : String) :
    AllPlain (aliasFragments name) ↔ Dialect.isPlainIdentifier name = true := by
  simp [aliasFragments, IsPlain]

@[simp] theorem allPlain_optionalAlias (alias? : Option String) :
    AllPlain (optionalAlias alias?) ↔ ∀ name ∈ alias?, Dialect.isPlainIdentifier name = true := by
  cases alias? <;> simp [optionalAlias]

@[simp] theorem allPlain_qualifier (table : Option String) :
    AllPlain (qualifierFragments table) ↔ ∀ name ∈ table, Dialect.isPlainIdentifier name = true := by
  cases table <;> simp [qualifierFragments, IsPlain]

@[simp] theorem TableRef.allPlain_fragments (t : TableRef) : AllPlain t.fragments ↔
    Dialect.isPlainIdentifier t.table = true ∧
      ∀ name ∈ t.alias?, Dialect.isPlainIdentifier name = true := by
  obtain ⟨table, _ | name⟩ := t
  · simp [TableRef.fragments, IsPlain]
  · by_cases h : name = table <;> simp [TableRef.fragments, h, IsPlain]

@[simp] theorem allPlain_inFragments (negated : Bool) : AllPlain (inFragments negated) := by
  cases negated <;> simp [inFragments, IsPlain]

@[simp] theorem allPlain_clauseBreak (layout : Layout) : AllPlain layout.clauseBreak := by
  cases layout <;> simp [Layout.clauseBreak, IsPlain]

@[simp] theorem allPlain_itemBreak (layout : Layout) : AllPlain layout.itemBreak := by
  cases layout <;> simp [Layout.itemBreak, IsPlain]

@[simp] theorem allPlain_clauseFragments (layout : Layout) (word : Keyword) (content : List Fragment) :
    AllPlain (clauseFragments layout word content) ↔ AllPlain content := by
  simp [clauseFragments, IsPlain]

@[simp] theorem allPlain_constantOrder (layout : Layout) (window : Option RowWindow) :
    AllPlain (constantOrder layout window) := by
  cases layout with
  | inline => simp [constantOrder]
  | lines d => cases d <;> cases window <;> simp [constantOrder, Dialect.needsOrderForPaging, IsPlain]

@[simp] theorem allPlain_windowFragments (layout : Layout) (window : Option RowWindow) :
    AllPlain (windowFragments layout window) := by
  cases layout with
  | inline => simp [windowFragments]
  | lines d => cases window <;> simp [windowFragments, IsPlain]

@[simp] theorem Expr.allPlain_listFragments (es : List Expr) :
    AllPlain (Expr.listFragments es) ↔ ∀ e ∈ es, AllPlain e.fragments := by
  induction es with
  | nil => simp [Expr.listFragments]
  | cons e rest ih =>
    cases rest with
    | nil => simp [Expr.listFragments]
    | cons next rest =>
      rw [Expr.listFragments, List.forall_mem_cons, ← ih]
      simp [IsPlain]

theorem Expr.allPlain_inList {operand : Expr} {values : List Expr} (negated : Bool)
    (hoperand : AllPlain operand.fragments) (hvalues : ∀ e ∈ values, AllPlain e.fragments) :
    AllPlain (Expr.inList operand values negated).fragments := by
  cases values with
  | nil => simp [Expr.fragments, emptyListFragments, IsPlain]
  | cons value rest =>
    rw [Expr.fragments]
    simp only [allPlain_append, allPlain_inFragments, allPlain_listFragments, allPlain_cons,
      allPlain_nil]
    exact ⟨⟨⟨hoperand, trivial⟩, hvalues⟩, trivial, trivial⟩

theorem SelectItem.allPlain_listFragments (layout : Layout) (items : List SelectItem) :
    AllPlain (SelectItem.listFragments layout items) ↔ ∀ item ∈ items,
      AllPlain item.expr.fragments ∧ ∀ name ∈ item.alias?, Dialect.isPlainIdentifier name = true := by
  induction items with
  | nil => simp [SelectItem.listFragments]
  | cons item rest ih =>
    obtain ⟨expr, alias?⟩ := item
    cases rest with
    | nil => simp [SelectItem.listFragments]
    | cons next rest =>
      rw [SelectItem.listFragments, List.forall_mem_cons, ← ih]
      simp [IsPlain, and_assoc]

theorem Join.allPlain_listFragments (layout : Layout) (joins : List Join) :
    AllPlain (Join.listFragments layout joins) ↔ ∀ join ∈ joins,
      AllPlain join.table.fragments ∧ AllPlain join.on.fragments := by
  induction joins with
  | nil => simp [Join.listFragments]
  | cons join rest ih =>
    obtain ⟨kind, table, on⟩ := join
    rw [Join.listFragments, List.forall_mem_cons, ← ih]
    simp [IsPlain, and_assoc]

theorem OrderItem.allPlain_listFragments (items : List OrderItem) :
    AllPlain (OrderItem.listFragments items) ↔ ∀ item ∈ items, AllPlain item.expr.fragments := by
  induction items with
  | nil => simp [OrderItem.listFragments]
  | cons item rest ih =>
    obtain ⟨expr, direction⟩ := item
    cases rest with
    | nil => simp [OrderItem.listFragments, IsPlain]
    | cons next rest =>
      rw [OrderItem.listFragments, List.forall_mem_cons, ← ih]
      simp [IsPlain]

/-- The identifiers of a printed query are those of its clauses. -/
theorem Query.allPlain_fragments (layout : Layout) (q : Query) : AllPlain (q.fragments layout) ↔
    (∀ item ∈ q.select,
      AllPlain item.expr.fragments ∧ ∀ name ∈ item.alias?, Dialect.isPlainIdentifier name = true) ∧
      (∀ source ∈ q.source, AllPlain (source.fragments layout.dialect)) ∧
        (∀ join ∈ q.joins, AllPlain join.table.fragments ∧ AllPlain join.on.fragments) ∧
          (∀ e ∈ q.condition, AllPlain e.fragments) ∧ (∀ e ∈ q.groupBy, AllPlain e.fragments) ∧
            ∀ item ∈ q.orderBy, AllPlain item.expr.fragments := by
  obtain ⟨select, source, joins, condition, groupBy, orderBy, window⟩ := q
  unfold Query.fragments
  rw [← SelectItem.allPlain_listFragments layout, ← Join.allPlain_listFragments layout,
    ← Expr.allPlain_listFragments, ← OrderItem.allPlain_listFragments]
  cases source <;> cases condition <;> cases groupBy <;> cases orderBy <;>
    simp [Expr.listFragments, OrderItem.listFragments, IsPlain, and_assoc]

end ReportSql
