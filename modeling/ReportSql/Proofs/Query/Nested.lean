import Mathlib
import ReportSql.Query.Printer

/-!
# Parentheses in printed queries

Every printed expression and query closes the parentheses that it opens, and outside
of them an expression holds none of the words that start a clause.

## Main definitions

* `Fragment.Nested` - closed parentheses, and a property of everything outside of them
* `Fragment.tokens` - fragments without blanks

## Main results

* `Expr.nested_fragments`, `Query.nested_fragments` - the parentheses of expressions and queries
-/

namespace ReportSql

namespace Fragment

/-- Spaces and line breaks. -/
def isBlank : Fragment → Bool
  | space | newline | indent _ => true
  | _ => false

/-- The fragments without spaces and line breaks. -/
def tokens (fragments : List Fragment) : List Fragment :=
  fragments.filter (!·.isBlank)

@[simp] theorem tokens_nil : tokens [] = [] :=
  rfl

@[simp] theorem tokens_cons (f : Fragment) (rest : List Fragment) :
    tokens (f :: rest) = if f.isBlank then tokens rest else f :: tokens rest := by
  cases h : f.isBlank <;> simp [tokens, h]

@[simp] theorem tokens_append (first second : List Fragment) :
    tokens (first ++ second) = tokens first ++ tokens second :=
  List.filter_append _ _

/-- Every parenthesis is closed, and what stands outside of parentheses has a property. -/
inductive Nested : (Fragment → Prop) → List Fragment → Prop
  | nil {free : Fragment → Prop} : Nested free []
  | cons {free : Fragment → Prop} {f : Fragment} {rest : List Fragment} (hopen : f ≠ .openParen)
      (hclose : f ≠ .closeParen) (hfree : free f) (hrest : Nested free rest) :
      Nested free (f :: rest)
  | enclosed {free : Fragment → Prop} {inner rest : List Fragment}
      (hinner : Nested (fun _ => True) inner) (hrest : Nested free rest) :
      Nested free (.openParen :: (inner ++ .closeParen :: rest))

namespace Nested

variable {free free' : Fragment → Prop} {first second fragments : List Fragment}

theorem append (hfirst : Nested free first) (hsecond : Nested free second) :
    Nested free (first ++ second) := by
  induction hfirst with
  | nil => exact hsecond
  | cons hopen hclose hfree _ ih => exact .cons hopen hclose hfree (ih hsecond)
  | enclosed hinner _ _ ih =>
    rw [List.cons_append, List.append_assoc, List.cons_append]
    exact .enclosed hinner (ih hsecond)

theorem mono (h : Nested free fragments) (himp : ∀ f, free f → free' f) : Nested free' fragments := by
  induction h with
  | nil => exact .nil
  | cons hopen hclose hfree _ ih => exact .cons hopen hclose (himp _ hfree) (ih himp)
  | enclosed hinner _ _ ih => exact .enclosed hinner (ih himp)

theorem forget (h : Nested free fragments) : Nested (fun _ => True) fragments :=
  h.mono fun _ _ => trivial

/-- Fragments in parentheses. -/
theorem paren (h : Nested (fun _ => True) fragments) :
    Nested free ([.openParen] ++ fragments ++ [.closeParen]) :=
  .enclosed h .nil

/-- Blanks do not matter. -/
theorem tokens (h : Nested free fragments) : Nested free (Fragment.tokens fragments) := by
  induction h with
  | nil => exact .nil
  | @cons free f rest hopen hclose hfree _ ih =>
    rw [tokens_cons]
    split
    · exact ih
    · exact .cons hopen hclose hfree ih
  | enclosed _ _ ihinner ihrest =>
    simp only [tokens_cons, tokens_append]
    exact .enclosed ihinner ihrest

end Nested

/-- Fragments without parentheses. -/
theorem nested_of_all {free : Fragment → Prop} [DecidablePred free] {fragments : List Fragment}
    (h : fragments.all (fun f => decide (f ≠ .openParen ∧ f ≠ .closeParen ∧ free f)) = true) :
    Nested free fragments := by
  induction fragments with
  | nil => exact .nil
  | cons f rest ih =>
    rw [List.all_cons, Bool.and_eq_true] at h
    obtain ⟨hopen, hclose, hfree⟩ := of_decide_eq_true h.1
    exact .cons hopen hclose hfree (ih h.2)

/-- Whether a fragment ends the condition of a query: the clauses that follow WHERE start so. -/
def endsCondition : Fragment → Bool
  | keyword .groupBy | keyword .orderBy | keyword .limit | keyword .offset => true
  | _ => false

/-- What starts neither a condition nor a clause after one. -/
def Inside (f : Fragment) : Prop :=
  f ≠ .keyword .where_ ∧ f.endsCondition = false

instance : DecidablePred Inside := fun f =>
  inferInstanceAs (Decidable (f ≠ .keyword .where_ ∧ f.endsCondition = false))

end Fragment

open Fragment

/-! ## Parts without parentheses -/

theorem nested_optionalAlias (name : Option String) : Nested Inside (optionalAlias name) := by
  cases name with
  | none => exact .nil
  | some name => exact nested_of_all rfl

theorem nested_qualifier (table : Option String) : Nested Inside (qualifierFragments table) := by
  cases table with
  | none => exact .nil
  | some table => exact nested_of_all rfl

theorem TableRef.nested_fragments (t : TableRef) : Nested Inside t.fragments := by
  obtain ⟨table, _ | name⟩ := t
  · exact nested_of_all rfl
  · by_cases h : name = table
    · simp only [TableRef.fragments, h, if_true]
      exact nested_of_all rfl
    · simp only [TableRef.fragments, h, if_false]
      exact nested_of_all rfl

theorem nested_clauseBreak (layout : Layout) : Nested Inside layout.clauseBreak := by
  cases layout <;> exact nested_of_all rfl

theorem nested_itemBreak (layout : Layout) : Nested Inside layout.itemBreak := by
  cases layout <;> exact nested_of_all rfl

theorem nested_clauseFragments (layout : Layout) {free : Fragment → Prop} {word : Keyword}
    {content : List Fragment} (hinside : ∀ f, Inside f → free f) (hword : free (.keyword word))
    (hcontent : Nested free content) : Nested free (clauseFragments layout word content) := by
  refine (((nested_clauseBreak layout).mono hinside).append ?_).append hcontent
  exact .cons (by simp) (by simp) hword
    (.cons (by simp) (by simp) (hinside _ ⟨by simp, rfl⟩) .nil)

theorem nested_constantOrder (layout : Layout) (window : Option RowWindow) :
    Nested (fun f => f ≠ .keyword .where_) (constantOrder layout window) := by
  unfold constantOrder
  split
  · split
    · have horder : Nested (fun f => f ≠ .keyword .where_) [.newline, .keyword .orderBy, .space] :=
        nested_of_all rfl
      have hnull : Nested (fun _ => True) [.keyword .select, .space, .keyword .null] :=
        nested_of_all rfl
      exact horder.append (.paren hnull)
    · exact .nil
  · exact .nil

theorem nested_windowFragments (layout : Layout) (window : Option RowWindow) :
    Nested (fun f => f ≠ .keyword .where_) (windowFragments layout window) := by
  unfold windowFragments
  split
  · rename_i d rows
    obtain ⟨limit, offset⟩ := rows
    cases d <;> cases limit <;> cases offset <;> exact nested_of_all rfl
  · exact .nil

/-- An operand and the list or query that IN compares it with. -/
theorem nested_in {operand content : List Fragment} (negated : Bool)
    (hoperand : Nested Inside operand) (hcontent : Nested (fun _ => True) content) :
    Nested Inside (operand ++ inFragments negated ++ content ++ [.closeParen]) := by
  rw [List.append_assoc, List.append_assoc, inFragments, List.append_assoc]
  have hword : Nested Inside [.space, .keyword .in_, .space] := nested_of_all rfl
  have hnot : Nested Inside (if negated then [.space, .keyword .not_] else []) := by
    cases negated <;> exact nested_of_all rfl
  exact hoperand.append (hnot.append (hword.append (.enclosed hcontent .nil)))

/-! ## Expressions and queries -/

mutual

theorem Expr.nested_fragments : ∀ e : Expr, Nested Inside e.fragments
  | .column table name => by
    rw [Expr.fragments]
    exact (nested_qualifier table).append (nested_of_all rfl)
  | .integer value => by
    rw [Expr.fragments]
    exact nested_of_all rfl
  | .null => by
    rw [Expr.fragments]
    exact nested_of_all rfl
  | .placeholder name => by
    rw [Expr.fragments]
    exact nested_of_all rfl
  | .binary op left right => by
    rw [Expr.fragments]
    exact (left.nested_fragments.append (nested_of_all rfl)).append right.nested_fragments
  | .not operand => by
    rw [Expr.fragments]
    exact .append (nested_of_all rfl) operand.nested_fragments
  | .call name args => by
    rw [Expr.fragments]
    have hname : Nested Inside [.function name] := nested_of_all rfl
    exact hname.append (.paren (Expr.nested_listFragments args).forget)
  | .inList operand [] negated => by
    rw [Expr.fragments]
    cases negated <;> exact nested_of_all rfl
  | .inList operand (value :: rest) negated => by
    rw [Expr.fragments]
    exact nested_in negated operand.nested_fragments (Expr.nested_listFragments (value :: rest)).forget
  | .inQuery operand query negated => by
    rw [Expr.fragments]
    exact nested_in negated operand.nested_fragments (Query.nested_fragments .inline query)
  | .star table => by
    rw [Expr.fragments]
    exact (nested_qualifier table).append (nested_of_all rfl)
  | .paren inner => by
    rw [Expr.fragments]
    exact .paren inner.nested_fragments.forget

theorem Expr.nested_listFragments : ∀ es : List Expr, Nested Inside (Expr.listFragments es)
  | [] => by
    rw [Expr.listFragments]
    exact .nil
  | [e] => by
    rw [Expr.listFragments]
    exact e.nested_fragments
  | e :: next :: rest => by
    rw [Expr.listFragments]
    exact (e.nested_fragments.append (nested_of_all rfl)).append
      (Expr.nested_listFragments (next :: rest))

theorem SelectItem.nested_listFragments (layout : Layout) :
    ∀ items : List SelectItem, Nested Inside (SelectItem.listFragments layout items)
  | [] => by
    rw [SelectItem.listFragments]
    exact .nil
  | [⟨expr, name⟩] => by
    rw [SelectItem.listFragments]
    exact ((nested_itemBreak layout).append expr.nested_fragments).append (nested_optionalAlias name)
  | ⟨expr, name⟩ :: next :: rest => by
    rw [SelectItem.listFragments]
    exact ((((nested_itemBreak layout).append expr.nested_fragments).append
      (nested_optionalAlias name)).append (nested_of_all rfl)).append
        (SelectItem.nested_listFragments layout (next :: rest))

theorem Source.nested_fragments (d : Dialect) : ∀ source : Source, Nested Inside (source.fragments d)
  | .table ref => by
    rw [Source.fragments]
    exact ref.nested_fragments
  | .derived query name => by
    rw [Source.fragments]
    have hquery : Nested (fun _ => True) ([.newline] ++ query.fragments (.lines d) ++ [.newline]) :=
      (Nested.append (nested_of_all rfl) (Query.nested_fragments (.lines d) query)).append
        (nested_of_all rfl)
    have hparen : Nested Inside
        ([.openParen] ++ ([.newline] ++ query.fragments (.lines d) ++ [.newline]) ++ [.closeParen]) :=
      .paren hquery
    simpa [optionalAlias] using hparen.append (nested_optionalAlias (some name))

theorem Join.nested_listFragments (layout : Layout) :
    ∀ joins : List Join, Nested Inside (Join.listFragments layout joins)
  | [] => by
    rw [Join.listFragments]
    exact .nil
  | ⟨kind, table, on⟩ :: rest => by
    rw [Join.listFragments]
    refine (((((nested_clauseBreak layout).append ?_).append table.nested_fragments).append
      (nested_of_all rfl)).append on.nested_fragments).append (Join.nested_listFragments layout rest)
    cases kind <;> exact nested_of_all rfl

theorem OrderItem.nested_listFragments :
    ∀ items : List OrderItem, Nested Inside (OrderItem.listFragments items)
  | [] => by
    rw [OrderItem.listFragments]
    exact .nil
  | [⟨expr, direction⟩] => by
    rw [OrderItem.listFragments]
    refine expr.nested_fragments.append ?_
    cases direction <;> exact nested_of_all rfl
  | ⟨expr, direction⟩ :: next :: rest => by
    rw [OrderItem.listFragments]
    refine (expr.nested_fragments.append ?_).append (OrderItem.nested_listFragments (next :: rest))
    cases direction <;> exact nested_of_all rfl

theorem Query.nested_fragments (layout : Layout) :
    ∀ q : Query, Nested (fun _ => True) (q.fragments layout)
  | ⟨select, source, joins, condition, groupBy, orderBy, window⟩ => by
    unfold Query.fragments
    have hclause : ∀ {word : Keyword} {content : List Fragment}, Nested Inside content →
        Nested (fun _ => True) (clauseFragments layout word content) :=
      fun h => nested_clauseFragments layout (fun _ _ => trivial) trivial h.forget
    refine .append (.append (.append (.append (.append (.append (.append (nested_of_all rfl)
      (SelectItem.nested_listFragments layout select).forget) ?_)
      (Join.nested_listFragments layout joins).forget) ?_) ?_) ?_)
      (nested_windowFragments _ _).forget
    · match source with
      | none => exact .nil
      | some source => exact hclause (Source.nested_fragments layout.dialect source)
    · match condition with
      | none => exact .nil
      | some condition => exact hclause condition.nested_fragments
    · split
      · exact .nil
      · exact hclause (Expr.nested_listFragments groupBy)
    · split
      · exact (nested_constantOrder _ _).forget
      · exact hclause (OrderItem.nested_listFragments orderBy)

end

end ReportSql
