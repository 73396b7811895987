import ReportSql.Proofs.Sqlite.Fragments

/-!
# Generated queries read by the database

A query is read as it is meant when the expressions in its clauses are: everything else in it
is separated by blanks, commas and parentheses.

## Main definitions

* `Query.Firm` - the fragments of each clause are read as they are meant

## Main results

* `Query.Firm.fragments` - so are those of the query, in both layouts
* `Query.Firm.andWhere`, `Query.Firm.countQuery`, `Query.Firm.paged` - and its other forms
-/

namespace ReportSql

open Fragment

/-! ## Parts of queries -/

theorem firm_aliasFragments (name : String) : Firm (aliasFragments name) :=
  (((firm_keyword .as_).append ((firm_identifier name).gap (f := .space) rfl) rfl).gap rfl)

theorem firm_optionalAlias (alias? : Option String) : Firm (optionalAlias alias?) := by
  cases alias? with
  | none => exact firm_nil
  | some name => exact firm_aliasFragments name

theorem opensGap_optionalAlias (alias? : Option String) : opensGap (optionalAlias alias?) = true := by
  cases alias? <;> rfl

theorem TableRef.firm_fragments (t : TableRef) : Firm t.fragments := by
  obtain ⟨table, alias?⟩ := t
  unfold TableRef.fragments
  rw [← List.singleton_append]
  cases alias? with
  | none => exact firm_identifier table
  | some name =>
    dsimp only
    split
    · exact firm_identifier table
    · exact (firm_identifier table).append (firm_aliasFragments name) rfl

theorem firm_clauseFragments {content : List Fragment} (layout : Layout) (word : Keyword)
    (h : Firm content) : Firm (clauseFragments layout word content) := by
  have hword : Firm ([.keyword word, .space] ++ content) :=
    (firm_keyword word).append (h.gap (f := .space) rfl) rfl
  unfold clauseFragments
  cases layout <;> exact hword.gap rfl

theorem opensGap_clauseFragments (layout : Layout) (word : Keyword) (content : List Fragment) :
    opensGap (clauseFragments layout word content) = true := by
  cases layout <;> rfl

theorem firm_bound (word : Keyword) (n : UInt64) : Firm [.keyword word, .space, bound n] :=
  (firm_keyword word).spaced (firm_integer _)

theorem firm_paging (d : Dialect) (limit offset : Option UInt64) : Firm (paging d limit offset) := by
  have hrows : ∀ word n, Firm [.keyword word, .space, bound n, .space, .keyword .rows] :=
    fun word n => (firm_bound word n).spaced (firm_keyword .rows)
  cases d with
  | tsql =>
    cases limit with
    | none => exact hrows .offset _
    | some n =>
      exact (hrows .offset _).spaced ((firm_keyword .fetch).spaced
        ((hrows .next n).spaced (firm_keyword .only)))
  | _ =>
    cases limit <;> cases offset
    · exact firm_nil
    · exact firm_bound .offset _
    · exact firm_bound .limit _
    · exact (firm_bound .limit _).spaced (firm_bound .offset _)

theorem firm_constantOrder (layout : Layout) (window : Option RowWindow) :
    Firm (constantOrder layout window) := by
  have hselect : Firm [.keyword .select, .space, .keyword .null, .closeParen] :=
    (firm_keyword .select).spaced ((firm_keyword .null).append (firm_nil.gap (f := .closeParen) rfl) rfl)
  unfold constantOrder
  split
  · split
    · have horder := (firm_keyword .orderBy).spaced hselect.openParen
      exact horder.gap rfl
    · exact firm_nil
  · exact firm_nil

theorem opensGap_constantOrder (layout : Layout) (window : Option RowWindow) :
    opensGap (constantOrder layout window) = true := by
  unfold constantOrder
  split
  · split <;> rfl
  · rfl

theorem firm_windowFragments (layout : Layout) (window : Option RowWindow) :
    Firm (windowFragments layout window) := by
  unfold windowFragments
  split
  · exact (firm_paging _ _ _).gap rfl
  · exact firm_nil

theorem opensGap_windowFragments (layout : Layout) (window : Option RowWindow) :
    opensGap (windowFragments layout window) = true := by
  unfold windowFragments
  split <;> rfl

theorem Fragment.Firm.membership {first inner : List Fragment} (h : Firm first) (negated : Bool)
    (h' : Firm inner) : Firm (first ++ inFragments negated ++ inner ++ [.closeParen]) := by
  have hinner : Firm (inner ++ [.closeParen]) := h'.append (firm_nil.gap rfl) rfl
  have hopen := (firm_keyword .in_).spaced hinner.openParen
  rw [List.append_assoc, List.append_assoc]
  cases negated with
  | false => exact h.spaced hopen
  | true => exact h.spaced ((firm_keyword .not_).spaced hopen)

theorem Expr.firm_listFragments {es : List Expr} (h : ∀ e ∈ es, Firm e.fragments) :
    Firm (Expr.listFragments es) := by
  induction es with
  | nil => exact firm_nil
  | cons e rest ih =>
    obtain ⟨he, hrest⟩ := List.forall_mem_cons.1 h
    cases rest with
    | nil => exact he
    | cons next rest =>
      rw [Expr.listFragments, List.append_assoc]
      exact he.append (((ih hrest).gap rfl).gap rfl) rfl

theorem SelectItem.firm_listFragments {items : List SelectItem} (layout : Layout)
    (h : ∀ item ∈ items, Firm item.expr.fragments) :
    Firm (SelectItem.listFragments layout items) ∧
      opensGap (SelectItem.listFragments layout items) = true := by
  -- an item is read apart from what stands behind it, which is another item or nothing
  have hitem : ∀ item ∈ items, ∀ rest, Firm rest → opensGap rest = true →
      Firm (layout.itemBreak ++ item.expr.fragments ++ optionalAlias item.alias? ++ rest) := by
    intro item hitem rest hrest hgap
    have hbody := ((h item hitem).append (firm_optionalAlias item.alias?)
      (opensGap_optionalAlias _)).append hrest hgap
    rw [List.append_assoc, List.append_assoc, ← List.append_assoc item.expr.fragments]
    cases layout with
    | lines d => exact (hbody.indent 1).gap rfl
    | inline => exact hbody.gap rfl
  induction items with
  | nil => exact ⟨firm_nil, rfl⟩
  | cons item rest ih =>
    obtain ⟨hrest, -⟩ := ih (fun item hmem => h item (List.mem_cons_of_mem _ hmem))
      fun item hmem => hitem item (List.mem_cons_of_mem _ hmem)
    have hfirst := hitem item List.mem_cons_self
    obtain ⟨expr, alias?⟩ := item
    constructor
    · cases rest with
      | nil =>
        have hall := hfirst [] firm_nil rfl
        rwa [List.append_nil] at hall
      | cons next rest =>
        rw [SelectItem.listFragments, List.append_assoc]
        exact hfirst _ (hrest.gap rfl) rfl
    · cases rest <;> cases layout <;> rfl

theorem Join.firm_listFragments {joins : List Join} (layout : Layout)
    (h : ∀ join ∈ joins, Firm join.on.fragments) :
    Firm (Join.listFragments layout joins) ∧ opensGap (Join.listFragments layout joins) = true := by
  induction joins with
  | nil => exact ⟨firm_nil, rfl⟩
  | cons join rest ih =>
    obtain ⟨hjoin, hmore⟩ := List.forall_mem_cons.1 h
    obtain ⟨hrest, hgap⟩ := ih hmore
    obtain ⟨kind, table, on⟩ := join
    have hall := (firm_keyword kind.word).spaced ((firm_keyword .join).spaced
      (table.firm_fragments.spaced ((firm_keyword .on_).spaced (hjoin.append hrest hgap))))
    rw [Join.listFragments]
    simp only [List.append_assoc, List.cons_append, List.nil_append] at hall ⊢
    cases layout with
    | lines d => exact ⟨hall.gap rfl, rfl⟩
    | inline => exact ⟨hall.gap rfl, rfl⟩

theorem OrderItem.firm_listFragments {items : List OrderItem}
    (h : ∀ item ∈ items, Firm item.expr.fragments) : Firm (OrderItem.listFragments items) := by
  induction items with
  | nil => exact firm_nil
  | cons item rest ih =>
    obtain ⟨hitem, hrest⟩ := List.forall_mem_cons.1 h
    obtain ⟨expr, direction⟩ := item
    cases rest with
    | nil => exact hitem.spaced (firm_keyword direction.word)
    | cons next rest =>
      have hnext := ((ih hrest).gap (f := .space) rfl).gap (f := .comma) rfl
      have hcomma := (firm_keyword direction.word).append hnext rfl
      rw [OrderItem.listFragments, List.append_assoc]
      exact hitem.spaced hcomma

/-! ## Queries -/

/-- The fragments of every clause of a query are read as they are meant. -/
structure Query.Firm (q : Query) : Prop where
  select : ∀ item ∈ q.select, Fragment.Firm item.expr.fragments
  source : ∀ d, ∀ source ∈ q.source, Fragment.Firm (source.fragments d)
  joins : ∀ join ∈ q.joins, Fragment.Firm join.on.fragments
  condition : ∀ e ∈ q.condition, Fragment.Firm e.fragments
  groupBy : ∀ e ∈ q.groupBy, Fragment.Firm e.fragments
  orderBy : ∀ item ∈ q.orderBy, Fragment.Firm item.expr.fragments

namespace Query.Firm

variable {q : Query}

/-- A query is read as it is meant. -/
theorem fragments (h : q.Firm) (layout : Layout) : Fragment.Firm (q.fragments layout) := by
  obtain ⟨hselect, hsource, hjoins, hcondition, hgroupBy, horderBy⟩ := h
  obtain ⟨select, source, joins, condition, groupBy, orderBy, window⟩ := q
  have hitems := SelectItem.firm_listFragments layout hselect
  have hjoined := Join.firm_listFragments layout hjoins
  unfold Query.fragments
  refine (((((((firm_keyword .select).append hitems.1 hitems.2).append ?_ ?_).append hjoined.1
    hjoined.2).append ?_ ?_).append ?_ ?_).append ?_ ?_).append (firm_windowFragments layout window)
    (opensGap_windowFragments _ _)
  · split
    · exact firm_nil
    · exact firm_clauseFragments _ _ (hsource _ _ rfl)
  · split
    · rfl
    · exact opensGap_clauseFragments _ _ _
  · split
    · exact firm_nil
    · exact firm_clauseFragments _ _ (hcondition _ rfl)
  · split
    · rfl
    · exact opensGap_clauseFragments _ _ _
  · split
    · exact firm_nil
    · exact firm_clauseFragments _ _ (Expr.firm_listFragments hgroupBy)
  · split
    · rfl
    · exact opensGap_clauseFragments _ _ _
  · split
    · exact firm_constantOrder _ _
    · exact firm_clauseFragments _ _ (OrderItem.firm_listFragments horderBy)
  · split
    · exact opensGap_constantOrder _ _
    · exact opensGap_clauseFragments _ _ _

/-- A further condition is read as it is meant. -/
theorem andWhere {condition : Expr} (h : q.Firm) (hcondition : Fragment.Firm condition.fragments) :
    (q.andWhere condition).Firm := by
  refine ⟨h.select, h.source, h.joins, fun e he => ?_, h.groupBy, h.orderBy⟩
  have hand : ∀ present : Expr, Fragment.Firm present.fragments →
      Fragment.Firm (present.and condition).fragments := by
    intro present hpresent
    rw [Expr.and, Expr.fragments]
    exact hpresent.binary .and hcondition
  obtain rfl := Option.some.inj he
  cases hpresent : q.condition with
  | none => exact hcondition
  | some present =>
    have hfirm := h.condition present hpresent
    split
    · rename_i heq
      simp at heq
    · rename_i left right heq
      rw [Option.some.inj heq] at hfirm
      refine hand _ ?_
      rw [Expr.fragments]
      exact hfirm.paren
    · rename_i other _ heq
      rw [← Option.some.inj heq]
      exact hand _ hfirm

theorem countQuery (h : q.Firm) : q.countQuery.Firm := by
  have hcount : Fragment.Firm Expr.countAll.fragments := firm_star.call (by decide)
  have hbare : Query.Firm { q with orderBy := [], window := none } :=
    ⟨h.select, h.source, h.joins, h.condition, h.groupBy, by simp⟩
  refine ⟨?_, fun d source hsource => ?_, ?_, ?_, ?_, ?_⟩
  · intro item hitem
    rw [List.mem_singleton.1 hitem]
    exact hcount
  · obtain rfl := Option.some.inj hsource
    have hclose : Fragment.Firm [.newline, .closeParen] := (firm_nil.gap rfl).gap rfl
    have hderived := ((hbare.fragments (.lines d)).append hclose rfl).append
      (firm_aliasFragments Query.countTable) rfl
    exact (hderived.gap (f := .newline) rfl).openParen
  all_goals simp [Query.countQuery, Query.empty]

theorem paged (h : q.Firm) (page pageSize : UInt64) : (q.paged page pageSize).Firm :=
  ⟨h.select, h.source, h.joins, h.condition, h.groupBy, h.orderBy⟩

end Query.Firm

end ReportSql
