import ReportSql.Proofs.Query.Placeholders

/-!
# Collected placeholders

The placeholders of a query are collected from its output columns, its source, its
joins, its condition and its grouping, and from every query inside these. The keys of
an order are passed over, whether they stand in the query itself or in one of its
subqueries. So a printed placeholder that is not collected stands in such a key.

## Main definitions

* `Expr.orderNames`, `Query.orderNames` - the placeholders printed in the keys of orders
* `Fragment.Accounts` - printed placeholders beside the collected ones

## Main results

* `placeholders_cover` - when every printed placeholder is collected
-/

namespace ReportSql

open Fragment

/-! ## Keys of orders -/

mutual

/-- The names of the placeholders that an expression prints in the keys of an order. These stand in the
queries inside it, and a list that is empty prints no operand. -/
def Expr.orderNames : Expr → List String
  | .binary _ left right => left.orderNames ++ right.orderNames
  | .not operand => operand.orderNames
  | .paren inner => inner.orderNames
  | .call _ args => Expr.orderNamesOf args
  | .inList _ [] _ => []
  | .inList operand (value :: rest) _ =>
    operand.orderNames ++ Expr.orderNamesOf (value :: rest)
  | .inQuery operand query _ => operand.orderNames ++ query.orderNames
  | .column _ _ | .integer _ | .null | .placeholder _ | .star _ => []

/-- The names that several expressions print in the keys of orders. -/
def Expr.orderNamesOf : List Expr → List String
  | [] => []
  | e :: rest => e.orderNames ++ Expr.orderNamesOf rest

/-- The names that output columns print in the keys of orders. -/
def SelectItem.orderNamesOf : List SelectItem → List String
  | [] => []
  | ⟨expr, _⟩ :: rest => expr.orderNames ++ SelectItem.orderNamesOf rest

/-- The names that joins print in the keys of orders. -/
def Join.orderNamesOf : List Join → List String
  | [] => []
  | ⟨_, _, on⟩ :: rest => on.orderNames ++ Join.orderNamesOf rest

/-- The names that a source prints in the keys of orders. -/
def Source.orderNames : Source → List String
  | .table _ => []
  | .derived query _ => query.orderNames

/-- The names of the placeholders that a query prints in the keys of an order, its own or that of a
query inside it. -/
def Query.orderNames : Query → List String
  | ⟨select, source, joins, condition, groupBy, orderBy, _⟩ =>
    SelectItem.orderNamesOf select ++
      (match source with
        | some source => source.orderNames
        | none => []) ++
      Join.orderNamesOf joins ++
      (match condition with
        | some condition => condition.orderNames
        | none => []) ++
      Expr.orderNamesOf groupBy ++ orderBy.flatMap fun item => names item.expr.fragments

end

/-! ## Accounts -/

/-- Every printed name is collected or is that of a key, and the names of keys are printed. -/
structure Fragment.Accounts (printed collected keys : List String) : Prop where
  covered : printed ⊆ collected ++ keys
  shown : keys ⊆ printed

namespace Fragment.Accounts

variable {printed collected keys printed' collected' keys' : List String}

theorem nil (collected : List String) : Accounts [] collected [] :=
  ⟨List.nil_subset _, List.nil_subset _⟩

/-- Names that are collected as they are printed. -/
theorem all (printed : List String) : Accounts printed printed [] :=
  ⟨List.subset_append_left _ _, List.nil_subset _⟩

theorem append (h : Accounts printed collected keys) (h' : Accounts printed' collected' keys') :
    Accounts (printed ++ printed') (collected ++ collected') (keys ++ keys') where
  covered := by
    intro name hname
    rcases List.mem_append.1 hname with hname | hname
    · rcases List.mem_append.1 (h.covered hname) with hname | hname <;> simp [hname]
    · rcases List.mem_append.1 (h'.covered hname) with hname | hname <;> simp [hname]
  shown := List.append_subset.2
    ⟨List.Subset.trans h.shown (List.subset_append_left _ _),
      List.Subset.trans h'.shown (List.subset_append_right _ _)⟩

/-- The keys of an order come last, and none of them is collected. -/
theorem withKeys (h : Accounts printed collected keys) (more : List String) :
    Accounts (printed ++ more) collected (keys ++ more) where
  covered := by
    rw [← List.append_assoc]
    exact List.append_subset.2 ⟨List.Subset.trans h.covered (List.subset_append_left _ _),
      List.subset_append_right _ _⟩
  shown := List.append_subset.2
    ⟨List.Subset.trans h.shown (List.subset_append_left _ _), List.subset_append_right _ _⟩

/-- All printed names are collected exactly when those of the keys are. -/
theorem subset_iff (h : Accounts printed collected keys) : printed ⊆ collected ↔ keys ⊆ collected := by
  constructor
  · exact List.Subset.trans h.shown
  · intro hkeys
    exact List.Subset.trans h.covered (List.append_subset.2 ⟨List.Subset.refl _, hkeys⟩)

end Fragment.Accounts

/-! ## Expressions and queries -/

/-- What IN prints are the placeholders of its operand and those of its list or query. -/
theorem names_in (operand content : List Fragment) (negated : Bool) :
    names (operand ++ inFragments negated ++ content ++ [.closeParen]) =
      names operand ++ names content := by
  simp [name?]

mutual

theorem Expr.accounts : ∀ e : Expr, Accounts (names e.fragments) e.placeholders e.orderNames
  | .column table name => by
    have hnone : names (Expr.column table name).fragments = [] := by simp [Expr.fragments, name?]
    rw [hnone]
    exact .nil _
  | .integer value => .nil _
  | .null => .nil _
  | .placeholder name => .all [name]
  | .binary op left right => by
    have hparts : names (Expr.binary op left right).fragments =
        names left.fragments ++ names right.fragments := by simp [Expr.fragments, name?]
    rw [hparts, Expr.placeholders, Expr.orderNames]
    exact left.accounts.append right.accounts
  | .not operand => by
    have hparts : names (Expr.not operand).fragments = names operand.fragments := by
      simp [Expr.fragments, name?]
    rw [hparts, Expr.placeholders, Expr.orderNames]
    exact operand.accounts
  | .call name args => by
    have hparts : names (Expr.call name args).fragments =
        args.flatMap fun e => names e.fragments := by
      simp [Expr.fragments, name?, Expr.names_listFragments]
    rw [hparts, Expr.placeholders, Expr.orderNames]
    exact Expr.accountsOf args
  | .inList operand [] negated => by
    -- the operand of an empty list is not printed
    have hnone : names (Expr.inList operand [] negated).fragments = [] := by
      simp [Expr.fragments, emptyListFragments, name?]
    rw [hnone, Expr.orderNames]
    exact .nil _
  | .inList operand (value :: rest) negated => by
    rw [Expr.fragments, names_in, Expr.names_listFragments, Expr.placeholders, Expr.orderNames]
    exact operand.accounts.append (Expr.accountsOf (value :: rest))
  | .inQuery operand query negated => by
    rw [Expr.fragments, names_in, Expr.placeholders, Expr.orderNames]
    exact operand.accounts.append (Query.accounts .inline query)
  | .star table => by
    have hnone : names (Expr.star table).fragments = [] := by simp [Expr.fragments, name?]
    rw [hnone]
    exact .nil _
  | .paren inner => by
    have hparts : names (Expr.paren inner).fragments = names inner.fragments := by
      simp [Expr.fragments, name?]
    rw [hparts, Expr.placeholders, Expr.orderNames]
    exact inner.accounts

theorem Expr.accountsOf : ∀ es : List Expr,
    Accounts (es.flatMap fun e => names e.fragments) (Expr.placeholdersOf es) (Expr.orderNamesOf es)
  | [] => .nil _
  | e :: rest => by
    rw [List.flatMap_cons, Expr.placeholdersOf, Expr.orderNamesOf]
    exact e.accounts.append (Expr.accountsOf rest)

theorem SelectItem.accountsOf : ∀ items : List SelectItem,
    Accounts (items.flatMap fun item => names item.expr.fragments) (SelectItem.placeholdersOf items)
      (SelectItem.orderNamesOf items)
  | [] => .nil _
  | ⟨expr, _⟩ :: rest => by
    rw [List.flatMap_cons, SelectItem.placeholdersOf, SelectItem.orderNamesOf]
    exact expr.accounts.append (SelectItem.accountsOf rest)

theorem Join.accountsOf : ∀ joins : List Join,
    Accounts (joins.flatMap fun join => names join.on.fragments) (Join.placeholdersOf joins)
      (Join.orderNamesOf joins)
  | [] => .nil _
  | ⟨_, _, on⟩ :: rest => by
    rw [List.flatMap_cons, Join.placeholdersOf, Join.orderNamesOf]
    exact on.accounts.append (Join.accountsOf rest)

theorem Source.accounts (d : Dialect) : ∀ source : Source,
    Accounts (names (source.fragments d)) source.placeholders source.orderNames
  | .table ref => by
    have hnone : names ((Source.table ref).fragments d) = [] := by simp [Source.fragments]
    rw [hnone]
    exact .nil _
  | .derived query name => by
    have hparts : names ((Source.derived query name).fragments d) =
        names (query.fragments (.lines d)) := by simp [Source.fragments, name?]
    rw [hparts, Source.placeholders, Source.orderNames]
    exact Query.accounts (.lines d) query

theorem Query.accounts (layout : Layout) : ∀ q : Query,
    Accounts (names (q.fragments layout)) q.placeholders q.orderNames
  | ⟨select, source, joins, condition, groupBy, orderBy, window⟩ => by
    rw [Query.names_fragments]
    unfold Query.placeholders Query.orderNames
    refine .withKeys (.append (.append (.append (.append (SelectItem.accountsOf select) ?_)
      (Join.accountsOf joins)) ?_) (Expr.accountsOf groupBy)) _
    · match source with
      | none => exact .nil _
      | some source =>
        rw [Option.toList_some, List.flatMap_singleton]
        exact Source.accounts layout.dialect source
    · match condition with
      | none => exact .nil _
      | some condition =>
        rw [Option.toList_some, List.flatMap_singleton]
        exact condition.accounts

end

/-- Whatever an expression or a query prints, over several lines or inline, a placeholder that is not
collected stands in a key of an order. So all of them are collected exactly when those in the keys are
collected from another place. -/
theorem placeholders_cover (e : Expr) (layout : Layout) (q : Query) :
    (names e.fragments ⊆ e.placeholders ++ e.orderNames ∧
      (names e.fragments ⊆ e.placeholders ↔ e.orderNames ⊆ e.placeholders)) ∧
    names (q.fragments layout) ⊆ q.placeholders ++ q.orderNames ∧
      (names (q.fragments layout) ⊆ q.placeholders ↔ q.orderNames ⊆ q.placeholders) :=
  ⟨⟨e.accounts.covered, e.accounts.subset_iff⟩, (q.accounts layout).covered,
    (q.accounts layout).subset_iff⟩

/-- A query with a parameter in an output column and one in a list, in a subquery of its derived table. -/
def nestedParameters : Query :=
  let members : Query := { Query.empty with
    select := [⟨.column none "user_id", none⟩]
    source := some (.table ⟨"membership", none⟩)
    condition := some (.inList (.column none "unit_id") [.placeholder "unit", .integer 2] false)
    orderBy := [⟨.column none "user_id", .asc⟩] }
  { Query.empty with
    select := [⟨.call "COALESCE" [.column none "city", .placeholder "city"], some "city"⟩]
    source := some (.derived { Query.empty with
      select := [⟨.star none, none⟩]
      source := some (.table ⟨"user", none⟩)
      condition := some (.inQuery (.column none "id") members true) } "u") }

theorem placeholders_cover_nested : nestedParameters.orderNames = [] ∧
    names (nestedParameters.fragments .inline) = ["city", "unit"] ∧
    names (nestedParameters.fragments .inline) ⊆ nestedParameters.placeholders := by
  have hkeys : nestedParameters.orderNames = [] := by decide +kernel
  refine ⟨hkeys, by decide +kernel, (placeholders_cover .null .inline nestedParameters).2.2.2 ?_⟩
  rw [hkeys]
  exact List.nil_subset _

/-- A query that is ordered by a parameter. -/
def orderedByParameter : Query :=
  { Query.empty with
    select := [⟨.column none "id", none⟩]
    source := some (.table ⟨"user", none⟩)
    orderBy := [⟨.placeholder "first", .asc⟩] }

/-- The parameter in the order is printed in both layouts and not collected. -/
theorem placeholders_cover_ordered :
    names (orderedByParameter.fragments (.lines .sqlite)) = ["first"] ∧
      names (orderedByParameter.fragments .inline) = ["first"] ∧
        orderedByParameter.placeholders = [] := by
  decide +kernel

end ReportSql
