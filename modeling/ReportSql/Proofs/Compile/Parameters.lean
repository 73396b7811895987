import ReportSql.Proofs.Compile.Names
import ReportSql.Proofs.Sqlite.Queries

/-!
# Parameters of compiled reports

The names that a compiled report binds are plain identifiers, made from whitelisted columns.
The database reads the query as it is meant, before and after scoping, and so it finds no
parameters but the placeholders of the query, all of which are bound.

## Main results

* `Compiler.plainNames_of_compile` - the names that are bound are plain
* `Compiler.firm_of_compile` - the query is read as it is meant
* `CompiledQuery.provided` - the parameters of all three texts have values
-/

namespace ReportSql

open Fragment

/-! ## Names of placeholders -/

namespace Compiler

variable {base : String} {params bound bound' : Params}

theorem isPlainIdentifier_numbered (h : Dialect.isPlainIdentifier base = true) (n : Nat) :
    Dialect.isPlainIdentifier (numbered base n) = true := by
  have hsuffix : Dialect.isPlainIdentifier ("_" ++ toString n) = true := by
    unfold Dialect.isPlainIdentifier
    rw [String.toList_append, show (toString n).toList = Nat.toDigits 10 n from Nat.toList_repr]
    show (true && (Nat.toDigits 10 n).all Dialect.isPlainPart) = true
    rw [Bool.true_and, List.all_eq_true]
    intro c hc
    have hdigit := Nat.isDigit_of_mem_toDigits (by decide) (by decide) hc
    simp [Dialect.isPlainPart, Char.isAlphanum, hdigit]
  have hall := Dialect.isPlainIdentifier_append (.inr h) hsuffix
  rwa [← String.append_assoc] at hall

theorem Derived.isPlainIdentifier {name : String} (hderived : Derived base name)
    (h : Dialect.isPlainIdentifier base = true) : Dialect.isPlainIdentifier name = true := by
  induction hderived with
  | base => exact h
  | numbered _ n ih => exact isPlainIdentifier_numbered ih n

/-- The base of a slot's name is plain, as the column is. -/
theorem isPlainIdentifier_slotBase {filter : FilterSpec}
    (h : Dialect.isPlainIdentifier filter.column = true) (op : FilterOperator) :
    Dialect.isPlainIdentifier (slotBase filter op) = true := by
  rw [← Dialect.isPlainIdentifier_lowerAscii] at h
  unfold slotBase
  cases op with
  | lt | lte | gt | gte => exact Dialect.isPlainIdentifier_append (.inr h) (by decide)
  | _ => exact (String.append_empty (s := Text.lowerAscii filter.column)).symm ▸ h

/-- Parameters with plain names. -/
def PlainParams (params : Params) : Prop :=
  ∀ name ∈ params.names, Dialect.isPlainIdentifier name = true

/-- The names that a compiled report binds are plain. -/
theorem plainNames_of_compile {c : Compiler} {config : QueryConfig} {compiled : CompiledQuery}
    (hw : c.whitelist.Built) (h : c.compile config params = .ok compiled) :
    PlainParams compiled.params := by
  obtain ⟨p, rfl⟩ := compile_iff_parts.1 h
  obtain ⟨filters, hspecs, -, hnames, -, hbound, -⟩ := compileFilters_spec p.filtered
  intro name hname
  rw [Parts.compiled, hbound, NameMap.ofList, NameMap.mem_names_insertAll] at hname
  have hslot := hname.resolve_right List.not_mem_nil
  rw [slotsOf, List.map_flatMap] at hslot
  obtain ⟨f, hf, hslot⟩ := List.mem_flatMap.1 hslot
  obtain ⟨t, -, -, hallowed⟩ := checkColumn_eq_ok (p.checked ⟨f.spec.table, f.spec.column⟩
    (mem_columnRefs.2 (.inr (.inr (.inl ⟨f.spec, hspecs ▸ List.mem_map_of_mem hf, rfl⟩)))))
  exact (hnames f hf name hslot).isPlainIdentifier
    (isPlainIdentifier_slotBase (hw.isPlainIdentifier_column hallowed) f.operator)

end Compiler

/-! ## Expressions and clauses -/

theorem firm_column (table column : String) : Firm (Expr.qualified table column).fragments :=
  firm_qualified (some table) (.inr ⟨column, rfl⟩)

theorem firm_never : Firm Expr.never.fragments :=
  (firm_integer 1).binary .eq (firm_integer 0)

theorem firm_inList {operand : Expr} {values : List Expr} (negated : Bool)
    (hoperand : values ≠ [] → Firm operand.fragments) (hvalues : ∀ e ∈ values, Firm e.fragments) :
    Firm (Expr.inList operand values negated).fragments := by
  cases values with
  | nil =>
    rw [Expr.fragments]
    exact (firm_integer 1).binary .eq (firm_integer _)
  | cons value rest =>
    rw [Expr.fragments]
    exact (hoperand (List.cons_ne_nil _ _)).membership negated (Expr.firm_listFragments hvalues)

/-- A checked expression is read as it is meant if its placeholders are plain. -/
theorem Expr.Checked.firm {w : Whitelist} {tables : List AliasedTable} {e : Expr} (h : e.Checked w tables)
    (hnames : ∀ name ∈ names e.fragments, Dialect.isPlainIdentifier name = true) : Firm e.fragments := by
  induction h with
  | column => exact firm_column _ _
  | never => exact firm_never
  | placeholder name =>
    rw [Expr.fragments]
    exact firm_placeholder (hnames name (by simp [Expr.fragments, name?]))
  | paren _ ih =>
    rw [Expr.fragments] at hnames ⊢
    exact (ih (by simpa [name?] using hnames)).paren
  | binary op _ _ ihleft ihright =>
    rw [Expr.fragments] at hnames ⊢
    simp only [names_append, List.mem_append] at hnames
    exact (ihleft fun name hname => hnames name (.inl (.inl hname))).binary op
      (ihright fun name hname => hnames name (.inr hname))
  | summary a _ ih =>
    rw [Aggregate.apply, Expr.fragments, Expr.listFragments] at hnames ⊢
    exact (ih (by simpa [name?] using hnames)).call (by cases a <;> decide +kernel)
  | @inList operand values negated _ _ ihoperand ihvalues =>
    -- an empty list prints no operand
    have hsome : values ≠ [] → names (Expr.inList operand values negated).fragments =
        names operand.fragments ++ values.flatMap fun e => names e.fragments := by
      intro hne
      obtain ⟨value, rest, rfl⟩ := List.exists_cons_of_ne_nil hne
      rw [Expr.fragments]
      simp [Expr.names_listFragments, name?]
    refine firm_inList negated (fun hne => ihoperand fun name hname => hnames name ?_) fun e he =>
      ihvalues e he fun name hname => hnames name ?_
    · rw [hsome hne]
      exact List.mem_append_left _ hname
    · rw [hsome (List.ne_nil_of_mem he)]
      exact List.mem_append_right _ (List.mem_flatMap_of_mem he hname)

/-- The clauses of a compiled report are read as they are meant. -/
theorem Compiler.Clauses.firm {c : Compiler} {tables : List AliasedTable} {q : Query}
    {layout : Layout} (h : c.Clauses tables q)
    (hnames : ∀ name ∈ names (q.fragments layout), Dialect.isPlainIdentifier name = true) : q.Firm := by
  simp only [Query.names_fragments, List.mem_append, List.mem_flatMap, Option.mem_toList] at hnames
  refine ⟨fun item hitem => (h.select item hitem).1.firm ?_, fun d source hsource => ?_,
    fun join hjoin => (h.joins join hjoin).firm ?_, fun e he => (h.condition e he).firm ?_,
    fun e he => (h.groupBy e he).firm ?_, fun item hitem => (h.orderBy item hitem).firm ?_⟩
  · exact fun name hname => hnames name (.inl (.inl (.inl (.inl (.inl ⟨item, hitem, hname⟩)))))
  · obtain ⟨ref, href⟩ := h.source
    obtain rfl := Option.some.inj (href.symm.trans hsource)
    exact ref.firm_fragments
  · exact fun name hname => hnames name (.inl (.inl (.inl (.inr ⟨join, hjoin, hname⟩))))
  · exact fun name hname => hnames name (.inl (.inl (.inr ⟨e, he, hname⟩)))
  · exact fun name hname => hnames name (.inl (.inr ⟨e, he, hname⟩))
  · exact fun name hname => hnames name (.inr ⟨item, hitem, hname⟩)

/-! ## Scopes -/

theorem isPlainIdentifier_slotName (n : Nat) :
    Dialect.isPlainIdentifier (Injector.slotName n) = true := by
  have hbase : Dialect.isPlainIdentifier "scope_unit" = true := by decide
  exact Compiler.isPlainIdentifier_numbered hbase n

/-- The condition of a scope is read as it is meant. -/
theorem Injector.firm_predicate (i : Injector) (units : UnitSet) : Firm (i.predicate units).1.fragments := by
  unfold predicate
  split
  · exact firm_never
  · rename_i unit rest _
    dsimp only
    rw [Expr.fragments]
    have hmembers : (i.membersQuery ((slotsFrom 0 (unit :: rest)).map (·.1))).Firm := by
      refine ⟨fun item hitem => ?_, fun d source hsource => ?_, by simp [membersQuery, Query.empty],
        fun e he => ?_, by simp [membersQuery, Query.empty], by simp [membersQuery, Query.empty]⟩
      · rw [List.mem_singleton.1 hitem]
        exact firm_column _ _
      · obtain rfl := Option.some.inj hsource
        exact TableRef.firm_fragments _
      · obtain rfl := Option.some.inj he
        refine firm_inList false (fun _ => firm_column _ _) fun slot hslot => ?_
        obtain ⟨name, hname, rfl⟩ := List.mem_map.1 hslot
        rw [names_slotsFrom] at hname
        obtain ⟨n, -, rfl⟩ := List.mem_map.1 hname
        rw [Expr.fragments]
        exact firm_placeholder (isPlainIdentifier_slotName n)
    exact (firm_column _ _).membership false (hmembers.fragments _)

/-! ## Reports -/

/-- The query of a compiled report is read as it is meant. -/
theorem Compiler.firm_of_compile {c : Compiler} {config : QueryConfig} {params : Params}
    {compiled : CompiledQuery} (hw : c.whitelist.Built) (h : c.compile config params = .ok compiled) :
    compiled.query.Firm := by
  obtain ⟨tables, -, -, hclauses⟩ := compile_clauses hw h
  obtain ⟨filters, -, -, -, -, hbinds⟩ := binds_of_compile h
  exact hclauses.firm fun name hname =>
    plainNames_of_compile hw h name ((hbinds.placeholders name).1 hname)

theorem Injector.firm_injectQuery {i : Injector} {restriction : Restriction}
    {compiled restricted : CompiledQuery} (hfirm : compiled.query.Firm)
    (h : i.injectQuery restriction compiled = .ok restricted) : restricted.query.Firm := by
  rcases injectQuery_eq_ok h with ⟨-, rfl⟩ | ⟨units, -, -, rfl⟩
  · exact hfirm
  · exact hfirm.andWhere (i.firm_predicate units)

/-- The parameters in all texts of a query have values. -/
theorem CompiledQuery.provided {q : CompiledQuery} {filters : List CompiledFilter} (hfirm : q.query.Firm)
    (hbinds : q.Binds filters) (hdialect : q.dialect = .sqlite) :
    Sqlite.Provided q.params q.sql ∧ Sqlite.Provided q.params q.countSql ∧
      ∀ page pageSize, Sqlite.Provided q.params (q.pagedSql page pageSize) := by
  have hprovided : ∀ other : Query, other.Firm →
      (∀ name ∈ names (other.fragments (.lines .sqlite)), name ∈ names (q.query.fragments (.lines .sqlite))) →
      Sqlite.Provided q.params (other.sql .sqlite) := by
    intro other hother hnames
    rw [Query.sql, ← textOf_flatMap_written]
    refine (hother.fragments _ none Token.soft_none).provided fun name hname => ?_
    rw [placeholdersIn_written] at hname
    have hmem := hnames name hname
    rw [← hdialect] at hmem
    exact (hbinds.placeholders name).1 hmem
  unfold CompiledQuery.sql CompiledQuery.countSql CompiledQuery.pagedSql
  rw [hdialect]
  refine ⟨hprovided _ hfirm fun _ h => h, hprovided _ hfirm.countQuery fun name hname => ?_,
    fun page pageSize => hprovided _ (hfirm.paged page pageSize) fun name hname => ?_⟩
  · -- the derived table leaves out the order
    simp only [Query.names_fragments, Query.countQuery, Query.empty, Source.fragments, Expr.countAll,
      Expr.fragments, Expr.listFragments, names_append, names_cons, names_nil, names_qualifier, name?,
      Layout.dialect, Option.toList_none, Option.toList_some, List.flatMap_cons, List.flatMap_nil,
      names_aliasFragments, List.append_nil, List.nil_append] at hname ⊢
    exact List.mem_append_left _ hname
  · simpa [Query.names_fragments, Query.paged] using hname

end ReportSql
