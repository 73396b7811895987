import ReportSql.Proofs.Scope.Injection

/-!
# Reports and the values of a request

The compiler looks at the shape of a value only: whether there is one, whether it is
null, a single value or a list, and the same of the items of a list. Two requests whose
values have the same shapes are compiled side by side: the names bound so far are the
same in both, so the same placeholders are chosen, and the conditions are the same trees.

## Main definitions

* `ValueShape`, `ParamValue.shape` - the shape of a value
* `QueryConfig.AgreeOn` - two requests with the same shapes where filters look
* `CompiledQuery.ReadsAs` - two compiled queries with the same texts

## Main results

* `Compiler.compile_shape` - the values of a request never reach the text of a query
-/

namespace ReportSql

/-- The shape of a value. -/
inductive ValueShape where
  | null
  | scalar
  | list (items : List ValueShape)

/-- Whether the shape is that of a value other than null and lists. -/
def ValueShape.isScalar : ValueShape → Bool
  | scalar => true
  | _ => false

namespace ParamValue

mutual

/-- The shape of a value. -/
def shape : ParamValue → ValueShape
  | null => .null
  | bool _ | int _ | float _ | text _ => .scalar
  | list items => .list (shapes items)

/-- The shapes of the items of a list. -/
def shapes : List ParamValue → List ValueShape
  | [] => []
  | item :: rest => item.shape :: shapes rest

end

theorem shapes_eq_map (items : List ParamValue) : shapes items = items.map shape := by
  induction items with
  | nil => rfl
  | cons item rest ih => rw [shapes, ih, List.map_cons]

theorem isScalar_shape (value : ParamValue) :
    value.shape.isScalar = Compiler.isListScalar value := by
  cases value <;> rfl

end ParamValue

/-- Two requests that both have no value, or both have values of the same shape, for every name
that a filter looks up. -/
def QueryConfig.AgreeOn (config : QueryConfig) (p q : Params) : Prop :=
  ∀ f ∈ config.filters, (p.get? f.param).map ParamValue.shape = (q.get? f.param).map ParamValue.shape

/-- Two compiled queries with the same texts for every page, the same placeholders, the same names
of values and the same remarks. -/
structure CompiledQuery.ReadsAs (a b : CompiledQuery) : Prop where
  sql : a.sql = b.sql
  countSql : a.countSql = b.countSql
  pagedSql : ∀ page pageSize, a.pagedSql page pageSize = b.pagedSql page pageSize
  placeholders : a.query.placeholders = b.query.placeholders
  names : a.params.names = b.params.names
  warnings : a.warnings = b.warnings

namespace Compiler

variable {bound bound' : Params}

/-! ## Names that are chosen -/

theorem contains_congr (h : bound.names = bound'.names) (name : String) :
    bound.contains name = bound'.contains name := by
  rw [Bool.eq_iff_iff, NameMap.contains_iff, NameMap.contains_iff, h]

theorem size_congr (h : bound.names = bound'.names) : bound.size = bound'.size := by
  rw [← NameMap.length_names, ← NameMap.length_names, h]

theorem freshName_congr (base : String) (h : bound.names = bound'.names) :
    freshName base bound = freshName base bound' := by
  simp only [freshName, contains_congr h, size_congr h]

theorem freshListName_congr (base : String) (count : Nat) (h : bound.names = bound'.names) :
    freshListName base count bound = freshListName base count bound' := by
  simp only [freshListName, contains_congr h, size_congr h]

/-! ## Filters side by side -/

/-- The same condition and the same names bound. -/
def SameSlots {α : Type} (r s : α × Params) : Prop :=
  r.1 = s.1 ∧ r.2.names = s.2.names

/-- Lists with the same shapes take the same slots. -/
theorem names_slots_congr (name : String) {items items' : List ParamValue}
    (h : items.length = items'.length) :
    (slots name items).map (·.1) = (slots name items').map (·.1) := by
  rw [names_slots, names_slots, h]

theorem compileInFilter_items (filter : FilterSpec) (base : String) {items items' : List ParamValue}
    (hshapes : items.map ParamValue.shape = items'.map ParamValue.shape)
    (hnames : bound.names = bound'.names) :
    SameOutcome SameSlots (compileInFilter filter base (.list items) bound)
      (compileInFilter filter base (.list items') bound') := by
  have hlength : items.length = items'.length := by simpa using congrArg List.length hshapes
  have hscalars : items.all isListScalar = items'.all isListScalar := by
    have hall := congrArg (fun shapes => shapes.all ValueShape.isScalar) hshapes
    simpa only [List.all_map, Function.comp_def, ParamValue.isScalar_shape] using hall
  have hempty : items.isEmpty = items'.isEmpty := by
    rw [Bool.eq_iff_iff, List.isEmpty_iff_length_eq_zero, List.isEmpty_iff_length_eq_zero, hlength]
  show SameOutcome SameSlots (if items.isEmpty then _ else _) (if items'.isEmpty then _ else _)
  rw [← hempty, ← hscalars]
  split
  · exact .ok ⟨rfl, hnames⟩
  · split
    · exact .error _
    · have hname := freshListName_congr base items.length hnames
      have hslots := names_slots_congr (freshListName base items.length bound) hlength
      rw [← hlength, ← hname]
      refine .ok ⟨?_, NameMap.names_insertAll_congr hnames hslots⟩
      have hplaceholders := congrArg (List.map Expr.placeholder) hslots
      simp only [List.map_map] at hplaceholders
      exact congrArg (fun values => Expr.inList _ values false) hplaceholders

/-- A single value of an IN filter counts as a list of one. -/
theorem compileInFilter_scalar (filter : FilterSpec) (base : String) {value : ParamValue}
    (h : isListScalar value = true) :
    compileInFilter filter base value bound = compileInFilter filter base (.list [value]) bound := by
  cases value with
  | null | list => simp [isListScalar] at h
  | bool | int | float | text => rfl

theorem compileInFilter_shape (filter : FilterSpec) (base : String) {value value' : ParamValue}
    (hshape : value.shape = value'.shape) (hnames : bound.names = bound'.names) :
    SameOutcome SameSlots (compileInFilter filter base value bound)
      (compileInFilter filter base value' bound') := by
  have hscalar : isListScalar value = isListScalar value' := by
    rw [← ParamValue.isScalar_shape, hshape, ParamValue.isScalar_shape]
  by_cases h : isListScalar value = true
  · have hitems : [value].map ParamValue.shape = [value'].map ParamValue.shape := by
      simpa using hshape
    rw [compileInFilter_scalar filter base h, compileInFilter_scalar filter base (hscalar.symm.trans h)]
    exact compileInFilter_items filter base hitems hnames
  · -- the values are both null or both lists
    cases value with
    | bool | int | float | text => exact absurd rfl h
    | null =>
      cases value' with
      | null => exact .error _
      | bool | int | float | text | list => simp [ParamValue.shape] at hshape
    | list items =>
      cases value' with
      | list items' =>
        rw [ParamValue.shape, ParamValue.shape, ParamValue.shapes_eq_map,
          ParamValue.shapes_eq_map] at hshape
        exact compileInFilter_items filter base (ValueShape.list.inj hshape) hnames
      | null | bool | int | float | text => simp [ParamValue.shape] at hshape

theorem compileComparison_shape (filter : FilterSpec) (op : FilterOperator) (base : String)
    {value value' : ParamValue} (hshape : value.shape = value'.shape)
    (hnames : bound.names = bound'.names) :
    SameOutcome SameSlots (compileComparison filter op base value bound)
      (compileComparison filter op base value' bound') := by
  have hname := freshName_congr base hnames
  have hinsert : (bound.insert (freshName base bound) value).names =
      (bound'.insert (freshName base bound') value').names := by
    have hentry : [(freshName base bound, value)].map (·.1) =
        [(freshName base bound', value')].map (·.1) := by simp [hname]
    exact NameMap.names_insertAll_congr hnames hentry
  cases value with
  | null =>
    cases value' with
    | null => exact .error _
    | bool | int | float | text | list => simp [ParamValue.shape] at hshape
  | list items =>
    cases value' with
    | list items' => exact .error _
    | null | bool | int | float | text => simp [ParamValue.shape] at hshape
  | bool | int | float | text =>
    cases value' with
    | null | list => simp [ParamValue.shape] at hshape
    | bool | int | float | text => exact .ok ⟨by rw [hname], hinsert⟩

variable {p q : Params}

theorem compileFilter_shape {filter : FilterSpec}
    (hshape : (p.get? filter.param).map ParamValue.shape =
      (q.get? filter.param).map ParamValue.shape)
    (hnames : bound.names = bound'.names) :
    SameOutcome SameSlots (compileFilter filter p bound) (compileFilter filter q bound') := by
  unfold compileFilter
  refine SameOutcome.bind_left _ fun op => ?_
  cases hp : p.get? filter.param with
  | none =>
    have hq : q.get? filter.param = none := by simpa [hp, eq_comm] using hshape
    rw [hq]
    exact .error _
  | some value =>
    rw [hp, Option.map_some, eq_comm, Option.map_eq_some_iff] at hshape
    obtain ⟨value', hq, hshape⟩ := hshape
    rw [hq]
    dsimp only
    split
    · exact compileInFilter_shape filter _ hshape.symm hnames
    · exact compileComparison_shape filter op _ hshape.symm hnames

/-- One step of the filter loop keeps the groups and the names bound the same in both runs. -/
theorem groupFilters_shape {filters : List FilterSpec}
    (hshapes : ∀ f ∈ filters, (p.get? f.param).map ParamValue.shape =
      (q.get? f.param).map ParamValue.shape) :
    ∀ (groups : List (List Expr)) {bound bound' : Params}, bound.names = bound'.names →
      SameOutcome SameSlots (groupFilters p groups bound filters)
        (groupFilters q groups bound' filters) := by
  induction filters with
  | nil => exact fun groups _ _ hnames => .ok ⟨rfl, hnames⟩
  | cons filter rest ih =>
    intro groups bound bound' hnames
    have hrest := ih fun f hf => hshapes f (List.mem_cons_of_mem _ hf)
    unfold groupFilters
    refine SameOutcome.bind_left _ fun logic => ?_
    refine (compileFilter_shape (hshapes filter List.mem_cons_self) hnames).bind ?_
    rintro ⟨condition, bound₁⟩ ⟨condition', bound₁'⟩ ⟨rfl, hnames₁⟩
    dsimp only
    split <;> exact hrest _ hnames₁

theorem compileFilters_shape {config : QueryConfig} (h : config.AgreeOn p q) :
    SameOutcome SameSlots (compileFilters config.filters p) (compileFilters config.filters q) := by
  unfold compileFilters
  refine (groupFilters_shape h [] rfl).bind ?_
  rintro ⟨groups, bound⟩ ⟨groups', bound'⟩ ⟨rfl, hnames⟩
  exact .ok ⟨rfl, hnames⟩

/-! ## The report -/

/-- The values of a request never reach the text of a query: two requests of the same shapes are
refused with the same error, or compile to queries with the same texts, placeholders and remarks. -/
theorem compile_shape {c : Compiler} {config : QueryConfig} {p q : Params}
    (h : config.AgreeOn p q) :
    SameOutcome CompiledQuery.ReadsAs (c.compile config p) (c.compile config q) := by
  unfold compile
  refine SameOutcome.bind_left _ fun tables => SameOutcome.bind_left _ fun _ => ?_
  split
  · exact .error _
  · refine SameOutcome.bind_left _ fun select => SameOutcome.bind_left _ fun joined => ?_
    refine (compileFilters_shape h).bind ?_
    rintro ⟨condition, bound⟩ ⟨condition', bound'⟩ ⟨rfl, hnames⟩
    refine SameOutcome.bind_left _ fun orderBy => .ok ?_
    exact ⟨rfl, rfl, fun _ _ => rfl, rfl, hnames, rfl⟩

/-- Values for the crowded report that look like SQL, of other kinds, and one that no filter asks
for. -/
def hostileParams : Params :=
  NameMap.ofList [("place", .text "x' OR '1' = '1"),
    ("places", .list [.text "'); DROP TABLE user; --", .int 3]), ("least", .bool true),
    ("order", .list [.null])]

theorem compile_shape_hostile : crowdedReport.AgreeOn crowdedParams hostileParams ∧
    ∃ a b, plainCompiler.compile crowdedReport crowdedParams = .ok a ∧
      plainCompiler.compile crowdedReport hostileParams = .ok b ∧ a.ReadsAs b := by
  have hagree : crowdedReport.AgreeOn crowdedParams hostileParams := by
    intro f hf
    simp only [crowdedReport, List.mem_cons, List.not_mem_nil, or_false] at hf
    rcases hf with rfl | rfl | rfl | rfl | rfl <;> rfl
  obtain ⟨a, _, ha, -⟩ := crowdedReport_runs
  have hsame := compile_shape (c := plainCompiler) hagree
  rw [ha] at hsame
  cases hb : plainCompiler.compile crowdedReport hostileParams with
  | error e =>
    rw [hb] at hsame
    cases hsame
  | ok b =>
    rw [hb] at hsame
    cases hsame with
    | ok hreads => exact ⟨hagree, a, b, ha, rfl, hreads⟩

end Compiler

end ReportSql
