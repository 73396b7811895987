import ReportSql.Proofs.Compile.FreshName
import ReportSql.Proofs.Except

/-!
# Compiled filters

A filter of a report becomes a condition and a list of slots, which are placeholders
with the values bound to them. The condition of all filters and the map of values are
described by these compiled filters: their slots never share a name, and the map holds
the slots and nothing else.

## Main definitions

* `CompiledFilter` - a filter with its operator and slots
* `CompiledFilter.Follows` - the slots hold the value of the filter's parameter
* `Compiler.Slotted` - what the compiler makes of one filter and its value
* `orRuns` - the maximal runs of filters linked by OR

## Main results

* `Compiler.compileFilters_spec` - what the filters of a report compile to
-/

namespace ReportSql

/-- A filter in a compiled query: its operator, whether OR links it to the filter before it, and
its placeholders with the values bound to them. -/
structure CompiledFilter where
  spec : FilterSpec
  operator : FilterOperator
  byOr : Bool
  slots : List (String × ParamValue)

/-- The values that a filter compares with: those of a list for IN, or the value itself. -/
def FilterOperator.operands : FilterOperator → ParamValue → List ParamValue
  | .isIn, .list items => items
  | _, value => [value]

namespace CompiledFilter

/-- The column that is compared. -/
def column (f : CompiledFilter) : Expr :=
  .qualified f.spec.table f.spec.column

/-- The condition. An IN filter without slots holds of no row. -/
def condition (f : CompiledFilter) : Expr :=
  match f.slots with
  | [] => .never
  | (slot, value) :: rest =>
    if f.operator = .isIn then
      .inList f.column (((slot, value) :: rest).map fun entry => .placeholder entry.1) false
    else f.operator.compare f.column (.placeholder slot)

/-- The names of the placeholders. -/
def names (f : CompiledFilter) : List String :=
  f.slots.map (·.1)

/-- The operator and the link are those of the filter, and the slots hold the value of its
parameter. -/
structure Follows (f : CompiledFilter) (params : Params) : Prop where
  operator : FilterOperator.parse f.spec.operator = .ok f.operator
  link : Logic.parse (f.spec.logic.getD "") = .ok (if f.byOr then .or else .and)
  values : ∃ value, params.get? f.spec.param = some value ∧
    f.slots.map (·.2) = f.operator.operands value

end CompiledFilter

/-- The slots of several filters in turn. -/
def slotsOf (filters : List CompiledFilter) : List (String × ParamValue) :=
  filters.flatMap (·.slots)

/-- The maximal runs of filters linked by OR. -/
def orRuns (filters : List CompiledFilter) : List (List CompiledFilter) :=
  filters.splitBy fun _ next => next.byOr

namespace Compiler

variable {params bound bound' : Params} {base : String}

theorem keyword_eq_ok {α : Type} {parsed : Except UnsupportedKeyword α} {a : α} :
    keyword parsed = .ok a ↔ parsed = .ok a := by
  cases parsed <;> simp [keyword]

/-! ## One filter -/

theorem names_slots (name : String) (items : List ParamValue) :
    (slots name items).map (·.1) = (List.range items.length).map (numbered name) := by
  have hindices := List.zipIdx_map_snd 0 items
  rw [← List.range_eq_range'] at hindices
  rw [slots, List.map_map, ← hindices, List.map_map]
  rfl

theorem values_slots (name : String) (items : List ParamValue) :
    (slots name items).map (·.2) = items := by
  rw [slots, List.map_map]
  exact List.zipIdx_map_fst 0 items

/-- Slots with names of their own that are not in use before. -/
structure FreshSlots (slots : List (String × ParamValue)) (bound : Params) : Prop where
  nodup : (slots.map (·.1)).Nodup
  unused : ∀ name ∈ slots.map (·.1), name ∉ bound.names

theorem FreshSlots.nil (bound : Params) : FreshSlots [] bound :=
  ⟨List.nodup_nil, fun _ h => absurd h List.not_mem_nil⟩

theorem freshSlots_listName (base : String) (items : List ParamValue) (bound : Params) :
    FreshSlots (slots (freshListName base items.length bound) items) bound := by
  constructor
  · rw [names_slots]
    exact List.nodup_range.map fun _ _ h => numbered_inj.1 h
  · intro name hname
    rw [names_slots] at hname
    obtain ⟨i, hi, rfl⟩ := List.mem_map.1 hname
    exact slot_notMem (List.mem_range.1 hi)

theorem derived_listName {items : List ParamValue} {bound : Params} {name : String}
    (h : name ∈ (slots (freshListName base items.length bound) items).map (·.1)) :
    Derived base name := by
  rw [names_slots] at h
  obtain ⟨i, -, rfl⟩ := List.mem_map.1 h
  exact .numbered (freshListName_spec base items.length bound).derived i

theorem FreshSlots.append {first second : List (String × ParamValue)}
    (hfirst : FreshSlots first bound) (hsecond : FreshSlots second (bound.insertAll first)) :
    FreshSlots (first ++ second) bound := by
  have hapart : ∀ name ∈ second.map (·.1), name ∉ first.map (·.1) ∧ name ∉ bound.names := by
    intro name hname
    have hunused := hsecond.unused name hname
    rwa [NameMap.mem_names_insertAll, not_or] at hunused
  constructor
  · rw [List.map_append]
    exact hfirst.nodup.append hsecond.nodup fun name h₁ h₂ => (hapart name h₂).1 h₁
  · intro name hname
    rw [List.map_append] at hname
    rcases List.mem_append.1 hname with hname | hname
    · exact hfirst.unused name hname
    · exact (hapart name hname).2

/-- A condition over fresh slots that hold the operands of a value, with names made from a base. -/
structure Slotted (filter : FilterSpec) (op : FilterOperator) (base : String) (value : ParamValue)
    (bound : Params) (slots : List (String × ParamValue)) (condition : Expr) (bound' : Params) :
    Prop where
  operands : slots.map (·.2) = op.operands value
  condition_eq : ∀ byOr, condition = (CompiledFilter.mk filter op byOr slots).condition
  fresh : FreshSlots slots bound
  named : ∀ name ∈ slots.map (·.1), Derived base name
  bound_eq : bound' = bound.insertAll slots

theorem compileInFilter_eq_ok {filter : FilterSpec} {value : ParamValue} {condition : Expr}
    (h : compileInFilter filter base value bound = .ok (condition, bound')) :
    ∃ slots, Slotted filter .isIn base value bound slots condition bound' := by
  obtain ⟨items, hitems, h⟩ := bind_eq_ok.1 h
  have hoperands : items = FilterOperator.isIn.operands value := by
    cases value <;> simp_all [listItems, FilterOperator.operands]
  split at h
  case isTrue hempty =>
    obtain rfl := List.isEmpty_iff.1 hempty
    obtain ⟨rfl, rfl⟩ := Prod.mk.inj (Except.ok.inj h)
    exact ⟨[], hoperands, fun _ => rfl, .nil bound, fun _ h => absurd h List.not_mem_nil, rfl⟩
  case isFalse hempty =>
    split at h
    · simp at h
    · obtain ⟨rfl, rfl⟩ := Prod.mk.inj (Except.ok.inj h)
      refine ⟨_, (values_slots _ items).trans hoperands, fun _ => ?_,
        freshSlots_listName _ items bound, fun _ => derived_listName, rfl⟩
      cases items with
      | nil => exact absurd rfl hempty
      | cons item rest => rfl

theorem compileComparison_eq_ok {filter : FilterSpec} {op : FilterOperator} {value : ParamValue}
    {condition : Expr} (hin : op ≠ .isIn)
    (h : compileComparison filter op base value bound = .ok (condition, bound')) :
    ∃ slots, Slotted filter op base value bound slots condition bound' := by
  obtain ⟨name, hname, hderived, rfl, rfl⟩ : ∃ name, name ∉ bound.names ∧ Derived base name ∧
      condition = op.compare (.qualified filter.table filter.column) (.placeholder name) ∧
      bound' = bound.insert name value := by
    unfold compileComparison at h
    split at h
    · simp at h
    · simp at h
    · obtain ⟨rfl, rfl⟩ := Prod.mk.inj (Except.ok.inj h)
      exact ⟨_, freshName_notMem _ bound, (freshName_spec _ bound).derived, rfl, rfl⟩
  refine ⟨[(name, value)], ?_, fun _ => (if_neg hin).symm, ⟨List.nodup_singleton _, ?_⟩, ?_, rfl⟩
  · cases op <;> first | rfl | exact absurd rfl hin
  · intro other hother
    rwa [List.mem_singleton.1 hother]
  · intro other hother
    rwa [List.mem_singleton.1 hother]

/-- The base of the names of a filter's slots: its column in lower case, and a suffix that the
operator asks for. -/
def slotBase (filter : FilterSpec) (op : FilterOperator) : String :=
  Text.lowerAscii filter.column ++ op.boundSuffix?.getD ""

/-- A filter compiles to its condition over slots that hold the value of its parameter. -/
theorem compileFilter_eq_ok {filter : FilterSpec} {condition : Expr}
    (h : compileFilter filter params bound = .ok (condition, bound')) :
    ∃ op slots value, FilterOperator.parse filter.operator = .ok op ∧
      params.get? filter.param = some value ∧
      Slotted filter op (slotBase filter op) value bound slots condition bound' := by
  unfold compileFilter at h
  obtain ⟨op, hop, h⟩ := bind_eq_ok.1 h
  have hop := keyword_eq_ok.1 hop
  cases hvalue : params.get? filter.param with
  | none => simp [hvalue] at h
  | some value =>
    simp only [hvalue] at h
    split at h
    case isTrue hin =>
      subst hin
      obtain ⟨slots, hslots⟩ := compileInFilter_eq_ok h
      exact ⟨.isIn, slots, value, hop, rfl, hslots⟩
    case isFalse hin =>
      obtain ⟨slots, hslots⟩ := compileComparison_eq_ok hin h
      exact ⟨op, slots, value, hop, rfl, hslots⟩

/-! ## Groups of filters -/

/-- Adds a filter to groups, of which the latest one and its latest condition come first. -/
def addToGroups (groups : List (List Expr)) (f : CompiledFilter) : List (List Expr) :=
  match f.byOr, groups with
  | true, group :: earlier => (f.condition :: group) :: earlier
  | _, _ => [f.condition] :: groups

theorem groupFilters_eq_ok {filters : List FilterSpec} {groups groups' : List (List Expr)}
    (h : groupFilters params groups bound filters = .ok (groups', bound')) :
    ∃ compiled : List CompiledFilter, compiled.map (·.spec) = filters ∧
      (∀ f ∈ compiled, f.Follows params) ∧
      (∀ f ∈ compiled, ∀ name ∈ f.names, Derived (slotBase f.spec f.operator) name) ∧
      FreshSlots (slotsOf compiled) bound ∧ bound' = bound.insertAll (slotsOf compiled) ∧
      groups' = compiled.foldl addToGroups groups := by
  induction filters generalizing groups bound with
  | nil =>
    obtain ⟨rfl, rfl⟩ := Prod.mk.inj (Except.ok.inj h)
    exact ⟨[], rfl, fun _ hf => absurd hf List.not_mem_nil, fun _ hf => absurd hf List.not_mem_nil,
      .nil bound, rfl, rfl⟩
  | cons filter rest ih =>
    unfold groupFilters at h
    obtain ⟨logic, hlogic, h⟩ := bind_eq_ok.1 h
    obtain ⟨⟨condition, bound₁⟩, hfilter, h⟩ := bind_eq_ok.1 h
    obtain ⟨op, slots, value, hop, hvalue, hoperands, hcondition, hfresh, hnamed, rfl⟩ :=
      compileFilter_eq_ok hfilter
    let f : CompiledFilter := ⟨filter, op, decide (logic = .or), slots⟩
    have hgroups : groupFilters params (addToGroups groups f) (bound.insertAll slots) rest =
        .ok (groups', bound') := by
      rw [hcondition f.byOr] at h
      cases logic <;> cases groups <;> exact h
    obtain ⟨compiled, hspecs, hfollows, hnames, hslots, rfl, rfl⟩ := ih hgroups
    have hlink : Logic.parse (filter.logic.getD "") = .ok (if f.byOr then .or else .and) := by
      rw [keyword_eq_ok.1 hlogic]
      cases logic <;> rfl
    exact ⟨f :: compiled, congrArg _ hspecs,
      List.forall_mem_cons.2 ⟨⟨hop, hlink, value, hvalue, hoperands⟩, hfollows⟩,
      List.forall_mem_cons.2 ⟨hnamed, hnames⟩, hfresh.append hslots, (List.foldl_append).symm, rfl⟩

/-- The groups are the runs of filters linked by OR. -/
theorem foldl_addToGroups (filters : List CompiledFilter) :
    ((filters.foldl addToGroups []).map List.reverse).reverse =
      (orRuns filters).map (·.map CompiledFilter.condition) := by
  -- the group being filled and the ones before it are kept in reverse, as the loop of `splitBy` does
  have hloop : ∀ (rest : List CompiledFilter) (last : CompiledFilter) (group : List CompiledFilter)
      (earlier : List (List CompiledFilter)),
      ((rest.foldl addToGroups ((last :: group).map CompiledFilter.condition ::
        earlier.map fun run => (run.map CompiledFilter.condition).reverse)).map
          List.reverse).reverse =
        (List.splitBy.loop (fun _ next => next.byOr) rest last group earlier).map
          (·.map CompiledFilter.condition) := by
    intro rest
    induction rest with
    | nil =>
      intro last group earlier
      simp [List.splitBy.loop, Function.comp_def]
    | cons next rest ih =>
      intro last group earlier
      rw [List.foldl_cons]
      cases hor : next.byOr with
      | true =>
        have hloop := ih next (last :: group) earlier
        simpa [addToGroups, List.splitBy.loop, hor] using hloop
      | false =>
        have hloop := ih next [] ((last :: group).reverse :: earlier)
        simpa [addToGroups, List.splitBy.loop, hor] using hloop
  cases filters with
  | nil => rfl
  | cons first rest =>
    have hfirst : addToGroups [] first = [[first.condition]] := by
      unfold addToGroups
      cases first.byOr <;> rfl
    rw [List.foldl_cons, hfirst]
    exact hloop rest first [] []

/-- The condition of compiled filters: every run of filters linked by OR holds. -/
def filterCondition? (filters : List CompiledFilter) : Option Expr :=
  conjunction? ((orRuns filters).filterMap fun run =>
    groupCondition? (run.map CompiledFilter.condition))

/-- What the filters of a report compile to. -/
theorem compileFilters_spec {filters : List FilterSpec} {condition : Option Expr}
    (h : compileFilters filters params = .ok (condition, bound)) :
    ∃ compiled : List CompiledFilter, compiled.map (·.spec) = filters ∧
      (∀ f ∈ compiled, f.Follows params) ∧
      (∀ f ∈ compiled, ∀ name ∈ f.names, Derived (slotBase f.spec f.operator) name) ∧
      ((slotsOf compiled).map (·.1)).Nodup ∧ bound = NameMap.ofList (slotsOf compiled) ∧
      condition = filterCondition? compiled := by
  unfold compileFilters at h
  obtain ⟨⟨groups, bound₁⟩, hgroups, h⟩ := bind_eq_ok.1 h
  obtain ⟨rfl, rfl⟩ := Prod.mk.inj (Except.ok.inj h)
  obtain ⟨compiled, hspecs, hfollows, hnames, hfresh, rfl, rfl⟩ := groupFilters_eq_ok hgroups
  refine ⟨compiled, hspecs, hfollows, hnames, hfresh.nodup, rfl, ?_⟩
  rw [foldl_addToGroups, List.filterMap_map]
  rfl

end Compiler

end ReportSql
