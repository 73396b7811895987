import ReportSql.Proofs.Scope.Injection

/-!
# Scoping in place

A query or an author statement is scoped in place: the checks come first, then the
condition is added, then the values are bound. A restriction that cannot be applied
therefore leaves everything as it was. The values of a scope have names of their own,
which become visible to the checks, so nothing that a scope restricts to units can be
restricted again.

## Main definitions

* `Injector.scopeQuery`, `Injector.scopeStatement` - the checks and changes in their order
* `Injector.BindsUnits` - the values that a set of units adds
* `Injector.Contract` - what scoping in place does, whatever is scoped

## Main results

* `Injector.run_scopeQuery`, `Injector.run_scopeStatement` - the programs and what they compute
* `Injector.scope_contract` - both programs keep the contract
-/

namespace ReportSql

/-! ## Placeholders -/

theorem Expr.placeholdersOf_map (names : List String) :
    Expr.placeholdersOf (names.map .placeholder) = names := by
  induction names with
  | nil => rfl
  | cons name names ih =>
    rw [List.map_cons, Expr.placeholdersOf, ih]
    rfl

/-- The placeholders of a query, clause by clause. -/
theorem Query.placeholders_eq (q : Query) : q.placeholders =
    SelectItem.placeholdersOf q.select ++ q.source.toList.flatMap Source.placeholders ++
      Join.placeholdersOf q.joins ++ q.condition.toList.flatMap Expr.placeholders ++
        Expr.placeholdersOf q.groupBy := by
  obtain ⟨select, source, joins, condition, groupBy, orderBy, window⟩ := q
  cases source <;> cases condition <;> simp [Query.placeholders]

/-- The placeholders of a further condition are collected after those of the present one. -/
theorem Query.mem_placeholders_andWhere (q : Query) (condition : Expr) (name : String) :
    name ∈ (q.andWhere condition).placeholders ↔
      name ∈ q.placeholders ∨ name ∈ condition.placeholders := by
  have hcombined : (q.andWhere condition).condition.toList.flatMap Expr.placeholders =
      q.condition.toList.flatMap Expr.placeholders ++ condition.placeholders := by
    unfold Query.andWhere
    dsimp only
    split <;> simp_all [Expr.and, Expr.placeholders]
  have hrest : (q.andWhere condition).select = q.select ∧
      (q.andWhere condition).source = q.source ∧ (q.andWhere condition).joins = q.joins ∧
      (q.andWhere condition).groupBy = q.groupBy :=
    ⟨rfl, rfl, rfl, rfl⟩
  obtain ⟨hselect, hsource, hjoins, hgroupBy⟩ := hrest
  rw [placeholders_eq, placeholders_eq, hcombined, hselect, hsource, hjoins, hgroupBy]
  simp only [List.mem_append]
  tauto

namespace Injector

variable {i : Injector} {units : UnitSet} {placeholders : List String} {params : Params}

/-! ## Programs -/

/-- Scopes a query in place. -/
def scopeQuery (i : Injector) : Restriction → EStateM ScopeError CompiledQuery Unit
  | .unrestricted => pure ()
  | .units units => do
    MonadExcept.ofExcept
      (i.checkUserAlias ((← get).query.topLevelTables.map (·.exposedName)))
    MonadExcept.ofExcept (checkReserved (← get).query.placeholders (← get).params)
    let (condition, values) := i.predicate units
    modify fun c => { c with query := c.query.andWhere condition }
    modify fun c => { c with params := c.params.insertAll values }

/-- Scopes an author statement in place, with its values. -/
def scopeStatement (i : Injector) : Restriction → EStateM ScopeError (Statement × Params) Unit
  | .unrestricted => pure ()
  | .units units => do
    if (← get).1.setOperation then throw .setOperation
    MonadExcept.ofExcept (i.checkUserAlias ((← get).1.topLevelTables.map (·.exposedName)))
    MonadExcept.ofExcept (checkReserved (← get).1.placeholders (← get).2)
    let (condition, values) := i.predicate units
    modify fun (s, params) => (s.addPredicate condition, params)
    modify fun (s, params) => (s, params.insertAll values)

/-- The result of a program that changes its state only when it succeeds. -/
def resultOf {σ : Type} (before : σ) : Except ScopeError σ → EStateM.Result ScopeError σ Unit
  | .ok after => .ok () after
  | .error e => .error e before

/-- Scoping a query in place fails without a change, or leaves the query with the restriction. -/
theorem run_scopeQuery (i : Injector) (restriction : Restriction) (compiled : CompiledQuery) :
    (i.scopeQuery restriction).run compiled =
      resultOf compiled (i.injectQuery restriction compiled) := by
  cases restriction with
  | unrestricted => rfl
  | units units =>
    unfold scopeQuery injectQuery
    simp only [EStateM.run_bind, EStateM.run_get]
    cases halias : i.checkUserAlias (compiled.query.topLevelTables.map (·.exposedName)) with
    | error e => rfl
    | ok _ =>
      simp only [MonadExcept.ofExcept, EStateM.run_pure]
      cases hreserved : checkReserved compiled.query.placeholders compiled.params with
      | error e => rfl
      | ok _ => rfl

/-- So does scoping an author statement. -/
theorem run_scopeStatement (i : Injector) (restriction : Restriction) (s : Statement)
    (params : Params) : (i.scopeStatement restriction).run (s, params) =
      resultOf (s, params) (i.injectStatement restriction s params) := by
  cases restriction with
  | unrestricted => rfl
  | units units =>
    unfold scopeStatement injectStatement
    simp only [EStateM.run_bind, EStateM.run_get]
    cases s.setOperation with
    | true => rfl
    | false =>
      simp only [Bool.false_eq_true, if_false, EStateM.run_bind, EStateM.run_get]
      cases halias : i.checkUserAlias (s.topLevelTables.map (·.exposedName)) with
      | error e => rfl
      | ok _ =>
        simp only [MonadExcept.ofExcept, EStateM.run_pure]
        cases hreserved : checkReserved s.placeholders params with
        | error e => rfl
        | ok _ => rfl

theorem resultOf_eq_error {σ : Type} {before after : σ} {result : Except ScopeError σ}
    {e : ScopeError} (h : resultOf before result = .error e after) :
    result = .error e ∧ after = before := by
  cases result with
  | ok _ => exact absurd h (by simp [resultOf])
  | error _ =>
    obtain ⟨rfl, rfl⟩ := EStateM.Result.error.inj h
    exact ⟨rfl, rfl⟩

theorem resultOf_eq_ok {σ : Type} {before after : σ} {result : Except ScopeError σ}
    (h : resultOf before result = .ok () after) : result = .ok after := by
  cases result with
  | ok _ =>
    obtain ⟨-, rfl⟩ := EStateM.Result.ok.inj h
    rfl
  | error _ => exact absurd h (by simp [resultOf])

/-! ## Reserved names -/

/-- The first reserved name in order is that of the first unit. -/
theorem not_slotName_lt_zero (n : Nat) : ¬ slotName n < slotName 0 := by
  -- behind the common start stands a digit, and no digit comes before zero
  obtain ⟨c, cs, hcs⟩ := List.exists_cons_of_ne_nil (Nat.toDigits_ne_nil (b := 10) (n := n))
  have hc : c.isDigit = true := by
    refine Nat.isDigit_of_mem_toDigits (by omega) (by omega) (?_ : c ∈ Nat.toDigits 10 n)
    rw [hcs]
    exact List.mem_cons_self
  have hchars : ∀ n, (slotName n).toList = "scope_unit_".toList ++ Nat.toDigits 10 n := by
    intro n
    rw [slotName, String.toList_append]
    exact congrArg (_ ++ ·) Nat.toList_repr
  have hzero : ¬ c < '0' := by
    have hle : '0'.val ≤ c.val := by
      rw [Char.isDigit, Bool.and_eq_true] at hc
      exact of_decide_eq_true hc.1
    exact UInt32.not_lt.2 hle
  rw [String.lt_iff_toList_lt, hchars, hchars, hcs, Nat.toDigits_zero]
  simp [List.cons_lt_cons_iff, hzero]

/-- The search for a reserved name ends at the name of the first unit. -/
theorem find?_isReserved {names : List String} (hsorted : names.Pairwise (· < ·))
    (hzero : slotName 0 ∈ names)
    (hslots : ∀ name ∈ names, isReserved name = true → ∃ n, name = slotName n) :
    names.find? isReserved = some (slotName 0) := by
  -- what stands before it in the order cannot be reserved
  obtain ⟨before, after, rfl⟩ := List.append_of_mem hzero
  refine List.find?_eq_some_iff_append.2 ⟨isReserved_slotName 0, before, after, rfl, ?_⟩
  intro name hname
  have hlt : name < slotName 0 :=
    (List.pairwise_append.1 hsorted).2.2 name hname _ List.mem_cons_self
  rw [Bool.not_eq_true']
  by_contra hnot
  obtain ⟨n, rfl⟩ := hslots name (List.mem_append_left _ hname) (Bool.eq_true_of_not_eq_false hnot)
  exact not_slotName_lt_zero n hlt

/-- Where the first unit has its name, among others of a scope only, this is the collision. -/
theorem checkReserved_collision
    (hslots : ∀ name, name ∈ placeholders ∨ name ∈ params.names → isReserved name = true →
      ∃ n, name = slotName n)
    (hzero : slotName 0 ∈ placeholders ∨
      slotName 0 ∈ params.names ∧ ∀ name ∈ placeholders, isReserved name = false) :
    checkReserved placeholders params = .error (.placeholderCollision (slotName 0)) := by
  unfold checkReserved
  rw [List.find?_append]
  rcases hzero with hzero | ⟨hzero, hplaceholders⟩
  · rw [find?_isReserved (NameMap.names_sorted _) (NameSet.mem_ofNames.2 hzero)
      fun name hname => hslots name (.inl (NameSet.mem_ofNames.1 hname))]
    rfl
  · have hnone : (NameSet.ofNames placeholders).names.find? isReserved = none := by
      refine List.find?_eq_none.2 fun name hname => ?_
      rw [hplaceholders name (NameSet.mem_ofNames.1 hname)]
      exact Bool.false_ne_true
    rw [hnone, Option.none_or, find?_isReserved params.names_sorted hzero
      fun name hname => hslots name (.inr hname)]

/-! ## The condition of a scope -/

/-- The names of the values of a set of units. -/
theorem names_values (i : Injector) (units : UnitSet) :
    (i.predicate units).2.map (·.1) = (List.range units.units.length).map slotName := by
  rw [values_predicate, names_slotsFrom, List.range_eq_range']

/-- The condition of a set of units mentions these names, inside its nested query. -/
theorem placeholders_predicate (i : Injector) (units : UnitSet) :
    (i.predicate units).1.placeholders = (List.range units.units.length).map slotName := by
  rw [← names_values i]
  unfold predicate
  split
  · rfl
  · simp only [Expr.placeholders, Query.placeholders, membersQuery, Query.empty,
      Expr.placeholdersOf_map, Expr.qualified, SelectItem.placeholdersOf, Source.placeholders,
      Join.placeholdersOf, Expr.placeholdersOf, List.nil_append, List.append_nil]

theorem slotName_mem {name : String} :
    name ∈ (List.range units.units.length).map slotName ↔
      ∃ n < units.units.length, name = slotName n := by
  simp [eq_comm]

/-! ## Values -/

theorem mem_slotsFrom {position : Nat} {us : List UInt64} {n : Nat} (h : n < us.length) :
    (slotName (position + n), ParamValue.ofWord us[n]) ∈ slotsFrom position us := by
  induction us generalizing position n with
  | nil => exact absurd h (Nat.not_lt_zero n)
  | cons unit rest ih =>
    rw [slotsFrom]
    cases n with
    | zero => exact List.mem_cons_self
    | succ n =>
      refine List.mem_cons_of_mem _ ?_
      rw [show position + (n + 1) = position + 1 + n by omega]
      exact ih (Nat.lt_of_succ_lt_succ h)

theorem mem_values (i : Injector) {n : Nat} (h : n < units.units.length) :
    (slotName n, ParamValue.ofWord units.units[n]) ∈ (i.predicate units).2 := by
  have hslot : (slotName (0 + n), ParamValue.ofWord units.units[n]) ∈ slotsFrom 0 units.units :=
    mem_slotsFrom h
  rwa [Nat.zero_add, ← values_predicate i units] at hslot

/-- A set of units adds exactly its own names, which were free. They are bound to the units in
increasing order: to integers where these are wide enough, and to the nearest floats from `2 ^ 63`
on. -/
structure BindsUnits (units : UnitSet) (before after : Params) : Prop where
  kept : ∀ name value, before.get? name = some value → after.get? name = some value
  free : ∀ n, slotName n ∉ before.names
  names : ∀ name, name ∈ after.names ↔
    name ∈ before.names ∨ ∃ n < units.units.length, name = slotName n
  small : ∀ n (h : n < units.units.length), units.units[n].toNat < 2 ^ 63 →
    after.get? (slotName n) = some (.int units.units[n].toNat)
  great : ∀ n (h : n < units.units.length), 2 ^ 63 ≤ units.units[n].toNat →
    after.get? (slotName n) = some (.float (Binary64.ofNat units.units[n].toNat))

theorem bindsUnits_insertAll (i : Injector) (units : UnitSet)
    (h : checkReserved placeholders params = .ok ()) :
    BindsUnits units params (params.insertAll (i.predicate units).2) := by
  have hfree : ∀ name ∈ params.names, isReserved name = false :=
    fun name hname => checkReserved_eq_ok.1 h name (.inr hname)
  have hnotMem : ∀ name ∈ params.names, name ∉ (i.predicate units).2.map (·.1) := by
    intro name hname hslot
    have hreserved := isReserved_predicate hslot
    rw [hfree name hname] at hreserved
    exact Bool.noConfusion hreserved
  have hvalue : ∀ n (h : n < units.units.length), (params.insertAll (i.predicate units).2).get?
      (slotName n) = some (ParamValue.ofWord units.units[n]) :=
    fun n h => NameMap.get?_insertAll_of_mem (nodup_predicate i units) (mem_values i h)
  have hpow : Nat.pow 2 63 = 2 ^ 63 := rfl
  refine ⟨fun name value hget => ?_, fun n hname => ?_, fun name => ?_, fun n h hsmall => ?_,
    fun n h hgreat => ?_⟩
  · rw [NameMap.get?_insertAll_of_notMem
      (hnotMem name (NameMap.mem_names_iff.2 ⟨value, hget⟩)), hget]
  · have hreserved := isReserved_slotName n
    rw [hfree _ hname] at hreserved
    exact Bool.noConfusion hreserved
  · rw [NameMap.mem_names_insertAll, names_values, slotName_mem, or_comm]
  · rw [hvalue n h, ParamValue.ofWord, hpow, if_pos hsmall]
  · rw [hvalue n h, ParamValue.ofWord, hpow, if_neg (Nat.not_lt.2 hgreat)]

/-! ## The contract -/

/-- What scoping in place does to something with values. It succeeds or changes nothing, as it does
without a restriction. Units add their condition and their values, and no units can follow. -/
structure Contract {σ : Type} (i : Injector) (program : Restriction → EStateM ScopeError σ Unit)
    (params : σ → Params) (extended : Expr → Params → σ → σ) (before : σ) : Prop where
  failed : ∀ restriction e after, (program restriction).run before = .error e after → after = before
  unrestricted : (program .unrestricted).run before = .ok () before
  restricted : ∀ units after, (program (.units units)).run before = .ok () after →
    BindsUnits units (params before) (params after) ∧
      after = extended (i.predicate units).1 (params after) before
  again : ∀ units after, (program (.units units)).run before = .ok () after → units.units ≠ [] →
    ∀ second, (program (.units second)).run after =
      .error (.placeholderCollision (slotName 0)) after

/-- The reserved names that are in use after a scope are its own, and a further scope meets the
first of them: among the placeholders where these were extended, else among the values. -/
theorem checkReserved_scoped {mentioned : List String} {bound : Params}
    (hreserved : checkReserved placeholders params = .ok ())
    (hbinds : BindsUnits units params bound) (hne : units.units ≠ [])
    (hmentioned : (∀ name, name ∈ mentioned ↔
        name ∈ placeholders ∨ ∃ n < units.units.length, name = slotName n) ∨
      mentioned = placeholders) :
    checkReserved mentioned bound = .error (.placeholderCollision (slotName 0)) := by
  have hfree := checkReserved_eq_ok.1 hreserved
  have hfirst : ∃ n < units.units.length, slotName 0 = slotName n :=
    ⟨0, List.length_pos_of_ne_nil hne, rfl⟩
  have hslots : ∀ name, name ∈ mentioned ∨ name ∈ bound.names → isReserved name = true →
      ∃ n, name = slotName n := by
    intro name hname hnameReserved
    have hcases : (name ∈ placeholders ∨ name ∈ params.names) ∨
        ∃ n < units.units.length, name = slotName n := by
      rw [hbinds.names] at hname
      rcases hmentioned with hmentioned | rfl
      · rw [hmentioned] at hname
        tauto
      · tauto
    rcases hcases with hname | ⟨n, -, rfl⟩
    · rw [hfree name hname] at hnameReserved
      exact Bool.noConfusion hnameReserved
    · exact ⟨n, rfl⟩
  -- a query mentions the first name, an author statement only binds it
  refine checkReserved_collision hslots ?_
  rcases hmentioned with hmentioned | rfl
  · exact .inl ((hmentioned _).2 (.inr hfirst))
  · exact .inr ⟨(hbinds.names _).2 (.inr hfirst), fun name hname => hfree name (.inl hname)⟩

/-- A scoped query cannot be scoped again: its placeholders include those of the condition. -/
theorem injectQuery_again {compiled restricted : CompiledQuery}
    (h : i.injectQuery (.units units) compiled = .ok restricted) (hne : units.units ≠ [])
    (second : UnitSet) :
    i.injectQuery (.units second) restricted = .error (.placeholderCollision (slotName 0)) := by
  obtain ⟨halias, hreserved, rfl⟩ := injectQuery_units.1 h
  have hplaceholders : ∀ name, name ∈ (compiled.query.andWhere (i.predicate units).1).placeholders ↔
      name ∈ compiled.query.placeholders ∨ ∃ n < units.units.length, name = slotName n := by
    intro name
    rw [Query.mem_placeholders_andWhere, placeholders_predicate, slotName_mem]
  have hcollision := checkReserved_scoped hreserved (bindsUnits_insertAll i units hreserved) hne
    (.inl hplaceholders)
  have htables : (compiled.query.andWhere (i.predicate units).1).topLevelTables =
      compiled.query.topLevelTables := rfl
  unfold injectQuery
  simp only [htables, halias, hcollision]
  rfl

/-- Nor can a scoped author statement: the values of the scope are bound. -/
theorem injectStatement_again {s restrictedStatement : Statement} {bound : Params}
    (h : i.injectStatement (.units units) s params = .ok (restrictedStatement, bound))
    (hne : units.units ≠ []) (second : UnitSet) :
    i.injectStatement (.units second) restrictedStatement bound =
      .error (.placeholderCollision (slotName 0)) := by
  obtain ⟨hsingle, halias, hreserved, heq⟩ := injectStatement_units.1 h
  obtain ⟨rfl, rfl⟩ := Prod.mk.inj heq
  have hcollision := checkReserved_scoped hreserved (bindsUnits_insertAll i units hreserved) hne
    (.inr rfl)
  have htables : (s.addPredicate (i.predicate units).1).topLevelTables = s.topLevelTables := rfl
  have hset : (s.addPredicate (i.predicate units).1).setOperation = s.setOperation := rfl
  have hplaceholders : (s.addPredicate (i.predicate units).1).placeholders = s.placeholders := rfl
  unfold injectStatement
  simp only [htables, hset, hplaceholders, hsingle, halias, hcollision, Bool.false_eq_true,
    if_false]
  rfl

/-- A program that runs a function in place keeps the contract as soon as the function does. -/
theorem Contract.of_run {σ : Type} {program : Restriction → EStateM ScopeError σ Unit}
    (inject : Restriction → σ → Except ScopeError σ) {paramsOf : σ → Params}
    {extended : Expr → Params → σ → σ} {before : σ}
    (hrun : ∀ restriction state,
      (program restriction).run state = resultOf state (inject restriction state))
    (hunrestricted : inject .unrestricted before = .ok before)
    (hscoped : ∀ units after, inject (.units units) before = .ok after →
      BindsUnits units (paramsOf before) (paramsOf after) ∧
        after = extended (i.predicate units).1 (paramsOf after) before)
    (hagain : ∀ units after, inject (.units units) before = .ok after → units.units ≠ [] →
      ∀ second, inject (.units second) after = .error (.placeholderCollision (slotName 0))) :
    Contract i program paramsOf extended before where
  failed restriction e after h := (resultOf_eq_error ((hrun _ _).symm.trans h)).2
  unrestricted := by rw [hrun, hunrestricted, resultOf]
  restricted units after h := hscoped units after (resultOf_eq_ok ((hrun _ _).symm.trans h))
  again units after h hne second := by
    rw [hrun, hagain units after (resultOf_eq_ok ((hrun _ _).symm.trans h)) hne second, resultOf]

/-- Scoping in place keeps its contract, for queries and for author statements. Both programs
compute what scoping does to a copy. The condition mentions the names of the units, each of them
once and no other, as an expression and in its text. -/
theorem scope_contract (i : Injector) :
    (∀ restriction compiled, (i.scopeQuery restriction).run compiled =
      resultOf compiled (i.injectQuery restriction compiled)) ∧
    (∀ restriction s params, (i.scopeStatement restriction).run (s, params) =
      resultOf (s, params) (i.injectStatement restriction s params)) ∧
    (∀ compiled, Contract i i.scopeQuery (·.params)
      (fun condition bound c => { c with query := c.query.andWhere condition, params := bound })
      compiled) ∧
    (∀ s params, Contract i i.scopeStatement (·.2)
      (fun condition bound s => (s.1.addPredicate condition, bound)) (s, params)) ∧
    ∀ units, (i.predicate units).1.placeholders = (List.range units.units.length).map slotName ∧
      Fragment.names (i.predicate units).1.fragments =
        (List.range units.units.length).map slotName := by
  refine ⟨i.run_scopeQuery, i.run_scopeStatement, fun compiled => ?_, fun s params => ?_,
    fun units => ⟨placeholders_predicate i units, (names_predicate i units).trans
      (names_values i units)⟩⟩
  · refine .of_run i.injectQuery i.run_scopeQuery rfl (fun units after h => ?_)
      fun units after h hne second => injectQuery_again h hne second
    obtain ⟨-, hreserved, rfl⟩ := injectQuery_units.1 h
    exact ⟨bindsUnits_insertAll i units hreserved, rfl⟩
  · refine .of_run (fun restriction s => i.injectStatement restriction s.1 s.2)
      (fun restriction s => i.run_scopeStatement restriction s.1 s.2) rfl (fun units after h => ?_)
      fun units after h hne second => injectStatement_again h hne second
    obtain ⟨-, -, hreserved, rfl⟩ := injectStatement_units.1 h
    exact ⟨bindsUnits_insertAll i units hreserved, rfl⟩

/-- From `2 ^ 63` on the values no longer tell the units apart: a report for the users of one unit
is run with the same value as a report for those of the other. -/
theorem scopeStatement_greatUnits : ∃ s first second,
    Statement.parse "SELECT u.id FROM {user} u" .sqlite = .ok s ∧
      (Compiler.plainInjector.scopeStatement
        (.units (UnitSet.ofList [9223372036854775808]))).run (s, NameMap.empty) = .ok () first ∧
      (Compiler.plainInjector.scopeStatement
        (.units (UnitSet.ofList [9223372036854775809]))).run (s, NameMap.empty) = .ok () second ∧
      first.2.get? "scope_unit_0" = some (.float (Binary64.ofNat 9223372036854775808)) ∧
      second.2.get? "scope_unit_0" = some (.float (Binary64.ofNat 9223372036854775808)) := by
  obtain ⟨s, hparse, hsingle, halias, hplaceholders⟩ : ∃ s,
      Statement.parse "SELECT u.id FROM {user} u" .sqlite = .ok s ∧ s.setOperation = false ∧
        "u" ∈ s.topLevelTables.map (·.exposedName) ∧ s.placeholders = [] := by
    decide +kernel
  have hreserved : checkReserved s.placeholders NameMap.empty = .ok () := by
    rw [hplaceholders]
    rfl
  have hruns : ∀ units, (Compiler.plainInjector.scopeStatement (.units units)).run
      (s, NameMap.empty) = .ok () (s.addPredicate (Compiler.plainInjector.predicate units).1,
        NameMap.empty.insertAll (Compiler.plainInjector.predicate units).2) := by
    intro units
    rw [run_scopeStatement, injectStatement_units.2
      ⟨hsingle, checkUserAlias_eq_ok.2 ⟨"u", halias, by decide +kernel⟩, hreserved, rfl⟩, resultOf]
  exact ⟨s, _, _, hparse, hruns _, hruns _, rfl, rfl⟩

end Injector

end ReportSql
