import ReportSql.Proofs.Binary64.Word
import ReportSql.Proofs.Cache.KeyForm
import ReportSql.Proofs.Execution.Bound
import ReportSql.Proofs.Scope.InPlace

/-!
# The values of units

The condition of a restriction has one placeholder for each of its units, which is bound to the
unit. A unit that a signed integer can hold is bound as that integer, and then the fingerprint of
the restriction is the list of the bound values. A greater unit is bound as a floating point
number, to which other units may be rounded as well.

## Main definitions

* `UnitSet.Signed` - units that signed integers can hold
* `ParamValue.Carries` - the value that stands for a unit
* `Injector.boundValues` - the values that the condition of a set of units binds

## Main results

* `Injector.boundValues_eq_iff` - the sets of units that bind the same values
* `Executor.prepare_boundValues` - the values of a prepared query and the fingerprint in its key
-/

namespace ReportSql

/-! ## The value of a unit -/

/-- The units are in the range of signed integers. -/
def UnitSet.Signed (units : UnitSet) : Prop :=
  ∀ unit ∈ units.units, unit.toNat < 2 ^ 63

namespace ParamValue

/-- The value of a unit: the integer where a signed one can hold it, and else the nearest floating
point number. These numbers are the multiples of 2048, a unit half way between two of them goes to the
even one, and only they are kept. -/
structure Carries (value : ParamValue) (unit : UInt64) : Prop where
  integer : unit.toNat < 2 ^ 63 → value = .int unit.toNat
  rounded : 2 ^ 63 ≤ unit.toNat → ∃ x : Binary64, value = .float x ∧ x.negative = false ∧
    x.absValue = (Binary64.roundHalfEven unit.toNat 2048 * 2048 : Nat) ∧
    |x.absValue - unit.toNat| ≤ 1024 ∧ (x.absValue = unit.toNat ↔ 2048 ∣ unit.toNat)

/-- Two units that have the same value: they are equal, or both are rounded to one number. -/
def SameValue (u v : UInt64) : Prop :=
  u = v ∨ (2 ^ 63 ≤ u.toNat ∧ 2 ^ 63 ≤ v.toNat) ∧
    Binary64.roundHalfEven u.toNat 2048 = Binary64.roundHalfEven v.toNat 2048

theorem ofWord_of_lt {unit : UInt64} (h : unit.toNat < 2 ^ 63) : ofWord unit = .int unit.toNat :=
  if_pos h

theorem ofWord_of_ge {unit : UInt64} (h : 2 ^ 63 ≤ unit.toNat) :
    ofWord unit = .float (Binary64.ofNat unit.toNat) :=
  if_neg (Nat.not_lt.2 h)

theorem carries_ofWord (unit : UInt64) : (ofWord unit).Carries unit := by
  refine ⟨ofWord_of_lt, fun hgreat => ⟨_, ofWord_of_ge hgreat, ?_⟩⟩
  have hvalue := Binary64.absValue_ofNat_word hgreat unit.toNat_lt
  refine ⟨(Binary64.ofNat_word hgreat unit.toNat_lt).1, hvalue, ?_, ?_⟩
  · rw [hvalue]
    exact Binary64.roundHalfEven_word_near unit.toNat
  · rw [hvalue, Nat.cast_inj]
    exact Binary64.roundHalfEven_mul_eq_iff (by decide)

theorem ofWord_eq_iff {u v : UInt64} : ofWord u = ofWord v ↔ SameValue u v := by
  constructor
  · intro h
    by_cases hu : u.toNat < 2 ^ 63
    · by_cases hv : v.toNat < 2 ^ 63
      · rw [ofWord_of_lt hu, ofWord_of_lt hv] at h
        exact .inl (UInt64.toNat_inj.1 (Nat.cast_inj.1 (ParamValue.int.inj h)))
      · rw [ofWord_of_lt hu, ofWord_of_ge (Nat.not_lt.1 hv)] at h
        exact ParamValue.noConfusion h
    · by_cases hv : v.toNat < 2 ^ 63
      · rw [ofWord_of_ge (Nat.not_lt.1 hu), ofWord_of_lt hv] at h
        exact ParamValue.noConfusion h
      · have hu := Nat.not_lt.1 hu
        have hv := Nat.not_lt.1 hv
        rw [ofWord_of_ge hu, ofWord_of_ge hv] at h
        exact .inr ⟨⟨hu, hv⟩, (Binary64.ofNat_word_inj ⟨hu, u.toNat_lt⟩ ⟨hv, v.toNat_lt⟩).1
          (ParamValue.float.inj h)⟩
  · rintro (rfl | ⟨⟨hu, hv⟩, hround⟩)
    · rfl
    · rw [ofWord_of_ge hu, ofWord_of_ge hv,
        (Binary64.ofNat_word_inj ⟨hu, u.toNat_lt⟩ ⟨hv, v.toNat_lt⟩).2 hround]

/-- A unit in the signed range has a value of its own. -/
theorem SameValue.eq {u v : UInt64} (h : SameValue u v) (hu : u.toNat < 2 ^ 63) : u = v := by
  rcases h with h | ⟨⟨hgreat, -⟩, -⟩
  · exact h
  · omega

end ParamValue

/-! ## The values of a set of units -/

namespace Injector

variable {i : Injector} {s t : UnitSet}

/-- The values that the condition of a set of units binds, in the order of its placeholders. -/
def boundValues (i : Injector) (units : UnitSet) : List ParamValue :=
  (i.predicate units).2.map (·.2)

theorem values_slotsFrom (position : Nat) (units : List UInt64) :
    (slotsFrom position units).map (·.2) = units.map ParamValue.ofWord := by
  induction units generalizing position with
  | nil => rfl
  | cons unit rest ih => rw [slotsFrom, List.map_cons, ih, List.map_cons]

theorem boundValues_eq (i : Injector) (units : UnitSet) :
    i.boundValues units = units.units.map ParamValue.ofWord := by
  rw [boundValues, values_predicate, values_slotsFrom]

/-- Every unit is bound to its value, one after the other. -/
theorem boundValues_carries (i : Injector) (units : UnitSet) :
    List.Forall₂ ParamValue.Carries (i.boundValues units) units.units := by
  rw [boundValues_eq, List.forall₂_map_left_iff]
  exact List.forall₂_same.2 fun unit _ => ParamValue.carries_ofWord unit

/-- Two sets bind the same values when their units have, one by one, the same values. -/
theorem boundValues_eq_iff :
    i.boundValues s = i.boundValues t ↔ List.Forall₂ ParamValue.SameValue s.units t.units := by
  rw [boundValues_eq, boundValues_eq, ← List.forall₂_eq_eq_eq, List.forall₂_map_left_iff,
    List.forall₂_map_right_iff]
  simp only [ParamValue.ofWord_eq_iff]

/-- Units in the signed range are told by their values. -/
theorem eq_of_boundValues (hs : s.Signed) (h : i.boundValues s = i.boundValues t) : s = t := by
  have hall : ∀ {us vs : List UInt64}, List.Forall₂ ParamValue.SameValue us vs →
      (∀ u ∈ us, u.toNat < 2 ^ 63) → us = vs := by
    intro us vs hsame
    induction hsame with
    | nil => exact fun _ => rfl
    | cons huv _ ih =>
      intro hus
      obtain ⟨hu, hus⟩ := List.forall_mem_cons.1 hus
      rw [huv.eq hu, ih hus]
  have hunits : s.units = t.units := hall (boundValues_eq_iff.1 h) hs
  cases s
  cases t
  cases hunits
  rfl

/-- The fingerprint of units in the signed range lists the values that are bound. -/
theorem fingerprint_boundValues (hs : s.Signed) : (Restriction.units s).fingerprint =
    "units:" ++ ",".intercalate ((i.boundValues s).map ParamValue.canonical) := by
  have htexts : (i.boundValues s).map ParamValue.canonical =
      s.units.map fun unit => toString unit.toNat := by
    rw [boundValues_eq, List.map_map]
    refine List.map_congr_left fun unit hunit => ?_
    show (ParamValue.ofWord unit).canonical = toString unit.toNat
    rw [ParamValue.ofWord_of_lt (hs unit hunit)]
    rfl
  rw [htexts]
  rfl

/-- The values under the reserved names are those that the condition binds, in order. -/
theorem get?_slotName {params : Params} (hfree : ∀ name ∈ params.names, isReserved name = false)
    (units : UnitSet) (n : Nat) :
    (params.insertAll (i.predicate units).2).get? (slotName n) = (i.boundValues units)[n]? := by
  by_cases hn : n < units.units.length
  · rw [NameMap.get?_insertAll_of_mem (nodup_predicate i units) (mem_values i hn), boundValues_eq,
      List.getElem?_map, List.getElem?_eq_getElem hn]
    rfl
  · have hslot : slotName n ∉ (i.predicate units).2.map (·.1) := by
      rw [names_values, slotName_mem]
      rintro ⟨m, hm, hname⟩
      exact hn (slotName_inj.1 hname ▸ hm)
    have hparams : slotName n ∉ params.names := by
      intro hmem
      have hreserved := hfree _ hmem
      rw [isReserved_slotName] at hreserved
      exact Bool.noConfusion hreserved
    rw [NameMap.get?_insertAll_of_notMem hslot, NameMap.get?_eq_none_iff.2 hparams, boundValues_eq,
      List.getElem?_map, List.getElem?_eq_none (Nat.le_of_not_lt hn)]
    rfl

end Injector

/-! ## The scope of a query and of its key -/

namespace Executor

variable {σ : Type}

/-- Every unit of a restriction is bound by a value of its own place: exactly in the signed range, and
else to the nearest number. Sets of units bind the same values only if their units have the same
values one by one, so that units in the signed range are told by what they bind, as they are by their
fingerprint. A prepared query has these values under the names of the condition, and the fingerprint in
its key lists them. -/
theorem prepare_boundValues :
    (∀ (i : Injector) units,
      (i.predicate units).1.placeholders = (i.predicate units).2.map (·.1) ∧
      List.Forall₂ ParamValue.Carries (i.boundValues units) units.units) ∧
    (∀ (i : Injector) s t,
      i.boundValues s = i.boundValues t ↔ List.Forall₂ ParamValue.SameValue s.units t.units) ∧
    (∀ (i : Injector) (s t : UnitSet), s.Signed →
      (i.boundValues s = i.boundValues t ↔
        (Restriction.units s).fingerprint = (Restriction.units t).fingerprint)) ∧
    ∀ (e : Executor σ) definition params units q,
      e.prepare definition params (.units units) = .ok q →
      (∀ n, q.params.get? (Injector.slotName n) = (e.injector.boundValues units)[n]?) ∧
      (units.Signed → ∀ page pageSize slot,
        e.cacheSlot definition params page pageSize (.units units) = some slot →
        slot.key = Cache.key definition.id params page pageSize
          ("units:" ++ ",".intercalate
            ((e.injector.boundValues units).map ParamValue.canonical))) := by
  refine ⟨fun i units => ⟨?_, i.boundValues_carries units⟩, fun i s t => Injector.boundValues_eq_iff,
    fun i s t hs => ⟨fun h => ?_, fun h => ?_⟩, fun e definition params units q h => ⟨fun n => ?_, ?_⟩⟩
  · rw [Injector.placeholders_predicate, Injector.names_values]
  · rw [Injector.eq_of_boundValues hs h]
  · rw [Restriction.units.inj (Restriction.fingerprint_injective h)]
  · obtain ⟨plain, -, hparams, hfree⟩ := prepare_units h
    rw [hparams]
    exact Injector.get?_slotName hfree units n
  · intro hsigned page pageSize slot hslot
    rw [key_cacheSlot hslot, Injector.fingerprint_boundValues hsigned]

/-- A cached report for the members of three units, the last of which is the greatest one in the signed
range. -/
theorem prepare_boundValues_signed : ∃ s q slot,
    s = UnitSet.ofList [9223372036854775807, 9, 5] ∧ s.Signed ∧
      singleDesk.prepare usersOfCity (NameMap.ofList [("city", .text "Delft")]) (.units s) = .ok q ∧
      singleDesk.cacheSlot usersOfCity (NameMap.ofList [("city", .text "Delft")]) 0 50 (.units s) =
        some slot ∧
      q.params.get? "scope_unit_2" = some (.int 9223372036854775807) ∧
      slot.key = Cache.key (.custom 3) (NameMap.ofList [("city", .text "Delft")]) 0 50
        "units:5,9,9223372036854775807" ∧
      singleDesk.injector.boundValues s ≠ singleDesk.injector.boundValues (UnitSet.ofList [9, 5]) := by
  have hsigned : (UnitSet.ofList [9223372036854775807, 9, 5]).Signed := by
    have hall : (UnitSet.ofList [9223372036854775807, 9, 5]).units.all (·.toNat < 2 ^ 63) = true := by
      decide +kernel
    exact fun unit hunit => of_decide_eq_true (List.all_eq_true.1 hall unit hunit)
  obtain ⟨q, hq⟩ : ∃ q, singleDesk.prepare usersOfCity (NameMap.ofList [("city", .text "Delft")])
      (.units (UnitSet.ofList [9223372036854775807, 9, 5])) = .ok q := by
    decide +kernel
  obtain ⟨-, -, htold, hprepare⟩ := @prepare_boundValues Cache.MemoryStore
  obtain ⟨hvalues, hkey⟩ := hprepare singleDesk _ _ _ q hq
  refine ⟨_, q, _, rfl, hsigned, hq, rfl, hvalues 2, hkey hsigned 0 50 _ rfl, fun h => ?_⟩
  exact absurd ((htold _ _ _ hsigned).1 h) (by decide +kernel)

end Executor

/-- Beyond the signed range two units may have one value: the query for either is restricted to the
number that both are rounded to, while their fingerprints are different. -/
theorem Injector.boundValues_greatUnits :
    Compiler.plainInjector.boundValues (UnitSet.ofList [9223372036854775808]) =
      Compiler.plainInjector.boundValues (UnitSet.ofList [9223372036854775809]) ∧
    (∀ n, Compiler.plainInjector.boundValues (UnitSet.ofList [9223372036854775809]) ≠ [.int n]) ∧
    (Restriction.units (UnitSet.ofList [9223372036854775808])).fingerprint ≠
      (Restriction.units (UnitSet.ofList [9223372036854775809])).fingerprint := by
  refine ⟨rfl, fun n h => ?_, by decide +kernel⟩
  -- the constructors already differ, whatever the number is
  have hfloat : Compiler.plainInjector.boundValues (UnitSet.ofList [9223372036854775809]) =
      [.float (Binary64.ofNat 9223372036854775809)] := rfl
  rw [hfloat] at h
  exact ParamValue.noConfusion (List.cons.inj h).1

end ReportSql
