import ReportSql.Proofs.Binary64.Text
import ReportSql.Proofs.Text.Delimited
import ReportSql.Report.Param
import ReportSql.Scope.Basic

/-!
# The texts of values and restrictions inside cache keys

The key form of a value begins with a letter for its kind, and its body ends where a comma
or a closing bracket stands without a backslash before it. The form of a list can therefore
be cut into the forms of its items, at any depth. The fingerprint of a restriction is a list
of decimal numbers.

## Main results

* `ParamValue.keyForm_injective` - different values have different key forms
* `Restriction.fingerprint_injective` - different restrictions have different fingerprints
-/

namespace ReportSql

open Token

/-! ## Numbers -/

theorem toString_int_injective : Function.Injective fun n : Int => (toString n).toList := by
  intro m n h
  exact Int.repr_injective (String.toList_injective h)

theorem toString_nat_injective : Function.Injective fun n : Nat => (toString n).toList := by
  intro m n h
  exact Nat.repr_injective (String.toList_injective h)

namespace ParamValue

/-! ## The form of a value -/

/-- The characters that may follow inside the form of a value, that is, not after its end. -/
def isInside (c : Char) : Bool :=
  !(c == ',' || c == ']')

/-- The letter for the kind of a value. -/
def kindLetter : ParamValue → Char
  | null => 'n'
  | bool _ => 'b'
  | int _ => 'i'
  | float _ => 'f'
  | text _ => 's'
  | list _ => 'l'

/-- The characters of the key form. -/
def keyChars (value : ParamValue) : List Char :=
  value.keyForm.toList

/-- The characters after the letter for the kind. -/
def keyBody : ParamValue → List Char
  | null => []
  | bool value => [if value then '1' else '0']
  | int value => (toString value).toList
  | float value => value.text.toList
  | text value => value.toList.flatMap fun c => if isKeyMark c then ['\\', c] else [c]
  | list items => '[' :: commaSeparated keyChars items ++ [']']

theorem keyForms_eq_map (items : List ParamValue) : keyForms items = items.map keyForm := by
  induction items with
  | nil => rfl
  | cons item rest ih => rw [keyForms, ih, List.map_cons]

theorem keyChars_eq (value : ParamValue) :
    value.keyChars = value.kindLetter :: ':' :: value.keyBody := by
  unfold keyChars
  cases value with
  | null => rfl
  | bool value => cases value <;> rfl
  | int value => simp [keyForm, kindLetter, keyBody]
  | float value => simp [keyForm, kindLetter, keyBody]
  | text value => simp [keyForm, kindLetter, keyBody, escapeKey]
  | list items =>
    have hitems : (",".intercalate (keyForms items)).toList = commaSeparated keyChars items := by
      rw [String.toList_intercalate, keyForms_eq_map, List.map_map]
      rfl
    simp [keyForm, kindLetter, keyBody, hitems]

/-! ## Bodies -/

/-- Values of one kind are told apart by their bodies. -/
theorem delimited_of_body {value : ParamValue}
    (h : ∀ other r s, other.kindLetter = value.kindLetter → Stops isInside r → Stops isInside s →
      value.keyBody ++ r = other.keyBody ++ s → value = other ∧ r = s) :
    Delimited isInside keyChars value := by
  intro other r s hr hs heq
  rw [keyChars_eq, keyChars_eq] at heq
  obtain ⟨hkind, heq⟩ := List.cons.inj heq
  exact h other r s hkind.symm hr hs (List.cons.inj heq).2

theorem isInside_of_isNumeralChar {c : Char} (h : Binary64.isNumeralChar c = true) :
    isInside c = true := by
  by_contra hmark
  simp only [isInside, Bool.not_eq_true', Bool.not_eq_false, Bool.or_eq_true, beq_iff_eq] at hmark
  rcases hmark with rfl | rfl <;> exact absurd h (by decide)

theorem isInside_int {n : Int} {c : Char} (h : c ∈ (toString n).toList) : isInside c = true := by
  refine isInside_of_isNumeralChar ?_
  rcases Binary64.toString_int_chars h with hc | rfl
  · simp [Binary64.isNumeralChar, hc]
  · rfl

theorem isInside_float {x : Binary64} {c : Char} (h : c ∈ x.text.toList) : isInside c = true :=
  isInside_of_isNumeralChar ((Binary64.textWith_spec (.inl rfl) x).1 c h)

/-- An escaped character tells itself, whatever follows it. -/
theorem delimited_escaped (c : Char) :
    Delimited (fun _ => false) (fun c => if isKeyMark c then ['\\', c] else [c]) c := by
  intro d r s _ _ h
  have hbackslash : isKeyMark '\\' = true := rfl
  dsimp only at h
  split at h <;> split at h
  · simpa using h
  · rename_i hc hd
    rw [← (List.cons.inj h).1] at hd
    exact absurd hbackslash hd
  · rename_i hc hd
    rw [(List.cons.inj h).1] at hc
    exact absurd hbackslash hc
  · simpa using h

theorem delimited_text (content : String) : Delimited isInside keyChars (text content) := by
  refine delimited_of_body fun other r s hkind hr hs h => ?_
  cases other with
  | text content' =>
    have hfirst : ∀ c : Char, ∃ x rest,
        (if isKeyMark c then ['\\', c] else [c]) = x :: rest ∧ isInside x = true := by
      intro c
      by_cases hc : isKeyMark c = true
      · exact ⟨'\\', [c], if_pos hc, rfl⟩
      · refine ⟨c, [], if_neg hc, ?_⟩
        simp only [isKeyMark, Bool.or_eq_true, beq_iff_eq] at hc
        simp only [isInside, Bool.not_eq_true', Bool.or_eq_false_iff, beq_eq_false_iff_ne]
        tauto
    obtain ⟨htext, hrest⟩ := flatMap_append_inj (fun c _ => delimited_escaped c) hfirst
      (fun _ _ => rfl) ⟨hr, fun _ _ => rfl⟩ ⟨hs, fun _ _ => rfl⟩ h
    exact ⟨congrArg text (String.toList_injective htext), hrest⟩
  | null | bool | int | float | list => simp [kindLetter] at hkind

/-- The form of a list ends at its bracket, before which its items are taken apart. -/
theorem delimited_list {items : List ParamValue}
    (h : ∀ item ∈ items, Delimited isInside keyChars item) :
    Delimited isInside keyChars (list items) := by
  refine delimited_of_body fun other r s hkind hr hs heq => ?_
  cases other with
  | list items' =>
    simp only [keyBody, List.cons_append, List.append_assoc, List.cons.injEq, true_and] at heq
    have hfirst : ∀ item, ∃ c rest, keyChars item = c :: rest ∧ isInside c = true := by
      intro item
      exact ⟨item.kindLetter, _, item.keyChars_eq, by cases item <;> rfl⟩
    have hbracket : ∀ t, Stops (· == ',') (']' :: t) ∧ Stops isInside (']' :: t) :=
      fun t => ⟨stops_cons.2 rfl, stops_cons.2 rfl⟩
    obtain ⟨hitems, hrest⟩ := commaSeparated_append_inj rfl h hfirst (hbracket _) (hbracket _) heq
    exact ⟨congrArg list hitems, (List.cons.inj hrest).2⟩
  | null | bool | int | float | text => simp [kindLetter] at hkind

theorem delimited_null : Delimited isInside keyChars null := by
  refine delimited_of_body fun other r s hkind _ _ h => ?_
  cases other with
  | null => exact ⟨rfl, h⟩
  | bool | int | float | text | list => simp [kindLetter] at hkind

theorem delimited_bool (value : Bool) : Delimited isInside keyChars (bool value) := by
  refine delimited_of_body fun other r s hkind _ _ h => ?_
  cases other with
  | bool value' =>
    obtain ⟨hdigit, hrest⟩ := List.cons.inj h
    refine ⟨congrArg bool ?_, hrest⟩
    cases value <;> cases value' <;> first | rfl | simp at hdigit
  | null | int | float | text | list => simp [kindLetter] at hkind

theorem delimited_int (n : Int) : Delimited isInside keyChars (int n) := by
  refine delimited_of_body fun other r s hkind hr hs h => ?_
  cases other with
  | int m =>
    obtain ⟨hdigits, hrest⟩ :=
      append_inj_of_stops (fun _ hc => isInside_int hc) (fun _ hc => isInside_int hc) hr hs h
    exact ⟨congrArg int (toString_int_injective hdigits), hrest⟩
  | null | bool | float | text | list => simp [kindLetter] at hkind

theorem delimited_float (x : Binary64) : Delimited isInside keyChars (float x) := by
  refine delimited_of_body fun other r s hkind hr hs h => ?_
  cases other with
  | float y =>
    obtain ⟨htext, hrest⟩ :=
      append_inj_of_stops (fun _ hc => isInside_float hc) (fun _ hc => isInside_float hc) hr hs h
    exact ⟨congrArg float (Binary64.text_injective (String.toList_injective htext)), hrest⟩
  | null | bool | int | text | list => simp [kindLetter] at hkind

mutual

/-- The form of a value tells the value and where it ends. -/
theorem delimited_keyForm : ∀ value : ParamValue, Delimited isInside keyChars value
  | null => delimited_null
  | bool value => delimited_bool value
  | int n => delimited_int n
  | float x => delimited_float x
  | text content => delimited_text content
  | list items => delimited_list (delimited_keyForms items)

/-- So do the forms of the items of a list. -/
theorem delimited_keyForms : ∀ items : List ParamValue,
    ∀ item ∈ items, Delimited isInside keyChars item
  | [] => fun _ h => absurd h List.not_mem_nil
  | item :: rest => List.forall_mem_cons.2 ⟨delimited_keyForm item, delimited_keyForms rest⟩

end

/-- Different values have different key forms. -/
theorem keyForm_injective : Function.Injective keyForm := by
  intro v w h
  exact injective_of_delimited delimited_keyForm (congrArg String.toList h)

end ParamValue

/-! ## The fingerprint of a restriction -/

namespace Restriction

/-- A unit number in decimal digits. -/
def unitChars (unit : UInt64) : List Char :=
  (toString unit.toNat).toList

theorem unitChars_eq (unit : UInt64) : unitChars unit = Nat.toDigits 10 unit.toNat :=
  Nat.toList_repr

theorem delimited_unit (unit : UInt64) : Delimited Char.isDigit unitChars unit := by
  intro other r s hr hs h
  have hdigits : ∀ unit : UInt64, ∀ c ∈ unitChars unit, c.isDigit = true := by
    intro unit c hc
    rw [unitChars_eq] at hc
    exact Binary64.toDigits_isDigit hc
  obtain ⟨hnumber, hrest⟩ := append_inj_of_stops (hdigits unit) (hdigits other) hr hs h
  exact ⟨UInt64.toNat_inj.1 (toString_nat_injective hnumber), hrest⟩

theorem unitChars_head (unit : UInt64) : ∃ c rest, unitChars unit = c :: rest ∧ c.isDigit = true := by
  obtain ⟨c, rest, hc⟩ :=
    List.exists_cons_of_ne_nil (Nat.toDigits_ne_nil (b := 10) (n := unit.toNat))
  rw [unitChars_eq, hc]
  exact ⟨c, rest, rfl, Binary64.toDigits_isDigit (hc ▸ List.mem_cons_self)⟩

theorem toList_fingerprint (set : UnitSet) : (units set).fingerprint.toList =
    'u' :: 'n' :: 'i' :: 't' :: 's' :: ':' :: commaSeparated unitChars set.units := by
  rw [fingerprint, String.toList_append, String.toList_intercalate, List.map_map]
  rfl

theorem fingerprint_ne_unrestricted (set : UnitSet) :
    (units set).fingerprint ≠ unrestricted.fingerprint := by
  intro h
  have hchars := congrArg String.toList h
  rw [toList_fingerprint] at hchars
  simp [fingerprint] at hchars

/-- Different restrictions have different fingerprints. -/
theorem fingerprint_injective : Function.Injective fingerprint := by
  intro x y h
  cases x with
  | unrestricted =>
    cases y with
    | unrestricted => rfl
    | units set => exact absurd h.symm (fingerprint_ne_unrestricted set)
  | units set =>
    cases y with
    | unrestricted => exact absurd h (fingerprint_ne_unrestricted set)
    | units set' =>
      have hchars := congrArg String.toList h
      rw [toList_fingerprint, toList_fingerprint] at hchars
      simp only [List.cons.injEq, true_and] at hchars
      have hnil : Stops (· == ',') [] ∧ Stops Char.isDigit [] := ⟨stops_nil _, stops_nil _⟩
      obtain ⟨hunits, -⟩ := commaSeparated_append_inj rfl (fun unit _ => delimited_unit unit)
        unitChars_head hnil hnil (congrArg (· ++ []) hchars)
      cases set
      cases set'
      cases hunits
      rfl

end Restriction

end ReportSql
