import ReportSql.Json.Printer
import ReportSql.Proofs.Binary64.Text
import ReportSql.Proofs.Text.Delimited

/-!
# Compact JSON

The first character of a value in compact JSON tells its kind, and its text ends where a
comma or a closing bracket follows. Values with the same text are therefore equal.

## Main definitions

* `Json.Kind` - what the first character of a value tells

## Main results

* `Json.delimited_quote` - a string ends at its closing quote
* `Json.compact_injective` - different values have different texts
-/

namespace ReportSql

open Token

namespace Json

/-! ## Strings -/

/-- The characters that are escaped. -/
def escapedChars : List Char :=
  '"' :: '\\' :: (List.range 0x20).map Char.ofNat

theorem not_control_of_notMem {c : Char} (h : c ∉ escapedChars) : ¬ c.toNat < 0x20 := by
  intro hlt
  refine h (List.mem_cons_of_mem _ (List.mem_cons_of_mem _ (List.mem_map.2 ⟨c.toNat, ?_, ?_⟩)))
  · exact List.mem_range.2 hlt
  · exact Char.ofNat_toNat c

theorem escape_of_notMem {c : Char} (h : c ∉ escapedChars) :
    escape c = [c] ∧ c ≠ '\\' ∧ c ≠ '"' := by
  have hquote : c ≠ '"' := fun hc => h (hc ▸ List.mem_cons_self)
  have hbackslash : c ≠ '\\' := fun hc => h (hc ▸ List.mem_cons_of_mem _ List.mem_cons_self)
  have hcontrol := not_control_of_notMem h
  have hne : ∀ d : Char, d.toNat < 0x20 → c ≠ d := fun d hd hc => hcontrol (hc ▸ hd)
  refine ⟨?_, hbackslash, hquote⟩
  rw [escape, if_neg hquote, if_neg hbackslash, if_neg (hne '\x08' (by decide)),
    if_neg (hne '\t' (by decide)), if_neg (hne '\n' (by decide)), if_neg (hne '\x0c' (by decide)),
    if_neg (hne '\r' (by decide)), if_neg hcontrol]

/-- An escaped character begins with a backslash, and no escape begins with another one. -/
theorem escape_of_mem : ∀ c ∈ escapedChars, (escape c).head? = some '\\' ∧
    ∀ d ∈ escapedChars, (escape c).isPrefixOf (escape d) = true → c = d := by
  decide +kernel

theorem delimited_escape (c : Char) : Delimited (fun _ => false) escape c := by
  intro d r s _ _ h
  by_cases hc : c ∈ escapedChars <;> by_cases hd : d ∈ escapedChars
  · -- one of the two escapes begins with the other
    have hsame : c = d := by
      rcases List.prefix_or_prefix_of_prefix (h ▸ List.prefix_append (escape c) r)
        (List.prefix_append (escape d) s) with hprefix | hprefix
      · exact (escape_of_mem c hc).2 d hd (List.isPrefixOf_iff_prefix.2 hprefix)
      · exact ((escape_of_mem d hd).2 c hc (List.isPrefixOf_iff_prefix.2 hprefix)).symm
    subst hsame
    exact ⟨rfl, List.append_cancel_left h⟩
  · obtain ⟨rest, hrest⟩ := List.head?_eq_some_iff.1 (escape_of_mem c hc).1
    obtain ⟨hescape, hne, -⟩ := escape_of_notMem hd
    rw [hrest, hescape] at h
    exact absurd (List.cons.inj h).1.symm hne
  · obtain ⟨rest, hrest⟩ := List.head?_eq_some_iff.1 (escape_of_mem d hd).1
    obtain ⟨hescape, hne, -⟩ := escape_of_notMem hc
    rw [hrest, hescape] at h
    exact absurd (List.cons.inj h).1 hne
  · rw [(escape_of_notMem hc).1, (escape_of_notMem hd).1] at h
    exact ⟨(List.cons.inj h).1, (List.cons.inj h).2⟩

theorem toList_quote (s : String) : (quote s).toList = '"' :: s.toList.flatMap escape ++ ['"'] :=
  String.toList_ofList

theorem delimited_quote (s : String) : Delimited (fun _ => false) (fun s => (quote s).toList) s := by
  intro t r r' _ _ h
  simp only [toList_quote, List.cons_append, List.append_assoc, List.cons.injEq, true_and] at h
  have hfirst : ∀ c : Char, ∃ x rest, escape c = x :: rest ∧ (x != '"') = true := by
    intro c
    by_cases hc : c ∈ escapedChars
    · obtain ⟨rest, hrest⟩ := List.head?_eq_some_iff.1 (escape_of_mem c hc).1
      exact ⟨'\\', rest, hrest, rfl⟩
    · obtain ⟨hescape, -, hne⟩ := escape_of_notMem hc
      exact ⟨c, [], hescape, by simpa using hne⟩
  have hquote : ∀ t, Stops (· != '"') ('"' :: t) ∧ Stops (fun _ => false) ('"' :: t) :=
    fun t => ⟨stops_cons.2 rfl, stops_cons.2 rfl⟩
  obtain ⟨htext, hrest⟩ := flatMap_append_inj (fun c _ => delimited_escape c) hfirst
    (fun _ _ => rfl) (hquote _) (hquote _) h
  exact ⟨String.toList_injective htext, (List.cons.inj hrest).2⟩

/-! ## Kinds of values -/

/-- What the first character of a value tells. -/
inductive Kind where
  | null
  | bool
  | number
  | string
  | array
  | object
deriving DecidableEq

/-- The kind of a value. -/
def kind : Json → Kind
  | .null => .null
  | .bool _ => .bool
  | .integer _ | .real _ => .number
  | .string _ => .string
  | .array _ => .array
  | .object _ => .object

/-- The kind that a first character tells. -/
def kindOf (c : Char) : Kind :=
  if c = 'n' then .null
  else if c = 't' ∨ c = 'f' then .bool
  else if c = '"' then .string
  else if c = '[' then .array
  else if c = '\x7b' then .object
  else .number

/-- The characters that may follow inside the text of a value, that is, not after its end. -/
def isInside (c : Char) : Bool :=
  !(c == ',' || c == ']' || c == '\x7d')

theorem isInside_of_isNumeralChar {c : Char} (h : Binary64.isNumeralChar c = true) :
    isInside c = true := by
  by_contra hmark
  simp only [isInside, Bool.not_eq_true', Bool.not_eq_false, Bool.or_eq_true, beq_iff_eq] at hmark
  rcases hmark with (rfl | rfl) | rfl <;> exact absurd h (by decide)

/-- The characters of a value in compact JSON. -/
def compactChars (value : Json) : List Char :=
  value.compact.toList

/-- The characters of a member. -/
def memberChars (member : String × Json) : List Char :=
  (quote member.1).toList ++ ':' :: compactChars member.2

theorem compactItems_eq_map (items : List Json) : compactItems items = items.map compact := by
  induction items with
  | nil => rfl
  | cons item rest ih => rw [compactItems, ih, List.map_cons]

theorem toList_compactMembers (members : List (String × Json)) :
    (compactMembers members).map String.toList = members.map memberChars := by
  induction members with
  | nil => rfl
  | cons member rest ih =>
    obtain ⟨key, value⟩ := member
    rw [compactMembers, List.map_cons, List.map_cons, ih]
    simp [memberChars, compactChars]

theorem compactChars_array (items : List Json) :
    compactChars (.array items) = '[' :: commaSeparated compactChars items ++ [']'] := by
  have hitems : (",".intercalate (compactItems items)).toList = commaSeparated compactChars items := by
    rw [String.toList_intercalate, compactItems_eq_map, List.map_map]
    rfl
  simp [compactChars, compact, hitems]

theorem compactChars_object (members : List (String × Json)) :
    compactChars (.object members) = '\x7b' :: commaSeparated memberChars members ++ ['\x7d'] := by
  have hmembers : (",".intercalate (compactMembers members)).toList =
      commaSeparated memberChars members := by
    rw [String.toList_intercalate, toList_compactMembers]
    rfl
  simp [compactChars, compact, hmembers, openBrace, closeBrace]

/-- The characters of the text of a number. -/
def IsNumber (cs : List Char) : Prop :=
  cs ≠ [] ∧ ∀ c ∈ cs, Binary64.isNumeralChar c = true

theorem isNumber_integer (n : Int) : IsNumber (compactChars (.integer n)) := by
  constructor
  · show (toString n).toList ≠ []
    rcases Binary64.toString_int_cases n with ⟨-, h⟩ | ⟨-, h⟩
    · rw [h]
      exact Nat.toDigits_ne_nil
    · rw [h]
      exact List.cons_ne_nil _ _
  · intro c hc
    rcases Binary64.toString_int_chars (e := n) hc with hc | rfl
    · simp [Binary64.isNumeralChar, hc]
    · rfl

theorem isNumber_real (x : Binary64) : IsNumber (compactChars (.real x)) := by
  obtain ⟨hchars, hmark⟩ := Binary64.textWith_spec (.inr rfl) x
  refine ⟨?_, hchars⟩
  rcases hmark with hmem | hmem <;> exact List.ne_nil_of_mem hmem

theorem IsNumber.head {cs : List Char} (h : IsNumber cs) : ∃ c rest, cs = c :: rest ∧
    kindOf c = .number ∧ isInside c = true := by
  obtain ⟨c, rest, rfl⟩ := List.exists_cons_of_ne_nil h.1
  have hc := h.2 c List.mem_cons_self
  refine ⟨c, rest, rfl, ?_, isInside_of_isNumeralChar hc⟩
  have hne : ∀ d : Char, Binary64.isNumeralChar d = false → c ≠ d := by
    rintro d hd rfl
    rw [hd] at hc
    exact Bool.noConfusion hc
  unfold kindOf
  rw [if_neg (hne 'n' (by decide)), if_neg (not_or.2 ⟨hne 't' (by decide), hne 'f' (by decide)⟩),
    if_neg (hne '"' (by decide)), if_neg (hne '[' (by decide)), if_neg (hne '\x7b' (by decide))]

theorem compactChars_head (value : Json) : ∃ c rest, compactChars value = c :: rest ∧
    kindOf c = value.kind ∧ isInside c = true := by
  cases value with
  | null => exact ⟨'n', _, rfl, rfl, rfl⟩
  | bool value =>
    cases value
    · exact ⟨'f', _, rfl, rfl, rfl⟩
    · exact ⟨'t', _, rfl, rfl, rfl⟩
  | integer n => exact (isNumber_integer n).head
  | real x => exact (isNumber_real x).head
  | string s => exact ⟨'"', _, toList_quote s, rfl, rfl⟩
  | array items => exact ⟨'[', _, compactChars_array items, rfl, rfl⟩
  | object members => exact ⟨'\x7b', _, compactChars_object members, rfl, rfl⟩

theorem compactChars_inside (value : Json) :
    ∃ c rest, compactChars value = c :: rest ∧ isInside c = true := by
  obtain ⟨c, rest, hchars, -, hinside⟩ := value.compactChars_head
  exact ⟨c, rest, hchars, hinside⟩

/-! ## Values -/

/-- Values of one kind are told apart by what follows the first character. -/
theorem delimited_of_kind {value : Json}
    (h : ∀ other r s, other.kind = value.kind → Stops isInside r → Stops isInside s →
      compactChars value ++ r = compactChars other ++ s → value = other ∧ r = s) :
    Delimited isInside compactChars value := by
  intro other r s hr hs heq
  refine h other r s ?_ hr hs heq
  obtain ⟨c, rest, hc, hkind, -⟩ := value.compactChars_head
  obtain ⟨d, rest', hd, hkind', -⟩ := other.compactChars_head
  rw [hc, hd] at heq
  rw [← hkind, ← hkind', (List.cons.inj heq).1]

theorem delimited_null : Delimited isInside compactChars .null := by
  refine delimited_of_kind fun other r s hkind _ _ h => ?_
  cases other with
  | null => exact ⟨rfl, List.append_cancel_left h⟩
  | bool | integer | real | string | array | object => simp [kind] at hkind

theorem delimited_bool (value : Bool) : Delimited isInside compactChars (.bool value) := by
  refine delimited_of_kind fun other r s hkind _ _ h => ?_
  cases other with
  | bool value' =>
    have hfirst : value = value' := by
      cases value <;> cases value' <;> first | rfl | simp [compactChars, compact] at h
    subst hfirst
    exact ⟨rfl, List.append_cancel_left h⟩
  | null | integer | real | string | array | object => simp [kind] at hkind

/-- The text of an integer has no point and no exponent. -/
theorem compact_integer_ne_real (n : Int) (x : Binary64) :
    compactChars (.integer n) ≠ compactChars (.real x) := by
  intro h
  have hdigits : ∀ c ∈ compactChars (.real x), c.isDigit = true ∨ c = '-' :=
    fun c hc => Binary64.toString_int_chars (e := n) (show c ∈ compactChars (.integer n) from h ▸ hc)
  rcases (Binary64.textWith_spec (.inr rfl) x).2 with hmark | hmark
  · exact absurd (hdigits '.' hmark) (by decide)
  · exact absurd (hdigits 'e' hmark) (by decide)

theorem number_append_inj {as bs r s : List Char} (ha : IsNumber as) (hb : IsNumber bs)
    (hr : Stops isInside r) (hs : Stops isInside s) (h : as ++ r = bs ++ s) : as = bs ∧ r = s :=
  append_inj_of_stops (fun c hc => isInside_of_isNumeralChar (ha.2 c hc))
    (fun c hc => isInside_of_isNumeralChar (hb.2 c hc)) hr hs h

theorem delimited_integer (n : Int) : Delimited isInside compactChars (.integer n) := by
  refine delimited_of_kind fun other r s hkind hr hs h => ?_
  cases other with
  | integer m =>
    obtain ⟨htext, hrest⟩ := number_append_inj (isNumber_integer n) (isNumber_integer m) hr hs h
    exact ⟨congrArg Json.integer (Int.repr_injective (String.toList_injective htext)), hrest⟩
  | real x =>
    obtain ⟨htext, -⟩ := number_append_inj (isNumber_integer n) (isNumber_real x) hr hs h
    exact absurd htext (compact_integer_ne_real n x)
  | null | bool | string | array | object => simp [kind] at hkind

theorem delimited_real (x : Binary64) : Delimited isInside compactChars (.real x) := by
  refine delimited_of_kind fun other r s hkind hr hs h => ?_
  cases other with
  | real y =>
    obtain ⟨htext, hrest⟩ := number_append_inj (isNumber_real x) (isNumber_real y) hr hs h
    have hxy := Binary64.textWith_injective (.inr rfl) (String.toList_injective htext)
    exact ⟨congrArg Json.real hxy, hrest⟩
  | integer n =>
    obtain ⟨htext, -⟩ := number_append_inj (isNumber_real x) (isNumber_integer n) hr hs h
    exact absurd htext.symm (compact_integer_ne_real n x)
  | null | bool | string | array | object => simp [kind] at hkind

theorem delimited_string (text : String) : Delimited isInside compactChars (.string text) := by
  refine delimited_of_kind fun other r s hkind _ _ h => ?_
  cases other with
  | string text' =>
    obtain ⟨htext, hrest⟩ := delimited_quote text text' r s (fun _ _ => rfl) (fun _ _ => rfl) h
    exact ⟨congrArg Json.string htext, hrest⟩
  | null | bool | integer | real | array | object => simp [kind] at hkind

theorem delimited_array {items : List Json}
    (h : ∀ item ∈ items, Delimited isInside compactChars item) :
    Delimited isInside compactChars (.array items) := by
  refine delimited_of_kind fun other r s hkind _ _ heq => ?_
  cases other with
  | array items' =>
    simp only [compactChars_array, List.cons_append, List.append_assoc, List.cons.injEq,
      true_and] at heq
    have hbracket : ∀ t, Stops (· == ',') (']' :: t) ∧ Stops isInside (']' :: t) :=
      fun t => ⟨stops_cons.2 rfl, stops_cons.2 rfl⟩
    obtain ⟨hitems, hrest⟩ := commaSeparated_append_inj rfl h compactChars_inside (hbracket _)
      (hbracket _) heq
    exact ⟨congrArg Json.array hitems, (List.cons.inj hrest).2⟩
  | null | bool | integer | real | string | object => simp [kind] at hkind

theorem delimited_member {member : String × Json} (h : Delimited isInside compactChars member.2) :
    Delimited isInside memberChars member := by
  intro other r s hr hs heq
  simp only [memberChars, List.append_assoc, List.cons_append] at heq
  obtain ⟨hkey, heq⟩ := delimited_quote member.1 other.1 _ _ (fun _ _ => rfl) (fun _ _ => rfl) heq
  obtain ⟨hvalue, hrest⟩ := h other.2 r s hr hs (List.cons.inj heq).2
  exact ⟨Prod.ext hkey hvalue, hrest⟩

theorem delimited_object {members : List (String × Json)}
    (h : ∀ member ∈ members, Delimited isInside compactChars member.2) :
    Delimited isInside compactChars (.object members) := by
  refine delimited_of_kind fun other r s hkind _ _ heq => ?_
  cases other with
  | object members' =>
    simp only [compactChars_object, List.cons_append, List.append_assoc, List.cons.injEq,
      true_and] at heq
    have hfirst : ∀ member, ∃ c rest, memberChars member = c :: rest ∧ isInside c = true := by
      intro member
      rw [memberChars, toList_quote]
      exact ⟨'"', _, rfl, rfl⟩
    have hbracket : ∀ t, Stops (· == ',') ('\x7d' :: t) ∧ Stops isInside ('\x7d' :: t) :=
      fun t => ⟨stops_cons.2 rfl, stops_cons.2 rfl⟩
    obtain ⟨hmembers, hrest⟩ := commaSeparated_append_inj rfl
      (fun member hmem => delimited_member (h member hmem)) hfirst (hbracket _) (hbracket _) heq
    exact ⟨congrArg Json.object hmembers, (List.cons.inj hrest).2⟩
  | null | bool | integer | real | string | array => simp [kind] at hkind

mutual

/-- The text of a value tells the value and where it ends. -/
theorem delimited_compact : ∀ value : Json, Delimited isInside compactChars value
  | .null => delimited_null
  | .bool value => delimited_bool value
  | .integer n => delimited_integer n
  | .real x => delimited_real x
  | .string text => delimited_string text
  | .array items => delimited_array (delimited_compactItems items)
  | .object members => delimited_object (delimited_compactMembers members)

/-- So do the texts of the items of an array. -/
theorem delimited_compactItems : ∀ items : List Json,
    ∀ item ∈ items, Delimited isInside compactChars item
  | [] => fun _ h => absurd h List.not_mem_nil
  | item :: rest => List.forall_mem_cons.2 ⟨delimited_compact item, delimited_compactItems rest⟩

/-- So do the texts of the values of an object. -/
theorem delimited_compactMembers : ∀ members : List (String × Json),
    ∀ member ∈ members, Delimited isInside compactChars member.2
  | [] => fun _ h => absurd h List.not_mem_nil
  | (_, value) :: rest =>
    List.forall_mem_cons.2 ⟨delimited_compact value, delimited_compactMembers rest⟩

end

/-- Different values have different texts. -/
theorem compact_injective : Function.Injective compact := by
  intro v w h
  exact injective_of_delimited delimited_compact (congrArg String.toList h)

instance : DecidableEq Json := fun v w =>
  decidable_of_iff (v.compact = w.compact) compact_injective.eq_iff

end Json

end ReportSql
