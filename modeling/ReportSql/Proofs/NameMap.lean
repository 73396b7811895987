import Mathlib
import ReportSql.NameMap

/-!
# Look-up in maps with names as keys

What a map says about a name after it was built, changed or filtered. A map is
determined by what it says about every name.

## Main results

* `NameMap.get?_eq_some_iff` - the values of a map are its entries
* `NameMap.get?_insertAll` - of several entries for a name the last one counts
* `NameMap.ext_get?` - two maps that say the same of every name are equal
* `NameMap.get?_mapValues` - the values of a map under a function
-/

namespace ReportSql

namespace NameMap

variable {α : Type}

/-! ## Entries -/

/-- No name has two entries. -/
theorem names_nodup (m : NameMap α) : m.names.Nodup := by
  refine List.pairwise_map.2 (m.sorted.imp ?_)
  rintro a b hlt heq
  exact String.lt_irrefl _ (heq ▸ hlt)

theorem names_sorted (m : NameMap α) : m.names.Pairwise (· < ·) :=
  List.pairwise_map.2 m.sorted

/-- Two maps with the same names have them in the same order. -/
theorem names_ext {β : Type} {m : NameMap α} {m' : NameMap β}
    (h : ∀ name, name ∈ m.names ↔ name ∈ m'.names) : m.names = m'.names := by
  have hperm : m.names.Perm m'.names :=
    (List.perm_ext_iff_of_nodup m.names_nodup m'.names_nodup).2 h
  refine hperm.eq_of_pairwise (fun a b _ _ hab hba => ?_) m.names_sorted m'.names_sorted
  exact absurd (String.lt_trans hab hba) (String.lt_irrefl _)

theorem length_names (m : NameMap α) : m.names.length = m.size := by
  simp [names, size]

theorem lookup_cons_eq (name key : String) (value : α) (rest : List (String × α)) :
    ((name, value) :: rest).lookup key = if key = name then some value else rest.lookup key := by
  rw [List.lookup_cons]
  by_cases h : key = name
  · simp [h]
  · rw [beq_false_of_ne h, if_neg h]

theorem lookup_eq_some_iff {entries : List (String × α)} (h : (entries.map (·.1)).Nodup)
    {name : String} {value : α} :
    entries.lookup name = some value ↔ (name, value) ∈ entries := by
  induction entries with
  | nil => simp
  | cons first rest ih =>
    obtain ⟨n, v⟩ := first
    rw [List.map_cons, List.nodup_cons] at h
    rw [lookup_cons_eq, List.mem_cons]
    split
    case isTrue heq =>
      subst heq
      have hrest : (name, value) ∉ rest := fun hmem => h.1 (List.mem_map_of_mem (f := (·.1)) hmem)
      simp [hrest, eq_comm]
    case isFalse hne =>
      rw [ih h.2]
      simp [hne]

theorem get?_eq_some_iff {m : NameMap α} {name : String} {value : α} :
    m.get? name = some value ↔ (name, value) ∈ m.entries :=
  lookup_eq_some_iff m.names_nodup

theorem get?_eq_none_iff {m : NameMap α} {name : String} : m.get? name = none ↔ name ∉ m.names := by
  rw [Option.eq_none_iff_forall_ne_some, names, List.mem_map]
  constructor
  · rintro h ⟨⟨n, value⟩, hmem, rfl⟩
    exact h value (get?_eq_some_iff.2 hmem)
  · rintro h value hvalue
    exact h ⟨_, get?_eq_some_iff.1 hvalue, rfl⟩

theorem contains_iff {m : NameMap α} {name : String} : m.contains name = true ↔ name ∈ m.names := by
  rw [contains, Option.isSome_iff_ne_none, ne_eq, get?_eq_none_iff, not_not]

theorem mem_names_iff {m : NameMap α} {name : String} :
    name ∈ m.names ↔ ∃ value, m.get? name = some value := by
  rw [← contains_iff, contains, Option.isSome_iff_exists]

theorem entries_nodup (m : NameMap α) : m.entries.Nodup :=
  m.names_nodup.of_map

/-- Two maps with the same entries have them in the same order. -/
theorem ext_perm {m₁ m₂ : NameMap α} (h : m₁.entries.Perm m₂.entries) : m₁ = m₂ := by
  refine ext (h.eq_of_pairwise (fun a b _ _ hab hba => ?_) m₁.sorted m₂.sorted)
  exact absurd (String.lt_trans hab hba) (String.lt_irrefl _)

/-- Two maps that say the same of every name are equal. -/
theorem ext_get? {m₁ m₂ : NameMap α} (h : ∀ name, m₁.get? name = m₂.get? name) : m₁ = m₂ := by
  refine ext_perm ((List.perm_ext_iff_of_nodup m₁.entries_nodup m₂.entries_nodup).2 fun e => ?_)
  rw [← get?_eq_some_iff, ← get?_eq_some_iff, h]

/-! ## Changes -/

theorem lookup_insertEntry (name : String) (value : α) (entries : List (String × α))
    (key : String) :
    (insertEntry name value entries).lookup key =
      if key = name then some value else entries.lookup key := by
  induction entries with
  | nil => exact lookup_cons_eq name key value []
  | cons first rest ih =>
    obtain ⟨n, v⟩ := first
    rw [insertEntry]
    split
    · exact lookup_cons_eq name key value _
    · split
      case isTrue heq =>
        subst heq
        rw [lookup_cons_eq, lookup_cons_eq]
        split <;> rfl
      case isFalse hne =>
        rw [lookup_cons_eq, lookup_cons_eq, ih]
        by_cases hkey : key = n
        · subst hkey
          simp [Ne.symm hne]
        · simp [hkey]

theorem get?_insert (m : NameMap α) (name : String) (value : α) (key : String) :
    (m.insert name value).get? key = if key = name then some value else m.get? key :=
  lookup_insertEntry name value m.entries key

/-- Of several entries for a name the last one counts. -/
theorem get?_insertAll (m : NameMap α) (entries : List (String × α)) (name : String) :
    (m.insertAll entries).get? name = (entries.reverse.lookup name).or (m.get? name) := by
  induction entries generalizing m with
  | nil => rfl
  | cons first rest ih =>
    obtain ⟨n, v⟩ := first
    have hstep : m.insertAll ((n, v) :: rest) = (m.insert n v).insertAll rest := rfl
    rw [hstep, ih, get?_insert, List.reverse_cons, List.lookup_append, Option.or_assoc]
    rw [lookup_cons_eq]
    split <;> rfl

theorem get?_insertAll_of_mem {m : NameMap α} {entries : List (String × α)}
    (hnodup : (entries.map (·.1)).Nodup) {name : String} {value : α}
    (h : (name, value) ∈ entries) : (m.insertAll entries).get? name = some value := by
  have hrev : (entries.reverse.map (·.1)).Nodup := by
    rw [List.map_reverse]
    exact List.nodup_reverse.2 hnodup
  rw [get?_insertAll, (lookup_eq_some_iff hrev).2 (List.mem_reverse.2 h), Option.some_or]

theorem get?_insertAll_of_notMem {m : NameMap α} {entries : List (String × α)} {name : String}
    (h : name ∉ entries.map (·.1)) : (m.insertAll entries).get? name = m.get? name := by
  have hnone : entries.reverse.lookup name = none := by
    refine List.lookup_eq_none_iff.2 fun e he => ?_
    have hne : name ≠ e.1 := fun heq => h (heq ▸ List.mem_map_of_mem (List.mem_reverse.1 he))
    simpa using hne
  rw [get?_insertAll, hnone, Option.none_or]

theorem mem_names_insertAll {m : NameMap α} {entries : List (String × α)} {name : String} :
    name ∈ (m.insertAll entries).names ↔ name ∈ entries.map (·.1) ∨ name ∈ m.names := by
  by_cases h : name ∈ entries.map (·.1)
  · have hsome : (entries.reverse.lookup name).isSome := by
      rw [Option.isSome_iff_ne_none]
      intro hnone
      obtain ⟨e, he, rfl⟩ := List.mem_map.1 h
      simpa using List.lookup_eq_none_iff.1 hnone e (List.mem_reverse.2 he)
    obtain ⟨value, hvalue⟩ := Option.isSome_iff_exists.1 hsome
    rw [mem_names_iff, get?_insertAll, hvalue]
    simp [h]
  · rw [mem_names_iff, get?_insertAll_of_notMem h, ← mem_names_iff]
    simp [h]

/-- The names of a map depend on the names that were set, not on their values. -/
theorem names_insertAll_congr {β : Type} {m : NameMap α} {m' : NameMap β}
    {entries : List (String × α)} {entries' : List (String × β)} (h : m.names = m'.names)
    (hentries : entries.map (·.1) = entries'.map (·.1)) :
    (m.insertAll entries).names = (m'.insertAll entries').names := by
  refine names_ext fun name => ?_
  rw [mem_names_insertAll, mem_names_insertAll, h, hentries]

theorem get?_filter (keep : String → α → Bool) (m : NameMap α) (name : String) :
    (m.filter keep).get? name = (m.get? name).filter (keep name) := by
  refine Option.ext fun value => ?_
  rw [get?_eq_some_iff, Option.filter_eq_some_iff, get?_eq_some_iff, filter, List.mem_filter]

theorem get?_erase (m : NameMap α) (name key : String) :
    (m.erase name).get? key = if key = name then none else m.get? key := by
  rw [erase, get?_filter]
  by_cases hkey : key = name
  · cases h : m.get? key <;> simp [hkey]
  · cases h : m.get? key <;> simp [hkey]

/-! ## Values under a function -/

/-- The map with a function applied to every value. -/
def mapValues {β : Type} (f : α → β) (m : NameMap α) : NameMap β :=
  ⟨m.entries.map fun e => (e.1, f e.2), List.pairwise_map.2 m.sorted⟩

variable {β : Type}

theorem get?_mapValues (f : α → β) (m : NameMap α) (name : String) :
    (m.mapValues f).get? name = (m.get? name).map f := by
  refine Option.ext fun value => ?_
  rw [get?_eq_some_iff, Option.map_eq_some_iff, mapValues, List.mem_map]
  constructor
  · rintro ⟨⟨n, v⟩, hmem, heq⟩
    obtain ⟨rfl, rfl⟩ := Prod.mk.inj heq
    exact ⟨v, get?_eq_some_iff.2 hmem, rfl⟩
  · rintro ⟨v, hv, rfl⟩
    exact ⟨(name, v), get?_eq_some_iff.1 hv, rfl⟩

theorem mapValues_insert (f : α → β) (m : NameMap α) (name : String) (value : α) :
    (m.insert name value).mapValues f = (m.mapValues f).insert name (f value) := by
  refine ext_get? fun key => ?_
  rw [get?_mapValues, get?_insert, get?_insert, get?_mapValues]
  split <;> rfl

theorem mapValues_erase (f : α → β) (m : NameMap α) (name : String) :
    (m.erase name).mapValues f = (m.mapValues f).erase name := by
  refine ext_get? fun key => ?_
  rw [get?_mapValues, get?_erase, get?_erase, get?_mapValues]
  split <;> rfl

theorem size_mapValues (f : α → β) (m : NameMap α) : (m.mapValues f).size = m.size :=
  List.length_map _

end NameMap

end ReportSql
