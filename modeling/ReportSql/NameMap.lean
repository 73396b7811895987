/-!
# Maps with names as keys

A map from names to values as a list of entries in increasing order of names.
The order is that of code points, and it is part of the type, so two maps with
the same content are equal.

## Main definitions

* `NameMap` - entries in strictly increasing order of names
* `NameMap.insert` - the map with one entry set
* `NameMap.get?` - the value of a name
-/

namespace ReportSql

/-- Entries in strictly increasing order of names. -/
structure NameMap (α : Type) where
  entries : List (String × α)
  sorted : entries.Pairwise fun a b => a.1 < b.1

namespace NameMap

variable {α : Type}

/-- Sets one entry in a list ordered by names. -/
def insertEntry (name : String) (value : α) : List (String × α) → List (String × α)
  | [] => [(name, value)]
  | (n, v) :: rest =>
    if name < n then (name, value) :: (n, v) :: rest
    else if name = n then (name, value) :: rest
    else (n, v) :: insertEntry name value rest

/-- The entries after setting one are the old ones and the new one. -/
theorem mem_insertEntry {name : String} {value : α} {entries : List (String × α)}
    {e : String × α} (h : e ∈ insertEntry name value entries) :
    e = (name, value) ∨ e ∈ entries := by
  induction entries with
  | nil => simpa [insertEntry] using h
  | cons first rest ih =>
    obtain ⟨n, v⟩ := first
    simp only [insertEntry] at h
    split at h
    · simpa using h
    · split at h
      · rcases List.mem_cons.1 h with h | h
        · exact .inl h
        · exact .inr (List.mem_cons_of_mem _ h)
      · rcases List.mem_cons.1 h with h | h
        · exact .inr (h ▸ List.mem_cons_self)
        · exact (ih h).imp id (List.mem_cons_of_mem _)

/-- Setting an entry keeps the order. -/
theorem sorted_insertEntry (name : String) (value : α) {entries : List (String × α)}
    (h : entries.Pairwise fun a b => a.1 < b.1) :
    (insertEntry name value entries).Pairwise fun a b => a.1 < b.1 := by
  -- the new entry goes before the first one, in its place or into the rest
  induction entries with
  | nil => simp [insertEntry]
  | cons first rest ih =>
    obtain ⟨n, v⟩ := first
    obtain ⟨hfirst, hrest⟩ := List.pairwise_cons.1 h
    simp only [insertEntry]
    split
    case isTrue hlt =>
      refine List.pairwise_cons.2 ⟨fun e he => ?_, h⟩
      rcases List.mem_cons.1 he with he | he
      · simpa [he] using hlt
      · exact String.lt_trans hlt (hfirst e he)
    case isFalse hlt =>
      split
      case isTrue heq =>
        subst heq
        exact List.pairwise_cons.2 ⟨hfirst, hrest⟩
      case isFalse hne =>
        refine List.pairwise_cons.2 ⟨fun e he => ?_, ih hrest⟩
        rcases mem_insertEntry he with he | he
        · have hle : n ≤ name := String.not_lt.1 hlt
          have hlt' : n < name := by
            rcases String.le_total name n with hle' | hle'
            · exact absurd (String.le_antisymm hle' hle) hne
            · exact Decidable.byContradiction fun hc =>
                hne (String.le_antisymm (String.not_lt.1 hc) hle)
          simpa [he] using hlt'
        · exact hfirst e he

/-- The map without entries. -/
def empty : NameMap α := ⟨[], .nil⟩

instance : Inhabited (NameMap α) := ⟨empty⟩

/-- The map with one entry set. -/
def insert (m : NameMap α) (name : String) (value : α) : NameMap α :=
  ⟨insertEntry name value m.entries, sorted_insertEntry name value m.sorted⟩

/-- The value of a name. -/
def get? (m : NameMap α) (name : String) : Option α :=
  m.entries.lookup name

/-- Whether a name has a value. -/
def contains (m : NameMap α) (name : String) : Bool :=
  (m.get? name).isSome

/-- The names in increasing order. -/
def names (m : NameMap α) : List String :=
  m.entries.map (·.1)

/-- How many entries there are. -/
def size (m : NameMap α) : Nat :=
  m.entries.length

/-- The map with several entries set in turn, so that of equal names the last one counts. -/
def insertAll (m : NameMap α) (entries : List (String × α)) : NameMap α :=
  entries.foldl (fun m (name, value) => m.insert name value) m

/-- The map of a list of entries, of equal names the last one. -/
def ofList (entries : List (String × α)) : NameMap α :=
  empty.insertAll entries

/-- The entries whose name and value pass a test. -/
def filter (keep : String → α → Bool) (m : NameMap α) : NameMap α :=
  ⟨m.entries.filter fun (name, value) => keep name value, m.sorted.filter _⟩

/-- The map without the entry of a name. -/
def erase (m : NameMap α) (name : String) : NameMap α :=
  m.filter fun n _ => n != name

/-- Two maps with the same entries are equal. -/
theorem ext {m₁ m₂ : NameMap α} (h : m₁.entries = m₂.entries) : m₁ = m₂ := by
  cases m₁
  cases m₂
  cases h
  rfl

end NameMap

end ReportSql
