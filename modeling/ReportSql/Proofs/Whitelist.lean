import ReportSql.Proofs.Except
import ReportSql.Proofs.NameMap
import ReportSql.Whitelist

/-!
# Names in whitelists

A whitelist that was built table by table holds plain identifiers only, however
the names of its tables and columns were spelled.

## Main definitions

* `Whitelist.WellFormed` - only plain identifiers are stored
* `Whitelist.Built` - the whitelists that can be built
* `Whitelist.Normalized` - whitelists that hold names in the form in which they are looked up

## Main results

* `Whitelist.insertTable_eq_ok` - the tables that can be added, and the whitelist afterwards
* `Whitelist.wellFormed_ofSections`, `Whitelist.wellFormed_ofToml` - whitelists that were built
* `Whitelist.Built.normalized` - the names that are stored
* `Whitelist.Built.isPlainIdentifier_column` - the columns that may be used are plain identifiers
-/

namespace ReportSql

namespace Text

/-- The letters that have another lower case. -/
def capitals : List Char := "ABCDEFGHIJKLMNOPQRSTUVWXYZ".toList

theorem mem_capitals_or_toLower_eq (c : Char) : c ∈ capitals ∨ c.toLower = c := by
  by_cases h : c.val ≥ 'A'.val ∧ c.val ≤ 'Z'.val
  · left
    have hrange : 65 ≤ c.toNat ∧ c.toNat ≤ 90 := h
    have hall : ∀ n < 91, 65 ≤ n → Char.ofNat n ∈ capitals := by decide
    have hmem := hall c.toNat (by omega) hrange.1
    rwa [Char.ofNat_toNat] at hmem
  · right
    rw [Char.toLower, dif_neg h]

theorem lowerAscii_lowerAscii (s : String) : lowerAscii (lowerAscii s) = lowerAscii s := by
  apply String.toList_injective
  simp [lowerAscii]

theorem lowerAscii_append (first second : String) :
    lowerAscii (first ++ second) = lowerAscii first ++ lowerAscii second := by
  apply String.toList_injective
  simp [lowerAscii]

theorem sameIgnoringCase_eq (s t : String) : sameIgnoringCase s t =
    (s.toList.map Char.toLower == t.toList.map Char.toLower) := by
  rw [Bool.eq_iff_iff, sameIgnoringCase, beq_iff_eq, beq_iff_eq, ← String.toList_inj, lowerAscii,
    lowerAscii, String.toList_map, String.toList_map]

end Text

namespace Dialect

/-- An ASCII letter is one in both cases. -/
theorem isPlain_toLower (c : Char) :
    isPlainStart c.toLower = isPlainStart c ∧ isPlainPart c.toLower = isPlainPart c := by
  have hcapitals : ∀ c ∈ Text.capitals,
      isPlainStart c.toLower = isPlainStart c ∧ isPlainPart c.toLower = isPlainPart c :=
    List.forall_iff_forall_mem.1 (by decide)
  rcases Text.mem_capitals_or_toLower_eq c with h | h
  · exact hcapitals c h
  · rw [h]
    exact ⟨rfl, rfl⟩

theorem isPlainIdentifier_lowerAscii (name : String) :
    isPlainIdentifier (Text.lowerAscii name) = isPlainIdentifier name := by
  unfold isPlainIdentifier Text.lowerAscii
  rw [String.toList_map]
  cases name.toList with
  | nil => rfl
  | cons c rest =>
    have hparts : (rest.map Char.toLower).all isPlainPart = rest.all isPlainPart := by
      rw [List.all_map]
      exact congrArg (rest.all ·) (funext fun c => (isPlain_toLower c).2)
    rw [List.map_cons]
    dsimp only
    rw [hparts, (isPlain_toLower c).1]

/-- A plain identifier stays one behind a prefix that is empty or one itself. -/
theorem isPlainIdentifier_append {tablePrefix name : String}
    (hplain : tablePrefix = "" ∨ isPlainIdentifier tablePrefix = true)
    (hname : isPlainIdentifier name = true) : isPlainIdentifier (tablePrefix ++ name) = true := by
  rcases hplain with rfl | hplain
  · rwa [String.empty_append]
  · unfold isPlainIdentifier at *
    rw [String.toList_append]
    have hstart : ∀ c, isPlainStart c = true → isPlainPart c = true := by
      intro c h
      simp only [isPlainStart, Bool.or_eq_true] at h
      rcases h with h | h
      · simp [isPlainPart, Char.isAlphanum, h]
      · simp [isPlainPart, h]
    cases hp : tablePrefix.toList with
    | nil => simp [hp] at hplain
    | cons c rest =>
      cases hn : name.toList with
      | nil => simp [hn] at hname
      | cons c' rest' =>
        simp only [hp, hn, Bool.and_eq_true] at hplain hname
        simp [List.all_append, hplain.1, hplain.2, hname.2, hstart _ hname.1]

end Dialect

theorem NameSet.mem_ofNames {names : List String} {name : String} :
    name ∈ (NameSet.ofNames names).names ↔ name ∈ names := by
  have hempty : (NameMap.empty : NameSet).names = [] := rfl
  rw [NameSet.ofNames, NameMap.ofList, NameMap.mem_names_insertAll, hempty, List.map_map]
  simp [Function.comp_def]

namespace Whitelist

/-- The stored names are plain identifiers. -/
def WellFormed (w : Whitelist) : Prop :=
  ∀ entry ∈ w.tables.entries, Dialect.isPlainIdentifier entry.1 = true

theorem WellFormed.isPlainIdentifier {w : Whitelist} (hw : w.WellFormed) {name : String}
    (h : w.allowsTable name = true) : Dialect.isPlainIdentifier name = true := by
  obtain ⟨entry, hentry⟩ := Option.isSome_iff_exists.1 h
  obtain ⟨before, after, heq, -⟩ := List.lookup_eq_some_iff.1 hentry
  rw [← Dialect.isPlainIdentifier_lowerAscii]
  refine hw (Text.lowerAscii name, entry) ?_
  rw [heq]
  exact List.mem_append_right _ List.mem_cons_self

theorem allowsTable_lowerAscii (w : Whitelist) (name : String) :
    w.allowsTable (Text.lowerAscii name) = w.allowsTable name := by
  unfold allowsTable table?
  rw [Text.lowerAscii_lowerAscii]

theorem normalize_eq_ok {name stored : String} : normalize name = .ok stored ↔
    Dialect.isPlainIdentifier name = true ∧ Text.lowerAscii name = stored := by
  unfold normalize
  split
  · rename_i hplain
    rw [Except.ok.injEq, and_iff_right hplain]
  · rename_i hplain
    exact iff_of_false (by simp) fun h => hplain h.1

theorem mapM_normalize_eq_ok {columns stored : List String} : columns.mapM normalize = .ok stored ↔
    (∀ column ∈ columns, Dialect.isPlainIdentifier column = true) ∧
      columns.map Text.lowerAscii = stored := by
  rw [mapM_eq_ok]
  constructor
  · intro h
    induction h with
    | nil => exact ⟨fun column hcolumn => absurd hcolumn List.not_mem_nil, rfl⟩
    | cons hfirst _ ih =>
      obtain ⟨hplain, rfl⟩ := normalize_eq_ok.1 hfirst
      exact ⟨List.forall_mem_cons.2 ⟨hplain, ih.1⟩, congrArg _ ih.2⟩
  · rintro ⟨hplain, rfl⟩
    rw [List.forall₂_map_right_iff, List.forall₂_same]
    exact fun column hcolumn => normalize_eq_ok.2 ⟨hplain column hcolumn, rfl⟩

/-- The entry of a table with the given label and columns. -/
def entryOf (label : Option String) (columns : List String) : TableEntry :=
  ⟨label, NameSet.ofNames (columns.map Text.lowerAscii)⟩

/-- A table is added exactly when all names are plain identifiers and there is a column. -/
theorem insertTable_eq_ok {w w' : Whitelist} {name : String} {label : Option String}
    {columns : List String} : w.insertTable name label columns = .ok w' ↔
      Dialect.isPlainIdentifier name = true ∧
        (∀ column ∈ columns, Dialect.isPlainIdentifier column = true) ∧ columns ≠ [] ∧
          w' = ⟨w.tables.insert (Text.lowerAscii name) (entryOf label columns)⟩ := by
  unfold insertTable entryOf
  constructor
  · intro h
    split at h
    · simp at h
    · rename_i table htable
      obtain ⟨hname, rfl⟩ := normalize_eq_ok.1 htable
      split at h
      · simp at h
      · simp at h
      · rename_i stored hne hstored
        obtain ⟨hcolumns, rfl⟩ := mapM_normalize_eq_ok.1 hstored
        refine ⟨hname, hcolumns, ?_, (Except.ok.inj h).symm⟩
        rintro rfl
        exact hne rfl
  · rintro ⟨hname, hcolumns, hne, rfl⟩
    rw [normalize_eq_ok.2 ⟨hname, rfl⟩, mapM_normalize_eq_ok.2 ⟨hcolumns, rfl⟩]
    cases columns with
    | nil => exact absurd rfl hne
    | cons column columns => rfl

/-! ## Whitelists that can be built -/

/-- The whitelists that can be built: tables are added one by one to the empty one. -/
inductive Built : Whitelist → Prop
  | empty : Built empty
  | insert {w w' : Whitelist} {name : String} {label : Option String} {columns : List String}
      (built : Built w) (added : w.insertTable name label columns = .ok w') : Built w'

/-- The tables of one more section are added before those of the rest. -/
theorem insertSections_cons {w w' : Whitelist} {s : Section} {rest : List Section} :
    w.insertSections (s :: rest) = .ok w' ↔ ∃ next,
      w.insertTable s.name s.label s.columns = .ok next ∧ next.insertSections rest = .ok w' := by
  rw [insertSections]
  cases w.insertTable s.name s.label s.columns <;> simp

theorem Built.insertSections {w w' : Whitelist} (hw : w.Built) {sections : List Section}
    (h : w.insertSections sections = .ok w') : w'.Built := by
  induction sections generalizing w with
  | nil =>
    obtain rfl := Except.ok.inj h
    exact hw
  | cons s rest ih =>
    obtain ⟨next, hnext, h⟩ := insertSections_cons.1 h
    exact ih (hw.insert hnext) h

theorem built_ofSections {sections : List Section} {w : Whitelist} (h : ofSections sections = .ok w) :
    w.Built :=
  Built.empty.insertSections h

theorem built_ofToml {text : String} {w : Whitelist} (h : ofToml text = .ok w) : w.Built := by
  unfold ofToml at h
  split at h
  · simp at h
  · exact built_ofSections h

theorem built_builtin : builtin.Built := by
  unfold builtin
  cases h : ofSections builtinSections with
  | ok w => exact built_ofSections h
  | error e => exact .empty

/-! ## Stored names -/

/-- A name in the form in which names are looked up. -/
def IsNormal (name : String) : Prop :=
  Dialect.isPlainIdentifier name = true ∧ Text.lowerAscii name = name

theorem isNormal_lowerAscii {name : String} (h : Dialect.isPlainIdentifier name = true) :
    IsNormal (Text.lowerAscii name) := by
  rw [IsNormal, Dialect.isPlainIdentifier_lowerAscii]
  exact ⟨h, Text.lowerAscii_lowerAscii name⟩

/-- Every stored table has columns, and all stored names are in the form that is looked up. -/
structure Normalized (w : Whitelist) : Prop where
  table : ∀ entry ∈ w.tables.entries, IsNormal entry.1
  column : ∀ entry ∈ w.tables.entries, ∀ column ∈ entry.2.columns.names, IsNormal column
  nonempty : ∀ entry ∈ w.tables.entries, entry.2.columns.names ≠ []

theorem Built.normalized {w : Whitelist} (h : w.Built) : w.Normalized := by
  induction h with
  | empty => constructor <;> exact fun entry hentry => absurd hentry List.not_mem_nil
  | @insert w w' name label columns _ added ih =>
    obtain ⟨hname, hcolumns, hne, rfl⟩ := insertTable_eq_ok.1 added
    have hstored : ∀ column, column ∈ (entryOf label columns).columns.names ↔
        ∃ written ∈ columns, Text.lowerAscii written = column := by
      intro column
      rw [entryOf, NameSet.mem_ofNames, List.mem_map]
    constructor
    · intro entry hentry
      rcases NameMap.mem_insertEntry hentry with rfl | hold
      · exact isNormal_lowerAscii hname
      · exact ih.table entry hold
    · intro entry hentry column hcolumn
      rcases NameMap.mem_insertEntry hentry with rfl | hold
      · obtain ⟨written, hwritten, rfl⟩ := (hstored column).1 hcolumn
        exact isNormal_lowerAscii (hcolumns written hwritten)
      · exact ih.column entry hold column hcolumn
    · intro entry hentry
      rcases NameMap.mem_insertEntry hentry with rfl | hold
      · obtain ⟨written, hwritten⟩ := List.exists_mem_of_ne_nil columns hne
        exact List.ne_nil_of_mem ((hstored _).2 ⟨written, hwritten, rfl⟩)
      · exact ih.nonempty entry hold

theorem Built.wellFormed {w : Whitelist} (h : w.Built) : w.WellFormed :=
  fun entry hentry => (h.normalized.table entry hentry).1

theorem wellFormed_ofSections {sections : List Section} {w : Whitelist}
    (h : ofSections sections = .ok w) : w.WellFormed :=
  (built_ofSections h).wellFormed

/-- A whitelist that was read from a document is well formed. -/
theorem wellFormed_ofToml {text : String} {w : Whitelist} (h : ofToml text = .ok w) : w.WellFormed :=
  (built_ofToml h).wellFormed

theorem wellFormed_builtin : builtin.WellFormed :=
  built_builtin.wellFormed

/-- A column that may be used is a plain identifier. -/
theorem Built.isPlainIdentifier_column {w : Whitelist} (hw : w.Built) {table column : String}
    (h : w.allowsColumn table column = true) : Dialect.isPlainIdentifier column = true := by
  unfold allowsColumn at h
  split at h
  · rename_i entry hentry
    obtain ⟨before, after, heq, -⟩ := List.lookup_eq_some_iff.1 hentry
    rw [← Dialect.isPlainIdentifier_lowerAscii]
    refine (hw.normalized.column (Text.lowerAscii table, entry) ?_ _ (NameMap.contains_iff.1 h)).1
    rw [heq]
    exact List.mem_append_right _ List.mem_cons_self
  · simp at h

end Whitelist

end ReportSql
