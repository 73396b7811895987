import ReportSql.Proofs.Whitelist

/-!
# What a whitelist allows

The sections of a document are added to the empty whitelist one by one, in the order of their names.
Names are compared without regard to ASCII case only afterwards, so several sections may be about one
table; each of them then replaces the one before it. A table may be used when it has a section, and
its columns are those of the last one.

## Main definitions

* `Whitelist.sectionOf?` - the section that counts for a table
* `Whitelist.setTable` - adds or replaces a table in place
* `Whitelist.Reflects` - what a whitelist allows, in terms of sections

## Main results

* `Whitelist.table?_insertSections` - the entries of a whitelist after several sections
* `Whitelist.run_setTable` - the program in place and what it computes
* `Whitelist.ofToml_reflects` - what the whitelist of a document allows
-/

namespace ReportSql

namespace Whitelist

/-! ## Sections of a table -/

deriving instance DecidableEq for Section

/-- A section is about a table when it has its name, in any ASCII case. -/
def Section.named (s : Section) (table : String) : Bool :=
  Text.sameIgnoringCase s.name table

/-- A section lists a column when it has its name, in any ASCII case. -/
def Section.lists (s : Section) (column : String) : Bool :=
  s.columns.any (Text.sameIgnoringCase · column)

/-- The entry of the table that a section is about. -/
def Section.entry (s : Section) : TableEntry :=
  entryOf s.label s.columns

/-- The section that counts for a table: the last one about it. -/
def sectionOf? (sections : List Section) (table : String) : Option Section :=
  sections.reverse.find? (·.named table)

variable {sections : List Section} {s : Section} {w w' : Whitelist}

theorem Section.named_iff {table : String} :
    s.named table = true ↔ Text.lowerAscii table = Text.lowerAscii s.name := by
  rw [Section.named, Text.sameIgnoringCase, beq_iff_eq, eq_comm]

theorem Section.named_self : s.named s.name = true :=
  Section.named_iff.2 rfl

theorem Section.lists_iff {column : String} :
    s.entry.columns.contains (Text.lowerAscii column) = true ↔ s.lists column = true := by
  rw [NameMap.contains_iff, Section.entry, entryOf, NameSet.mem_ofNames, List.mem_map,
    Section.lists, List.any_eq_true]
  simp only [Text.sameIgnoringCase, beq_iff_eq]

theorem sectionOf?_eq_some {table : String} (h : sectionOf? sections table = some s) :
    s ∈ sections ∧ s.named table = true := by
  have hfind : sections.reverse.find? (fun s : Section => s.named table) = some s := h
  have hnamed := List.find?_some hfind
  exact ⟨List.mem_reverse.1 (List.mem_of_find?_eq_some hfind), hnamed⟩

theorem exists_sectionOf? {table : String} :
    (∃ s, sectionOf? sections table = some s) ↔ ∃ s ∈ sections, s.named table = true := by
  rw [← Option.isSome_iff_exists, sectionOf?, List.find?_isSome]
  simp only [List.mem_reverse]

theorem sectionOf?_cons (s : Section) (rest : List Section) (table : String) :
    sectionOf? (s :: rest) table =
      (sectionOf? rest table).or (if s.named table then some s else none) := by
  rw [sectionOf?, List.reverse_cons, List.find?_append, List.find?_singleton]
  rfl

theorem sectionOf?_congr {table table' : String}
    (h : Text.lowerAscii table = Text.lowerAscii table') :
    sectionOf? sections table = sectionOf? sections table' := by
  have hnamed : (fun s : Section => s.named table) = (·.named table') := by
    funext s
    rw [Section.named, Section.named, Text.sameIgnoringCase, Text.sameIgnoringCase, h]
  rw [sectionOf?, sectionOf?, hnamed]

section Sorted

variable {table : String}

theorem sectionOf?_greatest (hsorted : sections.Pairwise (·.name < ·.name))
    (h : sectionOf? sections table = some s) :
    ∀ other ∈ sections, other.named table = true → other.name ≤ s.name := by
  induction sections with
  | nil => exact fun other hother => absurd hother List.not_mem_nil
  | cons first rest ih =>
    obtain ⟨hfirst, hrest⟩ := List.pairwise_cons.1 hsorted
    intro other hother hnamed
    rw [sectionOf?_cons] at h
    cases hlast : sectionOf? rest table with
    | some last =>
      rw [hlast, Option.some_or] at h
      obtain rfl := Option.some.inj h
      rcases List.mem_cons.1 hother with rfl | hother
      · exact le_of_lt (hfirst last (sectionOf?_eq_some hlast).1)
      · exact ih hrest hlast other hother hnamed
    | none =>
      -- no later section is about the table, so only the first one can be
      rcases List.mem_cons.1 hother with rfl | hother
      · rw [hlast, Option.none_or, if_pos hnamed] at h
        rw [Option.some.inj h]
      · obtain ⟨last, hsome⟩ := exists_sectionOf?.2 ⟨other, hother, hnamed⟩
        rw [hlast] at hsome
        exact absurd hsome (Option.some_ne_none last).symm

/-- Of sections in increasing order of their names the one with the greatest name counts. -/
theorem sectionOf?_eq_some_iff (hsorted : sections.Pairwise (·.name < ·.name)) :
    sectionOf? sections table = some s ↔ s ∈ sections ∧ s.named table = true ∧
      ∀ other ∈ sections, other.named table = true → other.name ≤ s.name := by
  constructor
  · intro h
    exact ⟨(sectionOf?_eq_some h).1, (sectionOf?_eq_some h).2, sectionOf?_greatest hsorted h⟩
  · rintro ⟨hmem, hnamed, hgreatest⟩
    obtain ⟨last, hlast⟩ := exists_sectionOf?.2 ⟨s, hmem, hnamed⟩
    obtain ⟨hmem', hnamed'⟩ := sectionOf?_eq_some hlast
    have hname : last.name = s.name :=
      le_antisymm (hgreatest last hmem' hnamed') (sectionOf?_greatest hsorted hlast s hmem hnamed)
    have hnodup : (sections.map (·.name)).Nodup :=
      List.pairwise_map.2 (hsorted.imp fun hlt => ne_of_lt hlt)
    rw [hlast, List.inj_on_of_nodup_map hnodup hmem' hmem hname]

end Sorted

/-! ## The entries of a whitelist -/

theorem table?_insertTable {label : Option String} {name : String} {columns : List String}
    (h : w.insertTable name label columns = .ok w') (table : String) :
    w'.table? table = if Text.lowerAscii table = Text.lowerAscii name then
      some (entryOf label columns) else w.table? table := by
  obtain ⟨-, -, -, rfl⟩ := insertTable_eq_ok.1 h
  exact NameMap.get?_insert _ _ _ _

/-- The entry of a table comes from the section that counts, and else it is the old one. -/
theorem table?_insertSections (h : w.insertSections sections = .ok w') (table : String) :
    w'.table? table = ((sectionOf? sections table).map Section.entry).or (w.table? table) := by
  induction sections generalizing w with
  | nil =>
    obtain rfl := Except.ok.inj h
    rfl
  | cons s rest ih =>
    obtain ⟨next, hnext, h⟩ := insertSections_cons.1 h
    rw [ih h, table?_insertTable hnext, sectionOf?_cons, Option.map_or, Option.or_assoc]
    by_cases hnamed : s.named table = true
    · rw [if_pos hnamed, if_pos (Section.named_iff.1 hnamed)]
      rfl
    · rw [if_neg hnamed, if_neg fun hname => hnamed (Section.named_iff.2 hname)]
      rfl

theorem table?_ofSections (h : ofSections sections = .ok w) (table : String) :
    w.table? table = (sectionOf? sections table).map Section.entry := by
  rw [table?_insertSections h]
  exact Option.or_none

/-! ## What is allowed -/

/-- What a whitelist allows, in terms of the sections that it was built from. -/
structure Reflects (w : Whitelist) (sections : List Section) : Prop where
  /-- A table may be used when some section is about it. -/
  table : ∀ table, w.allowsTable table = true ↔ ∃ s ∈ sections, s.named table = true
  /-- A column of a table may be used when the section that counts lists it. -/
  column : ∀ table column, w.allowsColumn table column = true ↔
    ∃ s, sectionOf? sections table = some s ∧ s.lists column = true
  /-- All that sections list may be used just when none of them loses a column to a later one. -/
  complete : (∀ table column, w.allowsColumn table column = true ↔
      ∃ s ∈ sections, s.named table = true ∧ s.lists column = true) ↔
    ∀ s ∈ sections, ∀ column ∈ s.columns,
      ∃ last, sectionOf? sections s.name = some last ∧ last.lists column = true

theorem allowsTable_iff (h : ofSections sections = .ok w) (table : String) :
    w.allowsTable table = true ↔ ∃ s ∈ sections, s.named table = true := by
  rw [allowsTable, table?_ofSections h, Option.isSome_map, Option.isSome_iff_exists]
  exact exists_sectionOf?

theorem allowsColumn_iff (h : ofSections sections = .ok w) (table column : String) :
    w.allowsColumn table column = true ↔
      ∃ s, sectionOf? sections table = some s ∧ s.lists column = true := by
  rw [allowsColumn, table?_ofSections h]
  cases hsection : sectionOf? sections table with
  | none => simp
  | some s =>
    rw [Option.map_some]
    show s.entry.columns.contains (Text.lowerAscii column) = true ↔ _
    rw [Section.lists_iff]
    simp

theorem Section.lists_of_mem {column : String} (h : column ∈ s.columns) : s.lists column = true :=
  List.any_eq_true.2 ⟨column, h, beq_self_eq_true _⟩

/-- Sections about a table list a column together just when the one that counts does. -/
theorem complete_iff {sections : List Section} : (∀ table column,
      (∃ s, sectionOf? sections table = some s ∧ s.lists column = true) ↔
        ∃ s ∈ sections, s.named table = true ∧ s.lists column = true) ↔
    ∀ s ∈ sections, ∀ column ∈ s.columns,
      ∃ last, sectionOf? sections s.name = some last ∧ last.lists column = true := by
  constructor
  · intro h s hs column hcolumn
    exact (h s.name column).2 ⟨s, hs, Section.named_self, Section.lists_of_mem hcolumn⟩
  · intro h table column
    constructor
    · rintro ⟨s, hlast, hlists⟩
      obtain ⟨hmem, hnamed⟩ := sectionOf?_eq_some hlast
      exact ⟨s, hmem, hnamed, hlists⟩
    · rintro ⟨s, hs, hnamed, hlists⟩
      obtain ⟨written, hwritten, hsame⟩ := List.any_eq_true.1 hlists
      obtain ⟨last, hlast, hlastLists⟩ := h s hs written hwritten
      rw [sectionOf?_congr (Section.named_iff.1 hnamed)]
      refine ⟨last, hlast, ?_⟩
      rw [← Section.lists_iff] at hlastLists ⊢
      rwa [← beq_iff_eq.1 hsame]

/-- Sections with names that differ in more than case lose nothing. -/
theorem complete_of_nodup (hnodup : (sections.map (Text.lowerAscii ·.name)).Nodup) :
    ∀ s ∈ sections, ∀ column ∈ s.columns,
      ∃ last, sectionOf? sections s.name = some last ∧ last.lists column = true := by
  intro s hs column hcolumn
  obtain ⟨last, hlast⟩ := exists_sectionOf?.2 ⟨s, hs, Section.named_self⟩
  obtain ⟨hmem, hnamed⟩ := sectionOf?_eq_some hlast
  obtain rfl := List.inj_on_of_nodup_map hnodup hs hmem (Section.named_iff.1 hnamed)
  exact ⟨s, hlast, Section.lists_of_mem hcolumn⟩

theorem reflects_ofSections (h : ofSections sections = .ok w) : w.Reflects sections where
  table := allowsTable_iff h
  column := allowsColumn_iff h
  complete := by
    rw [← complete_iff]
    simp only [allowsColumn_iff h]

/-! ## Tables in place -/

/-- Adds or replaces a table in place, after its names were checked. -/
def setTable (name : String) (label : Option String) (columns : List String) :
    EStateM SchemaError Whitelist Unit := do
  let table ← MonadExcept.ofExcept (normalize name)
  let columns ← columns.mapM fun column => MonadExcept.ofExcept (normalize column)
  if columns.isEmpty then throw (.emptyTable table)
  modify fun w => ⟨w.tables.insert table ⟨label, NameSet.ofNames columns⟩⟩

/-- Checks that leave the state alone come to what they come to without a state. -/
theorem run_mapM_ofExcept {ε σ α β : Type} (f : α → Except ε β) (as : List α) (state : σ) :
    (as.mapM fun a => (MonadExcept.ofExcept (f a) : EStateM ε σ β)).run state =
      match as.mapM f with
      | .ok bs => .ok bs state
      | .error e => .error e state := by
  induction as with
  | nil => rfl
  | cons a as ih =>
    rw [List.mapM_cons, List.mapM_cons, EStateM.run_bind]
    cases ha : f a with
    | error e => rfl
    | ok b =>
      show EStateM.run (_ >>= _) state = _
      rw [EStateM.run_bind, ih]
      cases as.mapM f with
      | error e => rfl
      | ok bs => rfl

/-- The program in place fails without a change, or leaves the whitelist with the table. -/
theorem run_setTable (name : String) (label : Option String) (columns : List String)
    (w : Whitelist) : (setTable name label columns).run w =
      match w.insertTable name label columns with
      | .ok w' => .ok () w'
      | .error e => .error e w := by
  unfold setTable insertTable
  rw [EStateM.run_bind]
  cases hname : normalize name with
  | error e => rfl
  | ok table =>
    show EStateM.run (_ >>= _) w = _
    rw [EStateM.run_bind, run_mapM_ofExcept]
    cases hcolumns : columns.mapM normalize with
    | error e => rfl
    | ok stored =>
      cases stored with
      | nil => rfl
      | cons column stored => rfl

/-! ## Documents -/

/-- The sections that a document is read as. -/
def sectionsOfToml? (text : String) : Option (List Section) :=
  (Toml.parseAs? (.record members) text).bind readSections?

theorem ofToml_eq_ok {text : String} : ofToml text = .ok w ↔
    ∃ sections, sectionsOfToml? text = some sections ∧ ofSections sections = .ok w := by
  unfold ofToml
  rw [sectionsOfToml?]
  cases (Toml.parseAs? (.record members) text).bind readSections? with
  | none => simp
  | some sections => simp

theorem name_readSection? {name : String} {value : Json} (h : readSection? name value = some s) :
    s.name = name := by
  unfold readSection? at h
  obtain ⟨members, -, h⟩ := Option.bind_eq_some_iff.1 h
  obtain ⟨label, -, h⟩ := Option.bind_eq_some_iff.1 h
  obtain ⟨columns, -, h⟩ := Option.bind_eq_some_iff.1 h
  obtain rfl := Option.some.inj h
  rfl

theorem names_readSections {entries : List (String × Json)}
    (h : (entries.mapM fun (name, value) => readSection? name value) = some sections) :
    sections.map (·.name) = entries.map (·.1) := by
  induction entries generalizing sections with
  | nil =>
    rw [List.mapM_nil] at h
    obtain rfl := Option.some.inj h
    rfl
  | cons entry entries ih =>
    rw [List.mapM_cons] at h
    obtain ⟨first, hfirst, h⟩ := Option.bind_eq_some_iff.1 h
    obtain ⟨rest, hrest, h⟩ := Option.bind_eq_some_iff.1 h
    obtain rfl := Option.some.inj h
    rw [List.map_cons, List.map_cons, ih hrest, name_readSection? hfirst]

theorem sorted_readSections? {document : Json} (h : readSections? document = some sections) :
    sections.Pairwise (·.name < ·.name) := by
  unfold readSections? at h
  obtain ⟨members, -, h⟩ := Option.bind_eq_some_iff.1 h
  split at h
  · obtain rfl := Option.some.inj h
    exact .nil
  · rename_i written _
    have hnames := names_readSections h
    rw [← List.pairwise_map (f := Section.name) (R := (· < ·)), hnames]
    exact NameMap.names_sorted _
  · simp at h

theorem sorted_sectionsOfToml? {text : String} (h : sectionsOfToml? text = some sections) :
    sections.Pairwise (·.name < ·.name) := by
  obtain ⟨document, -, hread⟩ := Option.bind_eq_some_iff.1 h
  exact sorted_readSections? hread

/-- A table that cannot be set leaves the whitelist as it was. -/
theorem setTable_error {name : String} {label : Option String} {columns : List String}
    {before after : Whitelist} {e : SchemaError}
    (h : (setTable name label columns).run before = .error e after) : after = before := by
  rw [run_setTable] at h
  split at h
  · simp at h
  · exact (EStateM.Result.error.inj h).2.symm

/-- What the whitelist of a document allows is what its sections list, of several sections about one
table the one with the greatest name. All stored names are in the form that is looked up, and a table
that cannot be set in place changes nothing. -/
theorem ofToml_reflects {text : String} (h : ofToml text = .ok w) :
    (∃ sections, sectionsOfToml? text = some sections ∧ sections.Pairwise (·.name < ·.name) ∧
      w.Reflects sections ∧
      ∀ table s, sectionOf? sections table = some s ↔ s ∈ sections ∧ s.named table = true ∧
        ∀ other ∈ sections, other.named table = true → other.name ≤ s.name) ∧
    w.Normalized ∧
    ∀ name label columns before e after,
      (setTable name label columns).run before = .error e after → after = before := by
  refine ⟨?_, (built_ofToml h).normalized, fun _ _ _ _ _ _ => setTable_error⟩
  obtain ⟨sections, hsections, hof⟩ := ofToml_eq_ok.1 h
  have hsorted := sorted_sectionsOfToml? hsections
  exact ⟨sections, hsections, hsorted, reflects_ofSections hof,
    fun table s => sectionOf?_eq_some_iff hsorted⟩

/-- A document with two sections about one table. -/
def repeatedTable : String :=
  "[tables.Course]\ncolumns = [\"id\"]\n[tables.course]\ncolumns = [\"name\"]\n"

/-- The sections of that document. -/
def repeatedSections : List Section :=
  [⟨"Course", none, ["id"]⟩, ⟨"course", none, ["name"]⟩]

theorem sections_repeatedTable : sectionsOfToml? repeatedTable = some repeatedSections := by
  decide +kernel

theorem exists_ofToml_repeatedTable : ∃ w, ofToml repeatedTable = .ok w ∧
    ofSections repeatedSections = .ok w := by
  obtain ⟨w, hw⟩ : ∃ w, ofSections repeatedSections = .ok w := by
    decide +kernel
  exact ⟨w, ofToml_eq_ok.2 ⟨repeatedSections, sections_repeatedTable, hw⟩, hw⟩

/-- The section that counts lists the second column only. -/
theorem sectionOf?_repeatedSections : sectionOf? repeatedSections "course" =
    some ⟨"course", none, ["name"]⟩ := by
  simp [sectionOf?, repeatedSections, Section.named, Text.sameIgnoringCase_eq]

/-- The document is read, and its whitelist allows what the later section lists. -/
theorem ofToml_repeatedTable : ∃ w sections, ofToml repeatedTable = .ok w ∧
    sectionsOfToml? repeatedTable = some sections ∧ w.Reflects sections ∧ w.Normalized ∧
    w.allowsColumn "course" "NAME" = true := by
  obtain ⟨w, hw, hof⟩ := exists_ofToml_repeatedTable
  have hlists : Section.lists ⟨"course", none, ["name"]⟩ "NAME" = true := by
    simp [Section.lists, Text.sameIgnoringCase_eq]
  have hallows : w.allowsColumn "course" "NAME" = true :=
    (allowsColumn_iff hof "course" "NAME").2 ⟨_, sectionOf?_repeatedSections, hlists⟩
  obtain ⟨⟨sections, hsections, -, hreflects, -⟩, hnormalized, -⟩ := ofToml_reflects hw
  exact ⟨w, sections, hw, hsections, hreflects, hnormalized, hallows⟩

/-- The first of two sections about one table is replaced, and its column with it. -/
theorem repeatedTable_loses : ∃ w sections, ofToml repeatedTable = .ok w ∧
    sectionsOfToml? repeatedTable = some sections ∧
    (∃ s ∈ sections, s.named "course" = true ∧ s.lists "id" = true) ∧
    w.allowsColumn "course" "id" = false := by
  obtain ⟨w, hw, hof⟩ := exists_ofToml_repeatedTable
  have hfirst : ∃ s ∈ repeatedSections, s.named "course" = true ∧ s.lists "id" = true := by
    simp [repeatedSections, Section.named, Section.lists, Text.sameIgnoringCase_eq]
  have hlists : Section.lists ⟨"course", none, ["name"]⟩ "id" = false := by
    simp [Section.lists, Text.sameIgnoringCase_eq]
  refine ⟨w, repeatedSections, hw, sections_repeatedTable, hfirst, ?_⟩
  rw [Bool.eq_false_iff]
  intro hallows
  obtain ⟨s, hs, hsLists⟩ := (allowsColumn_iff hof "course" "id").1 hallows
  obtain rfl := Option.some.inj (sectionOf?_repeatedSections.symm.trans hs)
  exact Bool.false_ne_true (hlists.symm.trans hsLists)

end Whitelist

end ReportSql
