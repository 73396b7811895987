import ReportSql.Proofs.Compile.Report
import ReportSql.Proofs.Whitelist

/-!
# Tables and columns of compiled reports

A report is compiled only when its tables are whitelisted and each of its columns
belongs to the table behind its alias.

## Main results

* `Compiler.resolveTables_eq_ok` - the tables of a report under their aliases
* `Compiler.checkColumn_eq_ok` - a column belongs to the table behind its alias
-/

namespace ReportSql

namespace Compiler

variable {c : Compiler}

/-- A whitelisted table under a plain alias. -/
structure Resolved (c : Compiler) (t : AliasedTable) : Prop where
  table : ∃ table, c.whitelist.allowsTable table = true ∧ t.table = Text.lowerAscii table
  name : Dialect.isPlainIdentifier t.name = true

theorem resolveTablesAfter_eq_ok {seen : List String} {specs : List TableSpec}
    {tables : List AliasedTable} (h : c.resolveTablesAfter seen specs = .ok tables) :
    (∀ t ∈ tables, c.Resolved t ∧ t.name ∉ seen) ∧ (tables.map (·.name)).Nodup := by
  induction specs generalizing seen tables with
  | nil =>
    obtain rfl := Except.ok.inj h
    simp
  | cons spec rest ih =>
    unfold resolveTablesAfter at h
    split at h
    · simp at h
    · rename_i hallowed
      obtain ⟨⟨⟩, hplain, h⟩ := bind_eq_ok.1 h
      split at h
      · simp at h
      · rename_i hseen
        obtain ⟨more, hmore, h⟩ := bind_eq_ok.1 h
        obtain rfl := Except.ok.inj h
        obtain ⟨hresolved, hnodup⟩ := ih hmore
        refine ⟨fun t ht => ?_, List.nodup_cons.2 ⟨fun hname => ?_, hnodup⟩⟩
        · rcases List.mem_cons.1 ht with rfl | ht
          · refine ⟨⟨⟨spec.table, by simpa using hallowed, rfl⟩, checkIdentifier_eq_ok.1 hplain⟩, ?_⟩
            simpa using hseen
          · obtain ⟨hresolved, hnew⟩ := hresolved t ht
            exact ⟨hresolved, fun hold => hnew (List.mem_cons_of_mem _ hold)⟩
        · obtain ⟨t, ht, hname⟩ := List.mem_map.1 hname
          exact (hresolved t ht).2 (hname ▸ List.mem_cons_self)

theorem resolveTables_eq_ok {specs : List TableSpec} {tables : List AliasedTable}
    (h : c.resolveTables specs = .ok tables) :
    (∀ t ∈ tables, c.Resolved t) ∧ (tables.map (·.name)).Nodup := by
  unfold resolveTables at h
  split at h
  · simp at h
  · obtain ⟨hresolved, hnodup⟩ := resolveTablesAfter_eq_ok h
    exact ⟨fun t ht => (hresolved t ht).1, hnodup⟩

/-- A table of a report as it is known to the compiler. -/
def aliased (spec : TableSpec) : AliasedTable :=
  ⟨spec.name, Text.lowerAscii spec.table⟩

theorem resolveTablesAfter_map {seen : List String} {specs : List TableSpec}
    {tables : List AliasedTable} (h : c.resolveTablesAfter seen specs = .ok tables) :
    tables = specs.map aliased := by
  induction specs generalizing seen tables with
  | nil => exact (Except.ok.inj h).symm
  | cons spec rest ih =>
    unfold resolveTablesAfter at h
    split at h
    · simp at h
    · obtain ⟨⟨⟩, -, h⟩ := bind_eq_ok.1 h
      split at h
      · simp at h
      · obtain ⟨more, hmore, h⟩ := bind_eq_ok.1 h
        obtain rfl := Except.ok.inj h
        rw [ih hmore]
        rfl

theorem resolveTables_map {specs : List TableSpec} {tables : List AliasedTable}
    (h : c.resolveTables specs = .ok tables) : tables = specs.map aliased := by
  unfold resolveTables at h
  split at h
  · simp at h
  · exact resolveTablesAfter_map h

/-- A column belongs to the table behind its alias. -/
theorem checkColumn_eq_ok {tables : List AliasedTable} {column : ColumnRef}
    (h : c.checkColumn tables column = .ok ()) :
    ∃ t ∈ tables, t.name = column.table ∧ c.whitelist.allowsColumn t.table column.column = true := by
  unfold checkColumn at h
  split at h
  · simp at h
  · rename_i t hfind
    split at h
    · rename_i hallowed
      have hname := List.find?_some hfind
      exact ⟨t, List.mem_of_find?_eq_some hfind, by simpa using hname, hallowed⟩
    · simp at h

end Compiler

end ReportSql
