import ReportSql.Proofs.Statement.Pieces
import ReportSql.Proofs.Statement.Reread
import ReportSql.Proofs.Validation.FromClause
import ReportSql.Proofs.Whitelist

/-!
# Tables of rendered statements

A validated statement is rendered as a text. The text is read as its printed
tokens exactly when these stand apart, and then it names the tables that were
validated, behind their prefix, exactly when no piece adds to one of them.

## Main definitions

* `Validator.KeepsTables` - a rendered text that names the validated tables

## Main results

* `Validator.validate_keepsTables` - when the rendered text names the validated tables
-/

namespace ReportSql

namespace Validator

variable {v : Validator} {sql : String} {s : Statement} {tablePrefix : String}

theorem allows_braced {m : TableMention} (h : v.allows m = true) (hbraced : m.braced = true) :
    v.whitelist.allowsTable m.name = true := by
  unfold allows listedName? at h
  rw [hbraced] at h
  exact h

/-- A table in braces is allowed behind the prefix too. -/
theorem allows_expanded {m : TableMention} (h : v.allows m = true) :
    v.allows (m.expanded v.tablePrefix) = true := by
  cases hbraced : m.braced with
  | false =>
    rw [TableMention.expanded, hbraced]
    exact h
  | true =>
    have htable := allows_braced h hbraced
    rw [TableMention.expanded, hbraced]
    unfold allows listedName?
    by_cases hempty : v.tablePrefix = ""
    · rw [hempty]
      simpa using htable
    · -- the prefix is taken off again, in lower case
      have hlower : (Text.lowerAscii (v.tablePrefix ++ m.name)).toList =
          (Text.lowerAscii v.tablePrefix).toList ++ (Text.lowerAscii m.name).toList := by
        rw [Text.lowerAscii_append, String.toList_append]
      simpa [hempty, hlower, Whitelist.allowsTable_lowerAscii] using htable

/-! ## Rendered tables -/

/-- The rendered text names the validated tables, each one behind its prefix and allowed. -/
def KeepsTables (v : Validator) (s : Statement) (tablePrefix : String) : Prop :=
  ∃ tokens, Token.tokenize v.dialect (s.render tablePrefix) = .ok tokens ∧
    Statement.scanTablesIn [false] none tokens = ⟨s.mentions.map (·.expanded tablePrefix), []⟩ ∧
    ∀ m ∈ (Statement.scanTablesIn [false] none tokens).mentions,
      (∃ m' ∈ s.mentions, m = m'.expanded tablePrefix ∧ v.allows m' = true) ∧
        (v.tablePrefix = tablePrefix → v.allows m = true)

theorem validate_render (h : v.validate sql = .ok s) (tablePrefix : String) :
    s.render tablePrefix = Token.textOf (Statement.expand v.dialect tablePrefix s.tokens) := by
  obtain ⟨-, hparse, -⟩ := validate_eq_ok h
  obtain ⟨hdialect, hpredicates, -⟩ := Statement.parse_eq_ok hparse
  rw [Statement.render_eq hpredicates, hdialect]

theorem validate_nameable (h : v.validate sql = .ok s) (hw : v.whitelist.WellFormed)
    (hplain : tablePrefix = "" ∨ Dialect.isPlainIdentifier tablePrefix = true) :
    s.scanTables.Nameable tablePrefix := by
  intro m hm hbraced
  have htable := allows_braced (validate_allows h hm) hbraced
  exact Dialect.isPlainIdentifier_append hplain (hw.isPlainIdentifier htable)

/-- The rendered text of an accepted statement is read as its printed tokens exactly when these stand
apart. Then it names the validated tables exactly when every table is read again, provided that no
keyword of the scan is printed as something else. -/
theorem validate_keepsTables (v : Validator) (sql : String) (s : Statement) (tablePrefix : String)
    (h : v.validate sql = .ok s) (hw : v.whitelist.WellFormed)
    (hplain : tablePrefix = "" ∨ Dialect.isPlainIdentifier tablePrefix = true) :
    (Token.tokenize v.dialect (s.render tablePrefix) =
        .ok (Statement.expand v.dialect tablePrefix s.tokens) ↔
      Token.Separated v.dialect (Statement.expand v.dialect tablePrefix s.tokens)) ∧
    (Token.Separated v.dialect (Statement.expand v.dialect tablePrefix s.tokens) →
      Statement.Unhidden v.dialect s.tokens →
      (v.KeepsTables s tablePrefix ↔
        Statement.TablesUndisturbed v.dialect tablePrefix [false] none s.tokens)) := by
  obtain ⟨-, -, htables⟩ := validate_eq_ok h
  obtain ⟨hreadable, -⟩ := checkTables_eq_ok.1 htables
  have hread : Token.tokenize v.dialect (s.render tablePrefix) =
      .ok (Statement.expand v.dialect tablePrefix s.tokens) ↔
        Token.Separated v.dialect (Statement.expand v.dialect tablePrefix s.tokens) := by
    rw [validate_render h]
    exact Token.tokenize_textOf_iff_separated
  refine ⟨hread, fun hseparated hhidden => ?_⟩
  have hsame := (@Statement.scanTablesIn_expand v.dialect tablePrefix [false] none none s.tokens rfl
    hhidden hreadable (validate_nameable h hw hplain)).same
  -- validation leaves nothing unread
  have hexpanded : (Statement.scanTablesIn [false] none s.tokens).expanded tablePrefix =
      ⟨s.mentions.map (·.expanded tablePrefix), []⟩ := by
    unfold TableScan.expanded
    rw [show (Statement.scanTablesIn [false] none s.tokens).unreadable = [] from hreadable]
    rfl
  rw [hexpanded] at hsame
  rw [← hsame]
  constructor
  · rintro ⟨tokens, htokens, hscan, -⟩
    obtain rfl := Except.ok.inj (htokens.symm.trans (hread.2 hseparated))
    exact hscan
  · intro hscan
    refine ⟨_, hread.2 hseparated, hscan, fun m hm => ?_⟩
    rw [hscan] at hm
    obtain ⟨m', hm', rfl⟩ := List.mem_map.1 hm
    have hallows := validate_allows h hm'
    refine ⟨⟨m', hm', rfl, hallows⟩, ?_⟩
    rintro rfl
    exact allows_expanded hallows

/-- The tokens from the table name of a statement on. -/
def prefixedList : List Token :=
  [.blank .space, .punctuation .openBrace, .word "user" none, .punctuation .closeBrace,
    .blank .space, .word "u" none]

theorem prefixedList_undisturbed : Statement.AllUndisturbed .postgres "m_" 0 prefixedList := by
  have hname : Statement.readName? (Token.skipTrivia prefixedList) =
      some ("user", true, [.blank .space, .word "u" none]) := rfl
  rw [Statement.allUndisturbed_iff, Statement.undisturbed_of_name hname]
  refine ⟨by decide +kernel, fun inner hinner => ?_, fun rest hrest => ?_⟩
  · have hhead : (Token.skipTrivia prefixedList).head? = some (.punctuation .openParen) := by
      rw [hinner]
      rfl
    exact absurd hhead (by decide)
  · have hnone : Statement.afterComma? (Statement.tableRef 0 prefixedList).2 = none := by
      decide +kernel
    rw [hnone] at hrest
    simp at hrest

theorem validate_keepsTables_prefixed : ∃ s,
    (Validator.mk Whitelist.builtin .postgres "m_").validate
      "SELECT u.id FROM \x7buser\x7d u" = .ok s ∧
      (Validator.mk Whitelist.builtin .postgres "m_").KeepsTables s "m_" := by
  have hread : ∃ s, (Validator.mk Whitelist.builtin .postgres "m_").validate
      "SELECT u.id FROM \x7buser\x7d u" = .ok s ∧
        s.tokens = .word "SELECT" none :: .blank .space :: .word "u" none ::
          .punctuation .period :: .word "id" none :: .blank .space :: .word "FROM" none ::
            prefixedList := by
    decide +kernel
  obtain ⟨s, hs, htokens⟩ := hread
  have htables := validate_keepsTables _ _ s "m_" hs Whitelist.wellFormed_builtin
    (Or.inr (by decide))
  refine ⟨s, hs, (htables.2 (htables.1.1 ?_) ?_).2 ?_⟩
  · rw [validate_render hs, htokens]
    decide +kernel
  · rw [htokens]
    simp [prefixedList, Statement.Unhidden, Statement.bracedTable?, Statement.namedPlaceholder?]
    decide +kernel
  · have hlists : Statement.tableLists [false] none s.tokens = [(0, prefixedList)] := by
      rw [htokens]
      decide +kernel
    unfold Statement.TablesUndisturbed
    rw [hlists]
    intro list hlist
    obtain rfl := List.mem_singleton.1 hlist
    exact prefixedList_undisturbed

/-- A word right after a closing brace becomes a part of the table name in print. -/
theorem validate_keepsTables_glued : ∃ s,
    (Validator.mk Whitelist.builtin .postgres "").validate
      "SELECT c.id FROM \x7bcourse\x7d_secret" = .ok s ∧
      ¬ (Validator.mk Whitelist.builtin .postgres "").KeepsTables s "" := by
  have hread : ∃ s, (Validator.mk Whitelist.builtin .postgres "").validate
      "SELECT c.id FROM \x7bcourse\x7d_secret" = .ok s ∧
        s.tokens = [.word "SELECT" none, .blank .space, .word "c" none, .punctuation .period,
          .word "id" none, .blank .space, .word "FROM" none, .blank .space,
          .punctuation .openBrace, .word "course" none, .punctuation .closeBrace,
          .word "_secret" none] := by
    decide +kernel
  obtain ⟨s, hs, htokens⟩ := hread
  refine ⟨s, hs, ?_⟩
  rintro ⟨tokens, hprinted, -, hallowed⟩
  have hsecret : Token.tokenize .postgres (s.render "") =
      .ok [.word "SELECT" none, .blank .space, .word "c" none, .punctuation .period,
        .word "id" none, .blank .space, .word "FROM" none, .blank .space,
        .word "course_secret" none] := by
    rw [validate_render hs, htokens]
    decide +kernel
  obtain rfl := Except.ok.inj (hprinted.symm.trans hsecret)
  have hmention : (⟨"course_secret", none, 0, false⟩ : TableMention) ∈
      (Statement.scanTablesIn [false] none [.word "SELECT" none, .blank .space, .word "c" none,
        .punctuation .period, .word "id" none, .blank .space, .word "FROM" none, .blank .space,
        .word "course_secret" none]).mentions := by decide +kernel
  have hdenied : (Validator.mk Whitelist.builtin .postgres "").allows
      ⟨"course_secret", none, 0, false⟩ = false := by decide +kernel
  rw [(hallowed _ hmention).2 rfl] at hdenied
  exact Bool.noConfusion hdenied

end Validator

end ReportSql
