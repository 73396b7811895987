import ReportSql.Proofs.Statement.Tables
import ReportSql.Proofs.Validation

/-!
# FROM clauses of validated statements

A table that the scan finds is whitelisted. Of the names in a FROM clause all are
found but those that stand after a join and a comma, after an alias that is a
reserved word, around spaced points or after the word DISTINCT.

## Main results

* `Validator.validate_fromClause` - when the names of a FROM clause are all found and allowed
-/

namespace ReportSql

namespace Validator

variable {v : Validator} {sql : String} {s : Statement}

theorem validate_foundIn (h : v.validate sql = .ok s) :
    (Statement.scanTablesIn [false] none s.tokens).FoundIn s.mentions := by
  obtain ⟨-, -, htables⟩ := validate_eq_ok h
  obtain ⟨hreadable, -⟩ := checkTables_eq_ok.1 htables
  exact ⟨hreadable, fun m hm => hm⟩

theorem validate_allows (h : v.validate sql = .ok s) {m : TableMention} (hm : m ∈ s.mentions) :
    v.allows m = true := by
  obtain ⟨-, -, htables⟩ := validate_eq_ok h
  exact (checkTables_eq_ok.1 htables).2 m hm

/-- The names of a FROM clause of an accepted text are all found and allowed exactly when those that
are passed over are found elsewhere. -/
theorem validate_fromClause (v : Validator) (sql : String) (s : Statement)
    (h : v.validate sql = .ok s) (c : FromClause) (hc : c.StandsIn s.tokens) :
    (∀ n ∈ c.tables.names, ∃ m ∈ s.mentions,
        m.name = n.text ∧ m.braced = n.isBraced ∧ v.allows m = true) ↔
      ∀ n ∈ c.missed, n.MentionedIn s.mentions := by
  constructor
  · intro hnames n hn
    obtain ⟨m, hm, htext, hbraced, -⟩ := hnames n (c.tables.missed_subset _ hn)
    exact ⟨m, hm, htext, hbraced⟩
  · intro hmissed n hn
    have hfound : n.MentionedIn s.mentions := by
      rcases FromClause.mentionedIn_or_missed (validate_foundIn h) hc n hn with hfound | hn
      · exact hfound
      · exact hmissed n hn
    obtain ⟨m, hm, htext, hbraced⟩ := hfound
    exact ⟨m, hm, htext, hbraced, validate_allows h hm⟩

/-- A list in parentheses and a derived table that is joined. -/
def nestedClause : FromClause where
  select := ⟨.word "SELECT" none, by decide +kernel⟩
  fields := ⟨[.blank .space, .number "1" false, .blank .space], .of_forall (by decide)⟩
  keyword := ⟨.word "FROM" none, by decide +kernel⟩
  tables :=
    let empty : Gap := ⟨[], by decide⟩
    let space : Gap := ⟨[.blank .space], by decide⟩
    .more
      (.group space
        (.more (.table empty (.braced "course") (.bare space "c" none (by decide +kernel))) .done empty
          (.last (.table space (.dotted "grade" none [] (by decide +kernel)) .absent) .done))
        empty .absent)
      .done empty
      (.last (.table space (.dotted "membership" none [] (by decide +kernel)) .absent)
        (.join [] space ⟨.word "JOIN" none, by decide +kernel⟩
          (.derived space
            ⟨[.word "SELECT" none, .blank .space, .number "1" false], .of_forall (by decide)⟩
            (by decide +kernel) (.bare space "x" none (by decide +kernel)))
          (.columns space ⟨.word "USING" none, by decide +kernel⟩
            ⟨[.blank .space, .punctuation .openParen, .word "id" none, .punctuation .closeParen],
              .other (by decide) (by decide) (.enclosed (.word _ _ .nil) .nil)⟩)
          .done))

theorem validate_fromClause_nested : ∃ s,
    (Validator.mk Whitelist.builtin .postgres "").validate
      "SELECT 1 FROM (\x7bcourse\x7d c, grade), membership JOIN (SELECT 1) x USING (id)" = .ok s ∧
      nestedClause.StandsIn s.tokens ∧
      ∀ n ∈ nestedClause.tables.names, ∃ m ∈ s.mentions, m.name = n.text ∧
        m.braced = n.isBraced ∧ (Validator.mk Whitelist.builtin .postgres "").allows m = true := by
  have hread : ∃ s, (Validator.mk Whitelist.builtin .postgres "").validate
      "SELECT 1 FROM (\x7bcourse\x7d c, grade), membership JOIN (SELECT 1) x USING (id)" = .ok s ∧
        s.tokens = nestedClause.tokens := by
    decide +kernel
  obtain ⟨s, hs, htokens⟩ := hread
  have hstands : nestedClause.StandsIn s.tokens := ⟨[], [], by simp [htokens], by decide⟩
  have hmissed : nestedClause.missed = [] := by decide +kernel
  refine ⟨s, hs, hstands, (validate_fromClause _ _ s hs nestedClause hstands).2 ?_⟩
  rw [hmissed]
  exact fun n hn => absurd hn List.not_mem_nil

/-- A join between two references hides the second one. -/
def joinedClause : FromClause where
  select := ⟨.word "SELECT" none, by decide +kernel⟩
  fields := ⟨[.blank .space, .word "s" none, .punctuation .period, .word "v" none, .blank .space],
    .of_forall (by decide)⟩
  keyword := ⟨.word "FROM" none, by decide +kernel⟩
  tables :=
    let space : Gap := ⟨[.blank .space], by decide⟩
    .more (.table space (.braced "user") (.bare space "u" none (by decide +kernel)))
      (.join [] space ⟨.word "JOIN" none, by decide +kernel⟩
        (.table space (.braced "course") (.bare space "c" none (by decide +kernel)))
        (.on space ⟨.word "ON" none, by decide +kernel⟩
          ⟨[.blank .space, .word "c" none, .punctuation .period, .word "id" none, .blank .space,
            .operator "=", .blank .space, .word "u" none, .punctuation .period, .word "id" none],
            .of_forall (by decide)⟩)
        .done)
      ⟨[], by decide⟩
      (.last (.table space (.dotted "secrets" none [] (by decide +kernel))
        (.bare space "s" none (by decide +kernel))) .done)

/-- A reference after a join is not found. -/
theorem validate_fromClause_joined : ∃ s,
    (Validator.mk Whitelist.builtin .postgres "").validate
      "SELECT s.v FROM \x7buser\x7d u JOIN \x7bcourse\x7d c ON c.id = u.id, secrets s" = .ok s ∧
      joinedClause.StandsIn s.tokens ∧
      ∃ n ∈ joinedClause.tables.names, n.text = "secrets" ∧ ¬ n.MentionedIn s.mentions := by
  have hread : ∃ s, (Validator.mk Whitelist.builtin .postgres "").validate
      "SELECT s.v FROM \x7buser\x7d u JOIN \x7bcourse\x7d c ON c.id = u.id, secrets s" = .ok s ∧
        s.tokens = joinedClause.tokens := by
    decide +kernel
  obtain ⟨s, hs, htokens⟩ := hread
  refine ⟨s, hs, ⟨[], [], by simp [htokens], by decide⟩, .dotted "secrets" none [] (by decide +kernel),
    by simp [joinedClause, TableList.names, TableSource.names], rfl, ?_⟩
  rintro ⟨m, hm, hname, -⟩
  unfold Statement.mentions Statement.scanTables at hm
  rw [htokens] at hm
  have hnames : ∀ m ∈ (Statement.scanTablesIn [false] none joinedClause.tokens).mentions,
      m.name ≠ "secrets" := by decide +kernel
  exact hnames m hm hname

end Validator

end ReportSql
