import ReportSql.Proofs.Token.ReadBack
import ReportSql.Validation

/-!
# Validated statements

What is known of a statement that the validator accepts: where its tokens come
from, how its clauses were found and that its tables are allowed.

## Main results

* `Statement.parse_eq_ok`, `Validator.validate_eq_ok` - the checks an accepted text passed
* `Validator.validate_tokenize_textOf` - when the tokens of an accepted text are read back
  from what they print
-/

namespace ReportSql

namespace Statement

theorem dropTrailingBlanks_isPrefix (tokens : List Token) : dropTrailingBlanks tokens <+: tokens := by
  unfold dropTrailingBlanks
  have hsuffix := List.dropWhile_suffix (l := tokens.reverse) Token.isBlank
  have hprefix := List.reverse_prefix.2 hsuffix
  rwa [List.reverse_reverse] at hprefix

theorem dropTerminator_isPrefix (tokens : List Token) : dropTerminator tokens <+: tokens := by
  have htrimmed := dropTrailingBlanks_isPrefix tokens
  unfold dropTerminator
  dsimp only
  split
  · exact (dropTrailingBlanks_isPrefix _).trans ((List.dropLast_prefix _).trans htrimmed)
  · exact htrimmed

theorem ofTokens_eq_ok {d : Dialect} {tokens : List Token} {s : Statement}
    (h : ofTokens d tokens = .ok s) :
    tokens.all Token.isTrivia = false ∧
      ∃ scan, ClauseScan.run? ⟨0, [], false⟩ 0 tokens = some scan ∧
        s = ⟨d, tokens, scan.found.reverse, scan.setOperation, []⟩ := by
  unfold ofTokens at h
  split at h
  · simp at h
  · rename_i htrivia
    split at h
    · simp at h
    · rename_i scan hrun
      exact ⟨Bool.eq_false_iff.2 htrivia, scan, hrun, (Except.ok.inj h).symm⟩

/-- The tokens of a statement stand at the head of the trimmed text. -/
theorem parse_eq_ok {sql : String} {d : Dialect} {s : Statement} (h : parse sql d = .ok s) :
    s.dialect = d ∧ s.predicates = [] ∧
      (∃ more, Token.tokenize d (Text.trim sql) = .ok (s.tokens ++ more)) ∧
      s.tokens.all Token.isTrivia = false ∧
      ∃ scan, ClauseScan.run? ⟨0, [], false⟩ 0 s.tokens = some scan ∧
        s.clauses = scan.found.reverse ∧ s.setOperation = scan.setOperation := by
  unfold parse at h
  split at h
  · simp at h
  · rename_i tokens htokens
    obtain ⟨htrivia, scan, hrun, rfl⟩ := ofTokens_eq_ok h
    obtain ⟨more, hmore⟩ := dropTerminator_isPrefix tokens
    refine ⟨rfl, rfl, ⟨more, ?_⟩, htrivia, scan, hrun, rfl, rfl⟩
    rw [htokens, hmore]

end Statement

namespace Validator

variable {v : Validator} {sql : String} {s : Statement}

theorem checkTables_eq_ok : v.checkTables s = .ok () ↔
    s.scanTables.unreadable = [] ∧ ∀ m ∈ s.mentions, v.allows m = true := by
  unfold checkTables Statement.mentions
  dsimp only
  cases s.scanTables.unreadable with
  | cons text rest => simp
  | nil =>
    cases hfind : s.scanTables.mentions.find? (!v.allows ·) with
    | none =>
      have hall := List.find?_eq_none.1 hfind
      simpa using hall
    | some m =>
      have hm := List.mem_of_find?_eq_some hfind
      have hnot := List.find?_some hfind
      simp only [reduceCtorEq, false_iff, not_and, not_forall]
      refine fun _ => ⟨m, hm, ?_⟩
      simpa using hnot

/-- The checks that an accepted text passed. -/
theorem validate_eq_ok (h : v.validate sql = .ok s) :
    (∃ tokens, Token.tokenize v.dialect sql = .ok tokens ∧ checkTokens tokens = .ok ()) ∧
      Statement.parse sql v.dialect = .ok s ∧ v.checkTables s = .ok () := by
  unfold validate at h
  split at h
  · simp at h
  · rename_i tokens htokens
    split at h
    · simp at h
    · rename_i hcheck
      split at h
      · simp at h
      · rename_i s' hparse
        split at h
        · simp at h
        · rename_i htables
          obtain rfl := Except.ok.inj h
          exact ⟨⟨tokens, htokens, hcheck⟩, hparse, htables⟩

theorem validate_reads (h : v.validate sql = .ok s) :
    ∃ more, Token.Reads v.dialect (Text.trim sql).toList (s.tokens ++ more) := by
  obtain ⟨-, hparse, -⟩ := validate_eq_ok h
  obtain ⟨-, -, ⟨more, hmore⟩, -⟩ := Statement.parse_eq_ok hparse
  exact ⟨more, Token.tokenize_eq_ok.1 hmore⟩

/-- The tokens of an accepted text are read back from what they print exactly when they are
faithful. -/
theorem validate_tokenize_textOf (v : Validator) (sql : String) (s : Statement)
    (h : v.validate sql = .ok s) :
    Token.tokenize v.dialect (Token.textOf s.tokens) = .ok s.tokens ↔
      Token.Faithful v.dialect s.tokens := by
  obtain ⟨more, hreads⟩ := validate_reads h
  exact hreads.tokenize_textOf_iff

theorem validate_tokenize_textOf_quotes : ∃ s,
    (Validator.mk Whitelist.empty .mysql "").validate "SELECT 'it''s', n'x' -- \x60" = .ok s ∧
      (Token.tokenize .mysql (Token.textOf s.tokens) = .ok s.tokens ↔
        Token.Faithful .mysql s.tokens) := by
  obtain ⟨s, hs⟩ : ∃ s, (Validator.mk Whitelist.empty .mysql "").validate
      "SELECT 'it''s', n'x' -- \x60" = .ok s := by
    decide +kernel
  exact ⟨s, hs, validate_tokenize_textOf _ _ s hs⟩

/-- A doubled quote in an escaped string is kept as one and printed as one. -/
theorem validate_tokenize_textOf_escaped : ∃ s,
    (Validator.mk Whitelist.empty .postgres "").validate "SELECT E'it''s'" = .ok s ∧
      Token.tokenize .postgres (Token.textOf s.tokens) ≠ .ok s.tokens := by
  decide +kernel

end Validator

end ReportSql
