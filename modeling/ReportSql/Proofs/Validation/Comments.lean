import ReportSql.Proofs.Statement.Expansion
import ReportSql.Proofs.Token.FlatComment
import ReportSql.Proofs.Validation.Keywords
import ReportSql.Proofs.Validation.Rendering

/-!
# Comments of accepted statements

The rules of the validator pass over comments, and the tokenizer lets block
comments nest. A store whose block comments end at the first closing mark reads
an accepted text, and the text that is rendered from it, as the validator does
exactly when no block comment contains the closing mark.

## Main results

* `Validator.validate_comments` - when a store without nested comments reads the text that
  was checked
-/

namespace ReportSql

namespace Statement

variable {d : Dialect} {tablePrefix : String}

/-- Only blanks and semicolons are left out at the end of a statement. -/
theorem mem_dropTerminator {tokens : List Token} {t : Token} (ht : t ∈ tokens)
    (hblank : t.isBlank = false) (hsemicolon : t ≠ .punctuation .semicolon) :
    t ∈ dropTerminator tokens := by
  have htrim : ∀ {more : List Token}, t ∈ more → t ∈ dropTrailingBlanks more := by
    intro more hmore
    unfold dropTrailingBlanks
    have hsplit := List.takeWhile_append_dropWhile (p := Token.isBlank) (l := more.reverse)
    have hmem : t ∈ more.reverse.takeWhile Token.isBlank ++ more.reverse.dropWhile Token.isBlank := by
      rw [hsplit]
      exact List.mem_reverse.2 hmore
    rcases List.mem_append.1 hmem with htaken | hleft
    · have hall := List.mem_takeWhile_imp htaken
      rw [hblank] at hall
      exact absurd hall Bool.false_ne_true
    · exact List.mem_reverse.2 hleft
  have hkept := htrim ht
  unfold dropTerminator
  dsimp only
  split
  · rename_i hlast
    obtain ⟨before, hbefore⟩ := List.getLast?_eq_some_iff.1 hlast
    rw [hbefore] at hkept ⊢
    rw [List.dropLast_concat]
    rcases List.mem_append.1 hkept with hmem | hmem
    · exact htrim hmem
    · exact absurd (List.mem_singleton.1 hmem) hsemicolon
  · exact hkept

/-- Printing a statement keeps its comments. -/
theorem flat_expand {tokens : List Token} :
    (∀ t ∈ expand d tablePrefix tokens, t.Flat) ↔ ∀ t ∈ tokens, t.Flat := by
  fun_induction expand d tablePrefix tokens with
  | case1 name rest ih =>
    obtain ⟨value, quote, htable⟩ := tableToken_eq_word (d := d) (tablePrefix ++ name)
    rw [htable]
    simp only [List.forall_mem_cons, ih]
    exact ⟨fun h => ⟨trivial, trivial, trivial, h.2⟩, fun h => ⟨trivial, h.2.2.2⟩⟩
  | case2 name rest ih =>
    have hplaceholder : ∀ t ∈ placeholderTokens d name, t.Flat := by
      unfold placeholderTokens
      split <;> simp [Token.Flat]
    simp only [List.forall_mem_append, ih, List.forall_mem_cons]
    exact ⟨fun h => ⟨trivial, trivial, h.2⟩, fun h => ⟨hplaceholder, h.2.2⟩⟩
  | case3 t rest hbraces hcolon ih => simp only [List.forall_mem_cons, ih]
  | case4 => rfl

end Statement

namespace Validator

open scoped Token

variable {v : Validator} {sql : String} {s : Statement}

/-- The text of an accepted statement is the statement for a store without nested comments as well
exactly when its comments are flat. -/
theorem validate_tokenizeFlat (h : v.validate sql = .ok s) :
    (∃ tokens, Token.tokenizeFlat v.dialect (Text.trim sql) = some tokens ∧
      Statement.dropTerminator tokens = s.tokens) ↔ ∀ t ∈ s.tokens, t.Flat := by
  obtain ⟨-, hparse, -⟩ := validate_eq_ok h
  obtain ⟨tokens, htokens, hterminator⟩ := Statement.parse_tokens hparse
  constructor
  · rintro ⟨flat, hread, hflat⟩ t ht
    rw [← hflat] at ht
    have hmem := (Statement.dropTerminator_isPrefix flat).subset ht
    exact Token.scanAllFlat_flat (toOption_eq_some.1 hread) t hmem
  · intro hflat
    refine ⟨tokens, (Token.tokenizeFlat_eq htokens).2 fun t ht => ?_, hterminator.symm⟩
    cases t with
    | blockComment content =>
      refine hflat _ ?_
      rw [hterminator]
      exact Statement.mem_dropTerminator ht rfl (by simp)
    | _ => trivial

/-- A store whose block comments do not nest reads the checked tokens, the statement whose tables were
checked and the rendered text with the same comments and the same other tokens as the validator
exactly when no block comment there contains a closing mark. -/
theorem validate_comments (v : Validator) (sql : String) (s : Statement) (tablePrefix : String)
    (h : v.validate sql = .ok s) :
    (∃ checked, Token.tokenize v.dialect sql = .ok checked ∧ checkTokens checked = .ok () ∧
      (Token.ReadsFlat v.dialect sql checked ↔ ∀ t ∈ checked, t.Flat)) ∧
    (v.checkTables s = .ok () ∧
      ((∃ tokens, Token.tokenizeFlat v.dialect (Text.trim sql) = some tokens ∧
        Statement.dropTerminator tokens = s.tokens) ↔ ∀ t ∈ s.tokens, t.Flat)) ∧
    (∀ printed, Token.tokenize v.dialect (s.render tablePrefix) = .ok printed →
      (Token.ReadsFlat v.dialect (s.render tablePrefix) printed ↔ ∀ t ∈ printed, t.Flat)) ∧
    (Token.Separated v.dialect (Statement.expand v.dialect tablePrefix s.tokens) →
      (Token.ReadsFlat v.dialect (s.render tablePrefix)
        (Statement.expand v.dialect tablePrefix s.tokens) ↔ ∀ t ∈ s.tokens, t.Flat)) := by
  obtain ⟨⟨checked, hchecked, hrules⟩, -, htables⟩ := validate_eq_ok h
  refine ⟨⟨checked, hchecked, hrules, Token.readsFlat_iff hchecked⟩,
    ⟨htables, validate_tokenizeFlat h⟩, fun printed hprinted => Token.readsFlat_iff hprinted,
    fun hseparated => ?_⟩
  have hprinted : Token.tokenize v.dialect (s.render tablePrefix) =
      .ok (Statement.expand v.dialect tablePrefix s.tokens) := by
    rw [validate_render h]
    exact Token.tokenize_textOf_iff_separated.2 hseparated
  exact (Token.readsFlat_iff hprinted).trans Statement.flat_expand

theorem validate_comments_flat : ∃ s,
    (Validator.mk Whitelist.builtin .sqlite "").validate
      "SELECT c.id /* * of / all * */ FROM \x7bcourse\x7d c" = .ok s ∧
      Token.ReadsFlat .sqlite (s.render "m_") (Statement.expand .sqlite "m_" s.tokens) := by
  have hread : ∃ s, (Validator.mk Whitelist.builtin .sqlite "").validate
      "SELECT c.id /* * of / all * */ FROM \x7bcourse\x7d c" = .ok s ∧
        s.tokens = [.word "SELECT" none, .blank .space, .word "c" none, .punctuation .period,
          .word "id" none, .blank .space, .blockComment " * of / all * ", .blank .space,
          .word "FROM" none, .blank .space, .punctuation .openBrace, .word "course" none,
          .punctuation .closeBrace, .blank .space, .word "c" none] := by
    decide +kernel
  obtain ⟨s, hs, htokens⟩ := hread
  obtain ⟨-, -, -, hrendered⟩ := validate_comments _ _ s "m_" hs
  refine ⟨s, hs, (hrendered (Token.tokenize_textOf_iff_separated.1 ?_)).2 ?_⟩
  · rw [htokens]
    decide +kernel
  · rw [htokens]
    decide +kernel

/-- A comment opened inside a comment hides the rest of the statement from the validator only. -/
theorem validate_comments_nested : ∃ s,
    (Validator.mk Whitelist.builtin .sqlite "").validate
      "SELECT 1 /* /* */ , s.v FROM secrets s -- */" = .ok s ∧
      (¬ ∀ t ∈ s.tokens, t.Flat) ∧
      ∃ flat, Token.tokenizeFlat .sqlite (s.render "") = some flat ∧
        ∃ m ∈ (Statement.scanTablesIn [false] none flat).mentions,
          m.name = "secrets" ∧
            (Validator.mk Whitelist.builtin .sqlite "").allows m = false := by
  have hread : ∃ s, (Validator.mk Whitelist.builtin .sqlite "").validate
      "SELECT 1 /* /* */ , s.v FROM secrets s -- */" = .ok s ∧
        s.tokens = [.word "SELECT" none, .blank .space, .number "1" false, .blank .space,
          .blockComment " /* */ , s.v FROM secrets s -- "] := by
    decide +kernel
  obtain ⟨s, hs, htokens⟩ := hread
  refine ⟨s, hs, ?_, ?_⟩
  · rw [htokens]
    decide +kernel
  · have hflat : Token.tokenizeFlat .sqlite (s.render "") =
        some [.word "SELECT" none, .blank .space, .number "1" false, .blank .space,
          .blockComment " /* ", .blank .space, .punctuation .comma, .blank .space,
          .word "s" none, .punctuation .period, .word "v" none, .blank .space,
          .word "FROM" none, .blank .space, .word "secrets" none, .blank .space,
          .word "s" none, .blank .space, .lineComment "--" " */"] := by
      rw [validate_render hs, htokens]
      decide +kernel
    refine ⟨_, hflat, ⟨"secrets", some "s", 0, false⟩, ?_, rfl, ?_⟩
    · decide +kernel
    · decide +kernel

end Validator

end ReportSql
