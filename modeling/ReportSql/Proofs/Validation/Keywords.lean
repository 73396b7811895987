import ReportSql.Proofs.Token.Trimmed
import ReportSql.Proofs.Validation

/-!
# Keywords of accepted statements

The rules on keywords and semicolons are checked on the text as the author sent
it, while the statement is read from the text without the blanks around it. The
two readings agree up to the last token of the statement, which may have gone on
with the blanks behind it where the dialect takes them for letters.

## Main definitions

* `Validator.Glued` - a word that only the blanks behind it kept from being checked

## Main results

* `Validator.validate_keywords` - an accepted statement is one SELECT, and a blocked
  keyword in it is a glued last word
-/

namespace ReportSql

namespace Statement

theorem parse_tokens {sql : String} {d : Dialect} {s : Statement} (h : parse sql d = .ok s) :
    ∃ tokens, Token.tokenize d (Text.trim sql) = .ok tokens ∧ s.tokens = dropTerminator tokens := by
  unfold parse at h
  split at h
  · simp at h
  · rename_i tokens htokens
    obtain ⟨-, scan, -, rfl⟩ := ofTokens_eq_ok h
    exact ⟨tokens, htokens, rfl⟩

theorem dropTrailingBlanks_append {first : List Token} {last : Token} (h : last.isBlank = false) :
    dropTrailingBlanks (first ++ [last]) = first ++ [last] := by
  simp [dropTrailingBlanks, h]

/-- Without a blank at the end, only a semicolon there is left out. -/
theorem dropTerminator_append {first : List Token} {last : Token} (h : last.isBlank = false) :
    dropTerminator (first ++ [last]) =
      if last = .punctuation .semicolon then dropTrailingBlanks first else first ++ [last] := by
  unfold dropTerminator
  simp [dropTrailingBlanks_append h]

end Statement

namespace Validator

open scoped Token

/-- A word of a text behind which, up to the end of the text, stand blanks of which the dialect takes
the first for a part of the word. -/
def Glued (d : Dialect) (sql : String) (t : Token) : Prop :=
  ∃ before c after, sql.toList = before ++ (t.chars ++ c :: after) ∧ Token.Blanks (c :: after) ∧
    Token.isWordPart d c = true

/-- Only MySQL and SQLite take blanks for letters, and none of them is an ASCII character. -/
theorem Glued.dialect {d : Dialect} {sql : String} {t : Token} (h : Glued d sql t) :
    d = .mysql ∨ d = .sqlite := by
  obtain ⟨before, c, after, -, hblanks, hpart⟩ := h
  have hc := hblanks c List.mem_cons_self
  obtain ⟨-, -, -, -, halphabetic⟩ := Token.isBlank_apart c hc
  have hdigit := Token.isDigit_of_isBlank c hc
  have hmarks : c ≠ '_' ∧ c ≠ '#' ∧ c ≠ '@' ∧ c ≠ '$' := by
    refine ⟨?_, ?_, ?_, ?_⟩ <;> exact Token.isBlank_ne hc (by decide)
  cases d with
  | mysql => exact Or.inl rfl
  | sqlite => exact Or.inr rfl
  | postgres => simp_all [Token.isWordPart, Token.isWordStart]
  | tsql => simp_all [Token.isWordPart, Token.isWordStart]

theorem hasSecondStatement_append {first second : List Token}
    (h : hasSecondStatement (first ++ second) = false)
    (hmem : Token.punctuation .semicolon ∈ first) : ∀ t ∈ second, t.isBlank = true := by
  induction first with
  | nil => exact absurd hmem List.not_mem_nil
  | cons t first ih =>
    unfold hasSecondStatement at h
    by_cases ht : t = .punctuation .semicolon
    · subst ht
      rw [List.cons_append, List.dropWhile_cons_of_neg (by simp)] at h
      simp only [List.any_append, Bool.or_eq_false_iff] at h
      simpa using h.2
    · rw [List.cons_append, List.dropWhile_cons_of_pos (by simpa using ht)] at h
      exact ih h ((List.mem_cons.1 hmem).resolve_left (Ne.symm ht))

/-- The rules on tokens that an accepted text passed. -/
theorem checkTokens_eq_ok {tokens : List Token} (h : checkTokens tokens = .ok ()) :
    (Token.firstSignificant? tokens).any (·.isKeyword "SELECT") = true ∧
      hasSecondStatement tokens = false ∧ ∀ t ∈ tokens, blockedKeyword? t = none := by
  unfold checkTokens at h
  split at h
  · simp at h
  · rename_i hselect
    split at h
    · simp at h
    · rename_i hsecond
      split at h
      · simp at h
      · rename_i hblocked
        exact ⟨by simpa using hselect, Bool.eq_false_iff.2 hsecond, List.findSome?_eq_none_iff.1 hblocked⟩

theorem checkTokens_blanks {blanks : List Token} (h : ∀ t ∈ blanks, t.isBlank = true)
    (tokens : List Token) : checkTokens (blanks ++ tokens) = checkTokens tokens := by
  have hkind : ∀ t ∈ blanks, t ≠ .punctuation .semicolon ∧ blockedKeyword? t = none := by
    intro t ht
    have hblank := h t ht
    cases t <;> first | exact Bool.noConfusion hblank | exact ⟨Token.noConfusion, rfl⟩
  have hsecond : hasSecondStatement (blanks ++ tokens) = hasSecondStatement tokens := by
    unfold hasSecondStatement
    rw [List.dropWhile_append_of_pos fun t ht => by simpa using (hkind t ht).1]
  have hfind : blanks.findSome? blockedKeyword? = none :=
    List.findSome?_eq_none_iff.2 fun t ht => (hkind t ht).2
  unfold checkTokens
  rw [Token.firstSignificant?_blanks h, hsecond, List.findSome?_append, hfind, Option.none_or]

/-- The tokens of an accepted statement and those that were checked differ in the last token of the
statement, which was checked together with the blanks behind it. -/
theorem validate_tokens {v : Validator} {sql : String} {s : Statement} (h : v.validate sql = .ok s) :
    ∃ first last rest before cs trail, s.tokens = Statement.dropTerminator (first ++ [last]) ∧
      sql.toList = before ++ (cs ++ trail) ∧ Token.Blanks trail ∧
      (∀ c ∈ cs.getLast?, Text.isBlank c = false) ∧ Token.Begins v.dialect cs last [] ∧
      Token.Reads v.dialect (cs ++ trail) rest ∧ checkTokens (first ++ rest) = .ok () := by
  obtain ⟨⟨checked, hchecked, hrules⟩, hparse, -⟩ := validate_eq_ok h
  obtain ⟨-, -, -, htrivia, -⟩ := Statement.parse_eq_ok hparse
  obtain ⟨tokens, htokens, hterminator⟩ := Statement.parse_tokens hparse
  obtain ⟨lead, trail, hsql, hlead, htrail, hhead, hlast⟩ := Text.exists_trim sql
  have hreads := Token.tokenize_eq_ok.1 htokens
  have hchecked := Token.tokenize_eq_ok.1 hchecked
  have hne : (Text.trim sql).toList ≠ [] := by
    intro hnil
    rw [hnil] at hreads
    cases hreads with
    | nil =>
      rw [hterminator] at htrivia
      exact absurd htrivia (by decide)
    | cons first _ => exact first.elim
  -- the blanks before the statement
  have hcore : ∀ c ∈ ((Text.trim sql).toList ++ trail).head?, Text.isBlank c = false := by
    rw [List.head?_append_of_ne_nil _ hne]
    exact hhead
  rw [hsql] at hchecked
  obtain ⟨blanks, more, rfl, hblanks, hmore⟩ := hchecked.skip_blanks (by decide) hlead hcore
    (checkTokens_eq_ok hrules).1
  rw [checkTokens_blanks hblanks] at hrules
  -- the blanks behind the statement
  obtain ⟨first, last, rest, taken, cs, rfl, rfl, hcs, hbegins, hrest⟩ :=
    hreads.append_blanks htrail hmore hne
  refine ⟨first, last, rest, lead ++ taken, cs, trail, hterminator, ?_, htrail, fun c hc => ?_,
    hbegins, hrest, hrules⟩
  · rw [hsql, hcs]
    simp only [List.append_assoc]
  · refine hlast c ?_
    rw [hcs, List.getLast?_append]
    simp [Option.mem_def.1 hc]

/-- A blocked keyword at the end of an accepted statement was checked together with the blanks behind
it. -/
theorem glued_of_blocked {d : Dialect} {sql : String} {before cs trail : List Char} {t : Token}
    {rest : List Token} {word : String} (hsql : sql.toList = before ++ (cs ++ trail))
    (htrail : Token.Blanks trail) (hbegins : Token.Begins d cs t [])
    (hrest : Token.Reads d (cs ++ trail) rest) (hword : blockedKeyword? t = some word)
    (hblocked : ∀ u ∈ rest, blockedKeyword? u = none) : Glued d sql t := by
  obtain ⟨value, rfl⟩ : ∃ value, t = .word value none := by
    unfold blockedKeyword? at hword
    split at hword
    · rename_i upper hupper
      unfold Token.unquotedWord? at hupper
      split at hupper
      · exact ⟨_, rfl⟩
      · simp at hupper
    · simp at hword
  obtain rfl : cs = (Token.word value none).chars := by
    rw [Token.chars_of_begins hbegins rfl, List.append_nil]
  -- before other texts the word is read as itself, and then it was checked
  have hnot : ¬ Token.Apart d (.word value none) trail := by
    intro happ
    have hself := (Token.begins_iff_apart hbegins trail).2 ⟨trivial, happ⟩
    obtain ⟨rest, rfl, -⟩ := hrest.cons_inv hself
    rw [hblocked _ List.mem_cons_self] at hword
    simp at hword
  cases trail with
  | nil => exact absurd (Token.apart_nil _) hnot
  | cons c after =>
    refine ⟨before, c, after, hsql, htrail, ?_⟩
    by_contra hpart
    have hc := htrail c List.mem_cons_self
    refine hnot ⟨Token.stops_cons.2 (Bool.eq_false_iff.2 hpart), fun letter _ _ => ?_⟩
    have hquotes : c ≠ '\'' ∧ c ≠ '"' ∧ c ≠ '&' := by
      refine ⟨?_, ?_, ?_⟩ <;> exact Token.isBlank_ne hc (by decide)
    unfold Token.introducesLiteral
    split <;> simp_all

theorem last_isBlank {d : Dialect} {cs : List Char} {last : Token} (h : Token.Begins d cs last [])
    (hlast : ∀ c ∈ cs.getLast?, Text.isBlank c = false) : last.isBlank = false := by
  have hself : Token.Begins d (cs ++ []) last [] := by rwa [List.append_nil]
  exact Token.isBlank_begins_append h hlast hself

theorem mem_tokens_of_blocked {v : Validator} {sql : String} {s : Statement}
    (h : v.validate sql = .ok s) {t : Token} {word : String} (hword : blockedKeyword? t = some word) :
    t ∈ s.tokens ↔ s.tokens.getLast? = some t ∧ Glued v.dialect sql t := by
  obtain ⟨first, last, rest, before, cs, trail, htokens, hsql, htrail, hlast, hbegins, hrest, hrules⟩ :=
    validate_tokens h
  obtain ⟨-, -, hblocked⟩ := checkTokens_eq_ok hrules
  refine ⟨fun hmem => ?_, fun hmem => List.mem_of_getLast? hmem.1⟩
  have hchecked : t ∉ first := by
    intro ht
    rw [hblocked t (List.mem_append_left _ ht)] at hword
    simp at hword
  rw [Statement.dropTerminator_append (last_isBlank hbegins hlast)] at htokens
  split at htokens
  · rw [htokens] at hmem
    exact absurd ((Statement.dropTrailingBlanks_isPrefix first).mem hmem) hchecked
  · rw [htokens] at hmem
    obtain rfl := List.mem_singleton.1 ((List.mem_append.1 hmem).resolve_left hchecked)
    refine ⟨by rw [htokens]; simp, ?_⟩
    exact glued_of_blocked hsql htrail hbegins hrest hword
      fun u hu => hblocked u (List.mem_append_right _ hu)

/-- An accepted statement starts with SELECT. -/
theorem validate_select {v : Validator} {sql : String} {s : Statement} (h : v.validate sql = .ok s) :
    (Token.firstSignificant? s.tokens).any (·.isKeyword "SELECT") = true := by
  obtain ⟨-, hparse, -⟩ := validate_eq_ok h
  obtain ⟨-, -, -, htrivia, -⟩ := Statement.parse_eq_ok hparse
  obtain ⟨first, last, rest, before, cs, trail, htokens, hsql, htrail, hlast, hbegins, hrest, hrules⟩ :=
    validate_tokens h
  obtain ⟨hselect, -, -⟩ := checkTokens_eq_ok hrules
  have hprefix : s.tokens <+: first ++ [last] := by
    rw [htokens]
    exact Statement.dropTerminator_isPrefix _
  have hfirst : (Token.firstSignificant? (first ++ [last])).any (·.isKeyword "SELECT") = true := by
    -- SELECT stands before the last token, or it is the last one, which blanks behind it may change
    cases hsig : Token.firstSignificant? first with
    | some t =>
      rw [Token.firstSignificant?_append hsig] at hselect ⊢
      exact hselect
    | none =>
      rw [Token.firstSignificant?_append_none hsig] at hselect ⊢
      have hkeyword := Token.Reads.last_keyword (by decide) (by decide) htrail hbegins hlast
        hrest hselect
      rw [Token.firstSignificant?_keyword hkeyword]
      simpa using hkeyword
  cases hsig : Token.firstSignificant? s.tokens with
  | none =>
    rw [Token.firstSignificant?_eq_none.1 hsig] at htrivia
    exact Bool.noConfusion htrivia
  | some t =>
    obtain ⟨more, hmore⟩ := hprefix
    rwa [← hmore, Token.firstSignificant?_append hsig] at hfirst

/-- An accepted statement is one SELECT, and a blocked keyword is in it exactly when it is its last
word and glued to the blanks behind it; where blanks are no letters there is none. -/
theorem validate_keywords (v : Validator) (sql : String) (s : Statement) (h : v.validate sql = .ok s) :
    (Token.firstSignificant? s.tokens).any (·.isKeyword "SELECT") = true ∧
      Token.punctuation .semicolon ∉ s.tokens ∧
        (∀ t word, blockedKeyword? t = some word →
          (t ∈ s.tokens ↔ s.tokens.getLast? = some t ∧ Glued v.dialect sql t)) ∧
            (v.dialect = .postgres ∨ v.dialect = .tsql → ∀ t ∈ s.tokens, blockedKeyword? t = none) := by
  obtain ⟨first, last, rest, before, cs, trail, htokens, hsql, htrail, hlast, hbegins, hrest, hrules⟩ :=
    validate_tokens h
  obtain ⟨-, hsecond, -⟩ := checkTokens_eq_ok hrules
  have hblank := last_isBlank hbegins hlast
  obtain ⟨t, tail, rfl⟩ : ∃ t tail, rest = t :: tail := by
    refine List.exists_cons_of_ne_nil ?_
    rintro rfl
    cases cs with
    | nil => exact hbegins.elim
    | cons c cs => cases hrest
  obtain ⟨left, hread, -⟩ := hrest.uncons
  -- only blanks may stand behind a semicolon
  have hsemicolon : Token.punctuation .semicolon ∉ first := by
    intro hmem
    have hnot := Token.isBlank_begins_append hbegins hlast hread
    rw [hasSecondStatement_append hsecond hmem t List.mem_cons_self] at hnot
    exact Bool.noConfusion hnot
  rw [Statement.dropTerminator_append hblank] at htokens
  refine ⟨validate_select h, fun hmem => ?_, fun u word hword => mem_tokens_of_blocked h hword,
    fun hd u hu => ?_⟩
  · split at htokens
    · rw [htokens] at hmem
      exact hsemicolon ((Statement.dropTrailingBlanks_isPrefix first).mem hmem)
    · rename_i hne
      rw [htokens] at hmem
      rcases List.mem_append.1 hmem with hmem | hmem
      · exact hsemicolon hmem
      · exact hne (List.mem_singleton.1 hmem).symm
  · cases hword : blockedKeyword? u with
    | none => rfl
    | some word =>
      rcases ((mem_tokens_of_blocked h hword).1 hu).2.dialect with hd' | hd' <;> simp [hd'] at hd

theorem validate_keywords_spaced : ∃ s,
    (Validator.mk Whitelist.empty .mysql "").validate "\x0c\r\nSELECT 1 AS replace\u3000" = .ok s ∧
      (Token.firstSignificant? s.tokens).any (·.isKeyword "SELECT") = true ∧
        Token.punctuation .semicolon ∉ s.tokens ∧
          (∀ t word, blockedKeyword? t = some word → (t ∈ s.tokens ↔ s.tokens.getLast? = some t ∧
            Glued .mysql "\x0c\r\nSELECT 1 AS replace\u3000" t)) ∧
              (Dialect.mysql = .postgres ∨ Dialect.mysql = .tsql →
                ∀ t ∈ s.tokens, blockedKeyword? t = none) := by
  obtain ⟨s, hs⟩ : ∃ s, (Validator.mk Whitelist.empty .mysql "").validate
      "\x0c\r\nSELECT 1 AS replace\u3000" = .ok s := by
    decide +kernel
  exact ⟨s, hs, validate_keywords _ _ s hs⟩

/-- A blocked word behind which stands a no-break space. -/
theorem validate_keywords_glued : ∃ s,
    (Validator.mk Whitelist.empty .sqlite "").validate "SELECT 1 AS drop\u00a0" = .ok s ∧
      ∃ t ∈ s.tokens, t.unquotedWord? = some "DROP" ∧ "DROP" ∈ blockedKeywords := by
  obtain ⟨s, hs, hdrop⟩ : ∃ s, (Validator.mk Whitelist.empty .sqlite "").validate
      "SELECT 1 AS drop\u00a0" = .ok s ∧ .word "drop" none ∈ s.tokens := by
    decide +kernel
  exact ⟨s, hs, .word "drop" none, hdrop, by decide +kernel, by decide⟩

end Validator

end ReportSql
