import ReportSql.Proofs.Statement.Reader
import ReportSql.Statement.Printer

/-!
# The tokens of a printed statement

A statement without added predicates prints a list of tokens: a name in braces
becomes a single token, and in T-SQL so does a named placeholder. The readers of
names, aliases and parentheses are followed through this change.

## Main definitions

* `Statement.expand` - the tokens that a list of tokens is printed as

## Main results

* `Statement.readName?_expand`, `Statement.readAlias_expand` - the readers on printed tokens
-/

namespace ReportSql

open Token

namespace Statement

/-! ## Printed tokens -/

/-- The token that prints a table name. -/
def tableToken (d : Dialect) (name : String) : Token :=
  if Dialect.isPlainIdentifier name && !Dialect.isReservedWord name then .word name none
  else .word (String.ofList (Dialect.doubled d.identifierQuotes.2 name)) (some d.identifierQuotes.1)

/-- The tokens that print a named placeholder. -/
def placeholderTokens (d : Dialect) (name : String) : List Token :=
  if d = .tsql then [.word ("@" ++ name) none] else [.punctuation .colon, .word name none]

/-- The tokens that a list of tokens is printed as, with `tablePrefix` before every name in
braces. -/
def expand (d : Dialect) (tablePrefix : String) : List Token → List Token
  | .punctuation .openBrace :: .word name none :: .punctuation .closeBrace :: rest =>
    tableToken d (tablePrefix ++ name) :: expand d tablePrefix rest
  | .punctuation .colon :: .word name none :: rest =>
    placeholderTokens d name ++ expand d tablePrefix rest
  | t :: rest => t :: expand d tablePrefix rest
  | [] => []

example : expand .tsql "app_" [.punctuation .openBrace, .word "user" none, .punctuation .closeBrace,
    .punctuation .colon, .word "id" none] = [.word "app_user" none, .word "@id" none] := by
  decide +kernel

variable {d : Dialect} {tablePrefix : String}

theorem tableToken_text (name : String) : (tableToken d name).text = d.formatIdentifier name := by
  unfold tableToken Dialect.formatIdentifier
  split
  · rfl
  · apply String.toList_injective
    cases d <;> simp [Token.text, Dialect.quoteIdentifier, Dialect.identifierQuotes, closingQuote]

theorem textOf_placeholderTokens (name : String) :
    textOf (placeholderTokens d name) = d.formatPlaceholder name := by
  apply String.toList_injective
  cases d <;> simp [placeholderTokens, textOf, Token.text, Dialect.formatPlaceholder,
    Dialect.placeholderMark, Punctuation.char]

/-! ## Text of the printed tokens -/

theorem textOf_cons (t : Token) (tokens : List Token) :
    textOf (t :: tokens) = t.text ++ textOf tokens := by
  simp [textOf]

theorem textOf_append (first second : List Token) :
    textOf (first ++ second) = textOf first ++ textOf second := by
  simp [textOf]

/-! ## The heads of printed tokens -/

theorem expand_cons {t : Token} {rest : List Token} (hbrace : t ≠ .punctuation .openBrace)
    (hcolon : t ≠ .punctuation .colon) :
    expand d tablePrefix (t :: rest) = t :: expand d tablePrefix rest := by
  rw [expand]
  · exact fun _ _ h => absurd h hbrace
  · exact fun _ _ h => absurd h hcolon

theorem expand_braces (name : String) (rest : List Token) :
    expand d tablePrefix
        (.punctuation .openBrace :: .word name none :: .punctuation .closeBrace :: rest) =
      tableToken d (tablePrefix ++ name) :: expand d tablePrefix rest := by
  rw [expand]

theorem expand_colon (name : String) (rest : List Token) :
    expand d tablePrefix (.punctuation .colon :: .word name none :: rest) =
      placeholderTokens d name ++ expand d tablePrefix rest := by
  rw [expand]

@[simp] theorem expand_word (value : String) (quote : Option Char) (rest : List Token) :
    expand d tablePrefix (.word value quote :: rest) =
      .word value quote :: expand d tablePrefix rest :=
  expand_cons Token.noConfusion Token.noConfusion

/-- A printed table name is a word that is none of the reserved ones. -/
theorem tableToken_eq_word (name : String) : ∃ value quote, tableToken d name = .word value quote := by
  unfold tableToken
  split
  · exact ⟨_, _, rfl⟩
  · exact ⟨_, _, rfl⟩

theorem tableToken_isKeyword {keyword : String} (h : keyword ∈ Dialect.reservedWords)
    (name : String) : (tableToken d name).isKeyword keyword = false := by
  unfold tableToken
  split
  · rename_i hplain
    rw [Bool.eq_false_iff]
    intro hkeyword
    obtain ⟨value, hvalue, rfl⟩ := isKeyword_iff.1 hkeyword
    obtain ⟨rfl, -⟩ := Token.word.inj hvalue
    simp [Dialect.isReservedWord, h] at hplain
  · rfl

theorem atWord_isKeyword {keyword : String} (h : keyword.toList.head? ≠ some '@') (name : String) :
    (Token.word ("@" ++ name) none).isKeyword keyword = false := by
  rw [Bool.eq_false_iff]
  intro hkeyword
  obtain ⟨value, hvalue, rfl⟩ := isKeyword_iff.1 hkeyword
  obtain ⟨rfl, -⟩ := Token.word.inj hvalue
  refine h ?_
  simp [Text.upperAscii]

theorem not_mem_doubled {quote : Char} {name : String} (h : quote ∉ name.toList) :
    Dialect.doubled quote name = name.toList := by
  obtain ⟨cs, rfl⟩ : ∃ cs, name = String.ofList cs := ⟨name.toList, name.ofList_toList.symm⟩
  rw [String.toList_ofList] at h ⊢
  induction cs with
  | nil => rfl
  | cons c rest ih =>
    rw [List.mem_cons, not_or] at h
    rw [Dialect.doubled_of_ne quote (Ne.symm h.1), ih h.2]

theorem quote_notMem_plain (d : Dialect) {name : String} (h : Dialect.isPlainIdentifier name = true) :
    d.identifierQuotes.2 ∉ name.toList := by
  have hquote : Dialect.isPlainStart d.identifierQuotes.2 = false ∧
      Dialect.isPlainPart d.identifierQuotes.2 = false := by
    cases d <;> decide
  unfold Dialect.isPlainIdentifier at h
  intro hmem
  split at h
  · rename_i heq
    rw [heq] at hmem
    exact absurd hmem List.not_mem_nil
  · rename_i c rest heq
    rw [heq] at hmem
    obtain ⟨hstart, hrest⟩ := Bool.and_eq_true_iff.1 h
    rcases List.mem_cons.1 hmem with hc | hmem
    · rw [← hc, hquote.1] at hstart
      exact Bool.noConfusion hstart
    · have hpart := List.all_eq_true.1 hrest _ hmem
      rw [hquote.2] at hpart
      exact Bool.noConfusion hpart

/-- A plain name is printed as a word of that name. -/
theorem tableToken_of_plain {name : String} (h : Dialect.isPlainIdentifier name = true) :
    ∃ quote, tableToken d name = .word name quote := by
  unfold tableToken
  split
  · exact ⟨none, rfl⟩
  · refine ⟨_, congrArg (Token.word · _) ?_⟩
    rw [not_mem_doubled (quote_notMem_plain d h), String.ofList_toList]

theorem skipTrivia_expand (tokens : List Token) :
    skipTrivia (expand d tablePrefix tokens) = expand d tablePrefix (skipTrivia tokens) := by
  fun_induction expand d tablePrefix tokens with
  | case1 name rest ih =>
    -- neither the brace nor the name printed for it is skipped
    obtain ⟨value, quote, hword⟩ := tableToken_eq_word (d := d) (tablePrefix ++ name)
    have hbraces := skipTrivia_cons (t := .punctuation .openBrace) rfl
      (.word name none :: .punctuation .closeBrace :: rest)
    rw [hbraces, expand, hword]
    rfl
  | case2 name rest ih =>
    have hcolon := skipTrivia_cons (t := .punctuation .colon) rfl (.word name none :: rest)
    rw [hcolon, expand]
    unfold placeholderTokens
    split <;> rfl
  | case3 t rest hbraces hcolon ih =>
    cases ht : t.isTrivia with
    | false =>
      rw [skipTrivia_cons ht, skipTrivia_cons ht, expand]
      · exact hbraces
      · exact hcolon
    | true => rw [skipTrivia_trivia ht, skipTrivia_trivia ht, ih]
  | case4 => rfl

theorem afterClosing?_expand (depth : Nat) (tokens : List Token) :
    afterClosing? depth (expand d tablePrefix tokens) =
      (afterClosing? depth tokens).map (expand d tablePrefix) := by
  fun_induction expand d tablePrefix tokens generalizing depth with
  | case1 name rest ih =>
    obtain ⟨value, quote, hword⟩ := tableToken_eq_word (d := d) (tablePrefix ++ name)
    rw [hword, afterClosing?_cons (by simp) (by simp), afterClosing?_cons (by simp) (by simp),
      afterClosing?_cons (by simp) (by simp), afterClosing?_cons (by simp) (by simp), ih]
  | case2 name rest ih =>
    rw [afterClosing?_cons (by simp) (by simp), afterClosing?_cons (by simp) (by simp), ← ih]
    unfold placeholderTokens
    split
    · rw [List.singleton_append, afterClosing?_cons (by simp) (by simp)]
    · rw [List.cons_append, List.cons_append, List.nil_append, afterClosing?_cons (by simp) (by simp),
        afterClosing?_cons (by simp) (by simp)]
  | case3 t rest _ _ ih =>
    by_cases hopen : t = .punctuation .openParen
    · subst hopen
      rw [afterClosing?, afterClosing?, ih]
    by_cases hclose : t = .punctuation .closeParen
    · subst hclose
      cases depth with
      | zero => rfl
      | succ depth => rw [afterClosing?, afterClosing?, ih]
    rw [afterClosing?_cons hopen hclose, afterClosing?_cons hopen hclose, ih]
  | case4 => rfl

theorem firstSignificant?_expand_openParen {tokens : List Token} :
    firstSignificant? (expand d tablePrefix tokens) = some (.punctuation .openParen) ↔
      firstSignificant? tokens = some (.punctuation .openParen) := by
  unfold firstSignificant?
  rw [skipTrivia_expand]
  generalize skipTrivia tokens = start
  fun_cases expand d tablePrefix start with
  | case1 name rest =>
    obtain ⟨value, quote, hword⟩ := tableToken_eq_word (d := d) (tablePrefix ++ name)
    simp [hword]
  | case2 name rest =>
    unfold placeholderTokens
    split <;> simp
  | case3 t rest => simp
  | case4 => simp

theorem firstSignificant?_expand_select (tokens : List Token) :
    (firstSignificant? (expand d tablePrefix tokens)).any (·.isKeyword "SELECT") =
      (firstSignificant? tokens).any (·.isKeyword "SELECT") := by
  unfold firstSignificant?
  rw [skipTrivia_expand]
  generalize skipTrivia tokens = start
  fun_cases expand d tablePrefix start with
  | case1 name rest =>
    have hkeyword := tableToken_isKeyword (d := d) (show "SELECT" ∈ Dialect.reservedWords by decide)
      (tablePrefix ++ name)
    rw [List.head?_cons, Option.any_some, hkeyword]
    rfl
  | case2 name rest =>
    unfold placeholderTokens
    split
    · exact atWord_isKeyword (by decide) name
    · rfl
  | case3 t rest => rfl
  | case4 => rfl

/-! ## Names -/

/-- Whether a printed name goes on after a point that no name went on after before. -/
def growsName (d : Dialect) : List Token → Bool
  | .punctuation .period :: .word _ _ :: _ => true
  | .punctuation .period :: rest =>
    (bracedTable? rest).isSome || d = .tsql && (namedPlaceholder? rest).isSome
  | _ => false

theorem growsName_eq_false {left : List Token} (h : growsName d left = false) :
    readNameParts (expand d tablePrefix left) = ("", expand d tablePrefix left) := by
  by_cases hperiod : left.head? = some (.punctuation .period)
  · obtain ⟨rest, rfl⟩ := List.head?_eq_some_iff.1 hperiod
    -- the token after the point prints no word
    have hrest : ∀ value quote more, expand d tablePrefix rest ≠ .word value quote :: more := by
      intro value quote more
      fun_cases expand d tablePrefix rest with
      | case1 name rest => simp [growsName, bracedTable?] at h
      | case2 name rest =>
        unfold placeholderTokens
        split
        · rename_i hd
          simp [growsName, bracedTable?, namedPlaceholder?, hd] at h
        · simp
      | case3 t rest =>
        intro heq
        obtain ⟨rfl, -⟩ := List.cons.inj heq
        simp [growsName] at h
      | case4 => simp
    rw [expand_cons (by simp) (by simp)]
    unfold readNameParts
    split
    · rename_i heq
      exact absurd (List.cons.inj heq).2 (hrest _ _ _)
    · rfl
  · refine readNameParts_of_head? ?_
    fun_cases expand d tablePrefix left with
    | case1 name rest =>
      obtain ⟨value, quote, hword⟩ := tableToken_eq_word (d := d) (tablePrefix ++ name)
      simp [hword]
    | case2 name rest =>
      unfold placeholderTokens
      split <;> simp
    | case3 t rest => exact hperiod
    | case4 => simp

theorem growsName_eq_true {left : List Token} (h : growsName d left = true) :
    ∃ part more left', readNameParts (expand d tablePrefix left) = ("." ++ part ++ more, left') := by
  have hword : ∀ part quote rest, ∃ more left',
      readNameParts (.punctuation .period :: .word part quote :: rest) =
        ("." ++ part ++ more, left') := fun part quote rest => ⟨_, _, rfl⟩
  unfold growsName at h
  split at h
  · rw [expand_cons (by simp) (by simp), expand_word]
    exact ⟨_, hword _ _ _⟩
  · rename_i rest hrest
    rw [expand_cons (by simp) (by simp)]
    rcases Bool.or_eq_true_iff.1 h with h | h
    · obtain ⟨name, hname⟩ := Option.isSome_iff_exists.1 h
      obtain ⟨rest, rfl⟩ := bracedTable?_eq_some.1 hname
      obtain ⟨value, quote, htoken⟩ := tableToken_eq_word (d := d) (tablePrefix ++ name)
      rw [expand, htoken]
      exact ⟨_, hword _ _ _⟩
    · obtain ⟨hd, h⟩ := Bool.and_eq_true_iff.1 h
      obtain ⟨name, hname⟩ := Option.isSome_iff_exists.1 h
      obtain ⟨rest, rfl⟩ := namedPlaceholder?_eq_some.1 hname
      rw [expand, placeholderTokens, if_pos (by simpa using hd)]
      exact ⟨_, hword _ _ _⟩
  · simp at h

/-- A name goes on as far as it did before, and then with what has become a part of it. -/
theorem readNameParts_expand (tokens : List Token) :
    readNameParts (expand d tablePrefix tokens) =
      ((readNameParts tokens).1 ++
        (readNameParts (expand d tablePrefix (readNameParts tokens).2)).1,
        (readNameParts (expand d tablePrefix (readNameParts tokens).2)).2) := by
  fun_induction readNameParts tokens with
  | case1 part quote rest more left heq ih =>
    rw [heq] at ih
    rw [expand_cons (by simp) (by simp), expand_word, readNameParts, ih]
    simp [String.append_assoc]
  | case2 => simp

theorem readName?_expand {tokens left : List Token} {name : String} {braced : Bool}
    (h : readName? tokens = some (name, braced, left))
    (hplain : braced = true → Dialect.isPlainIdentifier (tablePrefix ++ name) = true) :
    readName? (expand d tablePrefix tokens) =
      some ((if braced then tablePrefix ++ name else name) ++
        (readNameParts (expand d tablePrefix left)).1, false,
        (readNameParts (expand d tablePrefix left)).2) := by
  have hword : ∀ first quote rest, readName? (.word first quote :: rest) =
      some (first ++ (readNameParts rest).1, false, (readNameParts rest).2) :=
    fun _ _ _ => rfl
  unfold readName? at h
  split at h
  · rename_i hbraced
    obtain ⟨rest, rfl⟩ := bracedTable?_eq_some.1 hbraced
    obtain ⟨rfl, rfl, rfl⟩ : _ = name ∧ true = braced ∧ rest = left := by simpa using h
    obtain ⟨quote, htoken⟩ := tableToken_of_plain (d := d) (hplain rfl)
    rw [expand, htoken, hword]
    rfl
  · split at h
    · rename_i first quote rest _
      obtain ⟨rfl, rfl, rfl⟩ : _ = name ∧ false = braced ∧ _ = left := by simpa using h
      rw [expand_word, hword, readNameParts_expand rest]
      simp [String.append_assoc]
    · simp at h

/-! ## Aliases -/

/-- Whether a piece stands at the place of an alias and is printed as one. -/
def printsAlias (d : Dialect) (tablePrefix : String) (left : List Token) : Bool :=
  match bracedTable? (aliasCandidates left) with
  | some name => (aliasName? (tableToken d (tablePrefix ++ name))).isSome
  | none => d = .tsql && (namedPlaceholder? (aliasCandidates left)).isSome

theorem aliasCandidates_expand (left : List Token) :
    aliasCandidates (expand d tablePrefix left) = expand d tablePrefix (aliasCandidates left) := by
  unfold aliasCandidates
  rw [skipTrivia_expand]
  generalize skipTrivia left = start
  fun_cases expand d tablePrefix start with
  | case1 name rest =>
    -- the name of a table is never printed as the keyword AS
    have hkeyword := tableToken_isKeyword (d := d) (show "AS" ∈ Dialect.reservedWords by decide)
      (tablePrefix ++ name)
    dsimp only
    rw [hkeyword, if_neg (by decide), if_neg (by decide), expand]
  | case2 name rest =>
    dsimp only
    rw [if_neg (show ¬ (Token.punctuation .colon).isKeyword "AS" = true by decide),
      expand_colon]
    by_cases hd : d = .tsql
    · have hkeyword := atWord_isKeyword (show "AS".toList.head? ≠ some '@' by decide) name
      rw [placeholderTokens, if_pos hd, List.singleton_append]
      dsimp only
      rw [hkeyword, if_neg (by decide)]
    · rw [placeholderTokens, if_neg hd]
      rfl
  | case3 t rest hbraces hcolon =>
    dsimp only
    split
    · rw [skipTrivia_expand]
    · rw [expand]
      · exact hbraces
      · exact hcolon
  | case4 => rfl

theorem readAlias_expand {left : List Token} (h : printsAlias d tablePrefix left = false) :
    readAlias (expand d tablePrefix left) =
      ((readAlias left).1, expand d tablePrefix (readAlias left).2) := by
  rw [readAlias_eq, readAlias_eq, aliasCandidates_expand]
  unfold printsAlias at h
  generalize aliasCandidates left = candidates at h
  fun_cases expand d tablePrefix candidates with
  | case1 name rest =>
    have hnone : aliasName? (tableToken d (tablePrefix ++ name)) = none := by
      simpa [bracedTable?] using h
    dsimp only
    rw [hnone]
    rfl
  | case2 name rest =>
    have hd : d ≠ .tsql := by
      simpa [bracedTable?, namedPlaceholder?] using h
    rw [placeholderTokens, if_neg hd]
    rfl
  | case3 t rest =>
    dsimp only
    split <;> rfl
  | case4 => rfl

/-- A piece at the place of an alias was none before it was printed. -/
theorem printsAlias_eq_true {left : List Token} (h : printsAlias d tablePrefix left = true) :
    readAlias left = (none, left) ∧ (readAlias (expand d tablePrefix left)).1.isSome = true := by
  rw [readAlias_eq, readAlias_eq, aliasCandidates_expand]
  unfold printsAlias at h
  split at h
  · -- a table name in braces is printed as a name
    rename_i name hname
    obtain ⟨rest, heq⟩ := bracedTable?_eq_some.1 hname
    obtain ⟨label, halias⟩ := Option.isSome_iff_exists.1 h
    rw [heq, expand_braces]
    refine ⟨rfl, ?_⟩
    dsimp only
    rw [halias]
    rfl
  · -- in T-SQL a placeholder is printed as a word, and no keyword starts with its mark
    obtain ⟨hd, h⟩ := Bool.and_eq_true_iff.1 h
    obtain ⟨name, hname⟩ := Option.isSome_iff_exists.1 h
    obtain ⟨rest, heq⟩ := namedPlaceholder?_eq_some.1 hname
    have halias : aliasName? (.word ("@" ++ name) none) = some ("@" ++ name) := by
      have hmark : Text.upperAscii ("@" ++ name) ∉ nonAliasWords := by
        intro hmem
        have hhead : ∀ w ∈ nonAliasWords, w.toList.head? ≠ some '@' := by decide
        refine hhead _ hmem ?_
        simp [Text.upperAscii]
      simp [aliasName?, hmark]
    rw [heq, expand_colon, placeholderTokens, if_pos (by simpa using hd)]
    refine ⟨rfl, ?_⟩
    rw [List.singleton_append]
    dsimp only
    rw [halias]
    rfl

/-- No comma stands where a piece is printed as an alias. -/
theorem afterComma?_of_printsAlias {left : List Token} (h : printsAlias d tablePrefix left = true) :
    afterComma? (some left) = none := by
  cases hcomma : afterComma? (some left) with
  | none => rfl
  | some rest =>
    obtain ⟨left', hleft, hskip⟩ := afterComma?_eq_some.1 hcomma
    obtain rfl := Option.some.inj hleft
    have hcandidates : aliasCandidates left = .punctuation .comma :: rest := by
      rw [aliasCandidates, hskip]
      rfl
    rw [printsAlias, hcandidates] at h
    simp [bracedTable?, namedPlaceholder?] at h

end Statement

end ReportSql
