import ReportSql.Proofs.Statement.Expansion
import ReportSql.Proofs.Token.Stream

/-!
# Identifiers are read back

Every dialect prints an identifier either as it stands or between quotes, with the closing quote
doubled. Whatever the identifier is, the tokenizer of the dialect reads the printed text as a
single word, and the identifier is the name of that word.

## Main definitions

* `Dialect.undoubled` - a text with the doubling of a quote undone
* `Token.name?` - the name that a word stands for
* `Dialect.quotedName` - the word that a quoted identifier is printed as

## Main results

* `Dialect.quotedContent_doubled` - a quoted text is read up to its closing quote
* `Dialect.begins_formatIdentifier` - an identifier is read before what does not run into it
* `Dialect.tokenize_identifier` - the tokens of a printed identifier
-/

namespace ReportSql

open scoped Token
open Token (Begins Apart quotedContent closingQuote)
open Statement (tableToken tableToken_text)

namespace Dialect

/-! ## Doubled quotes -/

/-- A text in which each pair of quotes is made one again. -/
def undoubled (quote : Char) : List Char → List Char
  | c :: next :: rest =>
    if c = quote ∧ next = quote then c :: undoubled quote rest
    else c :: undoubled quote (next :: rest)
  | short => short

section Doubled

variable (quote : Char)

theorem undoubled_of_ne {c : Char} (h : c ≠ quote) (cs : List Char) :
    undoubled quote (c :: cs) = c :: undoubled quote cs := by
  cases cs with
  | nil => rfl
  | cons next rest => exact if_neg fun hpair => h hpair.1

theorem undoubled_doubled (s : String) : undoubled quote (doubled quote s) = s.toList := by
  obtain ⟨cs, rfl⟩ : ∃ cs, s = String.ofList cs := ⟨s.toList, s.ofList_toList.symm⟩
  rw [String.toList_ofList]
  induction cs with
  | nil => rfl
  | cons c cs ih =>
    by_cases hc : c = quote
    · rw [hc, doubled_self, undoubled, if_pos ⟨rfl, rfl⟩, ih]
    · rw [doubled_of_ne quote hc, undoubled_of_ne quote hc, ih]

/-- The quotes inside come in pairs, so that the first quote without another one behind it closes. -/
theorem quotedContent_doubled (s : String) {next : List Char} (hnext : next.head? ≠ some quote) :
    quotedContent quote false (doubled quote s ++ quote :: next) = some (doubled quote s, next) := by
  obtain ⟨cs, rfl⟩ : ∃ cs, s = String.ofList cs := ⟨s.toList, s.ofList_toList.symm⟩
  induction cs with
  | nil => exact Token.quotedContent_closing hnext
  | cons c cs ih =>
    by_cases hc : c = quote
    · rw [hc, doubled_self, List.cons_append, List.cons_append, Token.quotedContent_pair, ih]
      rfl
    · rw [doubled_of_ne quote hc, List.cons_append, Token.quotedContent_of_ne hc (by simp), ih]
      rfl

end Doubled

end Dialect

/-- The name that a word stands for: without quotes its text, and between quotes its text with the
closing quote no longer doubled. -/
def Token.name? : Token → Option String
  | .word value none => some value
  | .word value (some quote) =>
    some (String.ofList (Dialect.undoubled (closingQuote quote) value.toList))
  | _ => none

namespace Dialect

variable {d : Dialect}

/-! ## Quoted identifiers -/

/-- The word that a quoted identifier is printed as. -/
def quotedName (d : Dialect) (s : String) : Token :=
  .word (String.ofList (doubled d.identifierQuotes.2 s)) (some d.identifierQuotes.1)

/-- The quotes of a dialect belong together, and the dialect reads them as quotes of a name. -/
theorem identifierQuotes_read (d : Dialect) :
    closingQuote d.identifierQuotes.1 = d.identifierQuotes.2 ∧
      Token.opensName d d.identifierQuotes.1 = true := by
  cases d <;> exact ⟨rfl, rfl⟩

theorem quotedName_text (s : String) : (quotedName d s).text = d.quoteIdentifier s := by
  have hquotes := (identifierQuotes_read d).1
  unfold quotedName quoteIdentifier
  rw [String.ext_iff, Token.text, hquotes]
  simp

theorem quotedName_name? (s : String) : (quotedName d s).name? = some s := by
  show some (String.ofList (undoubled (closingQuote d.identifierQuotes.1) _)) = some s
  rw [(identifierQuotes_read d).1, String.toList_ofList, undoubled_doubled, String.ofList_toList]

theorem begins_quotedName (s : String) {next : List Char} (hnext : Apart d (quotedName d s) next) :
    Begins d ((quotedName d s).chars ++ next) (quotedName d s) next := by
  obtain ⟨hquotes, hopens⟩ := identifierQuotes_read d
  have hhead : next.head? ≠ some d.identifierQuotes.2 := by
    rw [← hquotes]
    exact hnext
  have hread := quotedContent_doubled d.identifierQuotes.2 s hhead
  unfold quotedName
  rw [Token.chars_quotedWord, hquotes, String.toList_ofList]
  show Token.scan d d.identifierQuotes.1 _ = _
  rw [Token.scan_opensName hopens, Token.scanQuotedName, hquotes]
  simp [hread]

/-! ## Bare identifiers -/

theorem isDigit_of_plainStart {c : Char} (hc : isPlainStart c = true) : c.isDigit = false := by
  rw [isPlainStart, Bool.or_eq_true, beq_iff_eq] at hc
  rcases hc with halpha | rfl
  · grind [Char.isAlpha, Char.isUpper, Char.isLower, Char.isDigit]
  · rfl

theorem isWordStart_of_plainStart {c : Char} (hc : isPlainStart c = true) :
    Token.isWordStart d c = true := by
  rw [isPlainStart, Bool.or_eq_true] at hc
  have halphabetic : c.isAlpha = true → Text.isAlphabetic c = true := Text.isAlphabetic_of_isAlpha
  cases d <;> simp only [Token.isWordStart, Bool.or_eq_true] <;> tauto

theorem isWordPart_of_plainPart {c : Char} (hc : isPlainPart c = true) :
    Token.isWordPart d c = true := by
  rw [isPlainPart, Char.isAlphanum, Bool.or_right_comm, Bool.or_eq_true] at hc
  unfold Token.isWordPart
  rw [Bool.or_eq_true, Bool.or_eq_true]
  exact Or.inl (hc.imp_left isWordStart_of_plainStart)

/-- A character that starts a plain identifier starts nothing else, a literal apart. -/
theorem scan_plainStart {c : Char} {rest : List Char} (hc : isPlainStart c = true)
    (hintro : c ∈ Token.literalLetters → Token.introducesLiteral d c rest = false) :
    Token.scan d c rest = .ok (Token.scanWord d [c] rest) := by
  by_cases hletter : c ∈ Token.literalLetters
  · rw [Token.scan_letter hletter, Token.scanLetter_word (hintro hletter)]
  -- every other rule but the one for words is for a mark or a digit
  have hmark : ∀ m, isPlainStart m = false → c ≠ m := by
    rintro m hm rfl
    exact Bool.eq_false_iff.1 hm hc
  have hmarks : c ∉ Token.leadingMarks := by
    intro hmem
    have hall : ∀ m ∈ Token.leadingMarks, isPlainStart m = false := by decide
    exact hmark c (hall c hmem) rfl
  have hname : Token.opensName d c = false := by
    rw [Bool.eq_false_iff]
    intro hopens
    rcases Token.opensName_cases hopens with h | h | h <;> exact hmark _ (by decide) h
  have hfind : Token.findOperator? (c :: rest) = none := by
    apply Token.findOperator?_eq_none
    intro entry hentry hhead
    have hall : ∀ e ∈ Token.operators, ∀ m ∈ e.1.toList.head?, isPlainStart m = false := by decide
    exact hmark c (hall entry hentry c hhead) rfl
  have hpunctuation : Token.punctuationOf? c = none := by
    unfold Token.punctuationOf?
    split <;> first | rfl | exact absurd rfl (hmark _ (by decide))
  rw [Token.scan_last hmarks hletter hname (hmark _ (by decide))
    ⟨isDigit_of_plainStart hc, hmark _ (by decide)⟩ hfind, hpunctuation]
  exact if_pos (isWordStart_of_plainStart hc)

theorem begins_plain {s : String} {next : List Char} (hs : isPlainIdentifier s = true)
    (hnext : Apart d (.word s none) next) :
    Begins d ((Token.word s none).chars ++ next) (.word s none) next := by
  rw [Token.chars_word]
  unfold isPlainIdentifier at hs
  split at hs
  · exact absurd hs Bool.false_ne_true
  rename_i c rest hchars
  rw [Bool.and_eq_true, List.all_eq_true] at hs
  obtain ⟨hstart, hrest⟩ := hs
  have hparts : ∀ p ∈ rest, Token.isWordPart d p = true := fun p hp => isWordPart_of_plainPart (hrest p hp)
  have hintro : c ∈ Token.literalLetters → Token.introducesLiteral d c (rest ++ next) = false := by
    intro hletter
    cases rest with
    | nil => exact hnext.introduces c hletter hchars
    | cons p rest => exact Token.introducesLiteral_of_wordPart (hparts p List.mem_cons_self)
  have hword : Token.scanWord d [c] (rest ++ next) = (.word s none, next) := by
    rw [Token.scanWord, Token.takeWhile_append_stops hparts hnext.stops,
      Token.dropWhile_append_stops hparts hnext.stops, List.singleton_append, ← hchars,
      String.ofList_toList]
  rw [hchars]
  exact (scan_plainStart hstart hintro).trans (congrArg Except.ok hword)

/-! ## Identifiers -/

/-- An identifier is read before every text that does not run into it. -/
theorem begins_formatIdentifier (s : String) {next : List Char} (hnext : Apart d (tableToken d s) next) :
    Begins d ((d.formatIdentifier s).toList ++ next) (tableToken d s) next := by
  rw [← tableToken_text]
  show Begins d ((tableToken d s).chars ++ next) (tableToken d s) next
  unfold tableToken at hnext ⊢
  split
  · rename_i hbare
    rw [if_pos hbare] at hnext
    exact begins_plain (Bool.and_eq_true_iff.1 hbare).1 hnext
  · rename_i hquoted
    rw [if_neg hquoted] at hnext
    exact begins_quotedName s hnext

theorem tableToken_name? (s : String) : (tableToken d s).name? = some s := by
  unfold tableToken
  split
  · rfl
  · exact quotedName_name? s

theorem tokenize_formatIdentifier (s : String) :
    Token.tokenize d (d.formatIdentifier s) = .ok [tableToken d s] := by
  have hbegins := begins_formatIdentifier (d := d) s (Token.apart_nil _)
  rw [List.append_nil] at hbegins
  exact Token.tokenize_eq_single.2 hbegins

theorem tokenize_quoteIdentifier (s : String) :
    Token.tokenize d (d.quoteIdentifier s) = .ok [quotedName d s] := by
  have hbegins := begins_quotedName (d := d) s (Token.apart_nil _)
  rw [List.append_nil] at hbegins
  rw [← quotedName_text]
  exact Token.tokenize_eq_single.2 hbegins

/-- Different identifiers are printed differently, also where one of them is quoted. -/
theorem formatIdentifier_injective (d : Dialect) : Function.Injective d.formatIdentifier := by
  intro s t h
  have htokens : tableToken d s = tableToken d t := by
    have hs := tokenize_formatIdentifier (d := d) s
    rw [h, tokenize_formatIdentifier] at hs
    exact (List.cons.inj (Except.ok.inj hs)).1.symm
  have hname := tableToken_name? (d := d) s
  rw [htokens, tableToken_name?] at hname
  exact (Option.some.inj hname).symm

/-- Every identifier is printed in every dialect as the text of one word, of which it is the name,
both where quotes are left out when they can be and where they are always written. -/
theorem tokenize_identifier (d : Dialect) (s : String) :
    (Token.tokenize d (d.formatIdentifier s) = .ok [tableToken d s] ∧
      (tableToken d s).name? = some s) ∧
    (Token.tokenize d (d.quoteIdentifier s) = .ok [quotedName d s] ∧
      (quotedName d s).name? = some s) := by
  constructor
  · exact ⟨tokenize_formatIdentifier s, tableToken_name? s⟩
  · exact ⟨tokenize_quoteIdentifier s, quotedName_name? s⟩

example : (Token.tokenize .tsql (formatIdentifier .tsql "a]b")).toOption =
    some [.word "a]]b" (some '[')] := by
  decide +kernel

end Dialect

end ReportSql
