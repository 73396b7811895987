import ReportSql.Proofs.Query.Placeholders
import ReportSql.Proofs.Query.Written
import ReportSql.Proofs.Sqlite.Trimmed

/-!
# Generated fragments read by the database

The database reads generated fragments as they are meant: a name is quoted where it has to
be, and a word ends where a blank, a comma or a parenthesis comes behind it. The named
placeholders of the tokens are those of the fragments.

## Main definitions

* `Fragment.Firm` - fragments that are read as they are meant

## Main results

* `Fragment.Firm.append`, `Fragment.Firm.gap` - such fragments side by side
* `Fragment.placeholdersIn_written` - their placeholders
-/

namespace ReportSql

open Sqlite (isBareWord isDecimal isSymbols paired)
open Statement (placeholdersIn)
open Token (Tame Soft soft_of_mem headOr)

/-! ## Names and numbers -/

namespace Sqlite

theorem isWordPart_of_plain {c : Char} (h : Dialect.isPlainPart c = true) :
    isWordPart c = true ∧ Text.isBlank c = false := by
  constructor
  · simp only [Dialect.isPlainPart, Char.isAlphanum, Bool.or_eq_true, beq_iff_eq] at h
    simp only [isWordPart, isWordStart, Bool.or_eq_true, beq_iff_eq]
    tauto
  · have hrange : 0x30 ≤ c.toNat ∧ c.toNat ≤ 0x7a := by
      simp only [Dialect.isPlainPart, Char.isAlphanum, Char.isAlpha, Char.isUpper, Char.isLower,
        Char.isDigit, Bool.or_eq_true, Bool.and_eq_true, decide_eq_true_eq, beq_iff_eq,
        UInt32.le_iff_toNat_le] at h
      rcases h with h | rfl
      · change _ ∨ _ at h
        have hval : c.val.toNat = c.toNat := rfl
        simp only [hval] at h
        simp at h
        omega
      · decide
    simp only [Text.isBlank, Bool.or_eq_false_iff, Bool.and_eq_false_imp, decide_eq_true_eq,
      decide_eq_false_iff_not, beq_eq_false_iff_ne]
    omega

/-- A plain identifier is a word of the database. -/
theorem isBareWord_of_plain {name : String} (h : Dialect.isPlainIdentifier name = true) :
    isBareWord name.toList = true ∧ name.toList.all (!Text.isBlank ·) = true := by
  unfold Dialect.isPlainIdentifier at h
  split at h
  · exact Bool.noConfusion h
  · rename_i c rest hname
    rw [Bool.and_eq_true, List.all_eq_true] at h
    obtain ⟨hstart, hrest⟩ := h
    rw [hname, isBareWord, List.all_cons]
    have hfirst : Dialect.isPlainPart c = true := by
      simp only [Dialect.isPlainStart, Bool.or_eq_true] at hstart
      simp only [Dialect.isPlainPart, Char.isAlphanum, Bool.or_eq_true]
      tauto
    have hword : isWordStart c = true := by
      simp only [Dialect.isPlainStart, Bool.or_eq_true] at hstart
      simp only [isWordStart, Bool.or_eq_true]
      tauto
    have hmark : c ≠ '\ufeff' := ne_of_class hfirst (by decide)
    simp only [Bool.and_eq_true, bne_iff_ne, List.all_eq_true, Bool.not_eq_true']
    exact ⟨⟨⟨hword, hmark⟩, fun d hd => (isWordPart_of_plain (hrest d hd)).1⟩,
      (isWordPart_of_plain hfirst).2, fun d hd => (isWordPart_of_plain (hrest d hd)).2⟩

theorem paired_doubled (quote : Char) (name : String) :
    paired quote (Dialect.doubled quote name) = true := by
  obtain ⟨cs, rfl⟩ : ∃ cs, name = String.ofList cs := ⟨name.toList, name.ofList_toList.symm⟩
  induction cs with
  | nil => rfl
  | cons c rest ih =>
    by_cases hc : c = quote
    · rw [hc, Dialect.doubled_self, paired, if_pos rfl, ih, beq_self_eq_true, Bool.and_self]
    · rw [Dialect.doubled_of_ne quote hc]
      cases hmore : Dialect.doubled quote (String.ofList rest) with
      | nil => simpa [paired] using hc
      | cons d more =>
        rw [hmore] at ih
        rw [paired, if_neg hc, ih]

theorem isDigit_toString (n : Nat) : ∀ c ∈ (toString n).toList, c.isDigit = true := by
  intro c hc
  rw [show (toString n).toList = Nat.toDigits 10 n from Nat.toList_repr] at hc
  exact Nat.isDigit_of_mem_toDigits (by decide) (by decide) hc

theorem exists_toString (n : Nat) : ∃ c rest, (toString n).toList = c :: rest ∧ c.isDigit = true := by
  have hne : (toString n).toList ≠ [] := by
    rw [show (toString n).toList = Nat.toDigits 10 n from Nat.toList_repr]
    exact Nat.toDigits_ne_nil
  obtain ⟨c, rest, hcons⟩ := List.exists_cons_of_ne_nil hne
  exact ⟨c, rest, hcons, isDigit_toString n c (hcons ▸ List.mem_cons_self)⟩

theorem isDecimal_toString (n : Nat) : isDecimal (toString n).toList = true := by
  have hrest : (splitDigits Char.isDigit (toString n).toList).2 = [] := by
    refine List.dropWhile_eq_nil_iff.2 fun c hc => ?_
    rw [isDigit_toString n c hc, Bool.true_or]
  have hend : (splitNumber (toString n).toList).2 = [] := by
    rw [splitNumber_rest, hrest]
    rfl
  obtain ⟨c, rest, hcons, hdigit⟩ := exists_toString n
  have hpoint : c ≠ '.' := by
    rintro rfl
    exact Bool.noConfusion hdigit
  rw [isDecimal, hend, hcons]
  simp [opensNumber, hpoint, hdigit]

end Sqlite

namespace Token

variable {next : Option Char} {value : String}

/-- A word that is one of the database's own, before the end of a word. -/
theorem tame_word (hword : isBareWord value.toList = true ∧ value.toList.all (!Text.isBlank ·) = true)
    (hnext : next.any Sqlite.isWordPart = false) (hquote : next ≠ some '\'') :
    Tame next [.word value none] := by
  refine .token ?_ .nil
  have hnul := notMem_of_isBareWord hword.1 (c := '\x00') (by decide)
  simp [fits, isRead, headOr, hword.1, hword.2, hnext, hquote, hnul]

theorem headOr_number (n : Nat) (next : Option Char) :
    ∃ c, headOr [.number (toString n) false] next = some c ∧ c.isDigit = true := by
  obtain ⟨c, rest, hcons, hdigit⟩ := Sqlite.exists_toString n
  refine ⟨c, ?_, hdigit⟩
  rw [headOr_cons, chars_number, if_neg Bool.false_ne_true, List.append_nil, hcons]
  rfl

theorem headOr_identifier (name : String) (next : Option Char) :
    ∃ c, headOr [Statement.tableToken .sqlite name] next = some c ∧ c.isDigit = false := by
  unfold Statement.tableToken
  split
  · rename_i hplain
    rw [Bool.and_eq_true, Dialect.isPlainIdentifier] at hplain
    obtain ⟨hplain, -⟩ := hplain
    split at hplain
    · exact Bool.noConfusion hplain
    · rename_i c rest hname
      rw [Bool.and_eq_true] at hplain
      refine ⟨c, by rw [headOr_cons, chars_word, hname]; rfl, Bool.eq_false_iff.2 fun hdigit => ?_⟩
      have hnone : Sqlite.digits.any Dialect.isPlainStart = false := by decide
      exact List.any_eq_false.1 hnone c (Sqlite.mem_digits hdigit) hplain.1
  · exact ⟨'"', by rw [headOr_cons, chars_quotedWord]; rfl, by decide⟩

theorem tame_identifier (name : String) (hnext : next.any Sqlite.isWordPart = false)
    (hquote : next ≠ some '\'') (hdouble : next ≠ some '"') :
    Tame next [Statement.tableToken .sqlite name] := by
  unfold Statement.tableToken
  split
  · rename_i hplain
    rw [Bool.and_eq_true] at hplain
    exact tame_word (Sqlite.isBareWord_of_plain hplain.1) hnext hquote
  · refine .token ?_ .nil
    simp [fits, isRead, headOr, Dialect.identifierQuotes, isDoubleQuoted, Sqlite.paired_doubled, hdouble]

theorem fits_punctuation {mark : Punctuation} (h : mark ∉ [.period, .colon, .openBracket])
    (next : Option Char) : (punctuation mark).fits next = true := by
  have hloose : mark ∉ [.period, .colon, .openBracket] → Sqlite.isLoose mark.char = true ∧
      mark.char ≠ '-' ∧ mark.char ≠ '/' ∧ mark.char ≠ '.' ∧ mark.char ≠ '\x00' := by
    cases mark <;> decide
  obtain ⟨hloose, hminus, hslash, hpoint, hnul⟩ := hloose h
  simp [fits, isRead, isSymbols, Sqlite.opensWith, hloose, hminus, hslash, hpoint, hnul.symm]

theorem Soft.notWordPart (h : Soft next) : next.any Sqlite.isWordPart = false := by
  have hword := h.word
  cases next <;> simp_all

end Token

namespace Fragment

variable {f : Fragment} {first second rest : List Fragment} {next : Option Char}

/-- The database reads fragments as they are meant, where a blank, a comma or a closing parenthesis
comes behind them. -/
def Firm (fragments : List Fragment) : Prop :=
  ∀ next, Soft next → Tame next (fragments.flatMap (written .sqlite))

/-- A fragment before which a word ends. -/
def isGap : Fragment → Bool
  | comma | closeParen | space | newline => true
  | _ => false

/-- A word ends before some fragments. -/
def opensGap (fragments : List Fragment) : Bool :=
  fragments.head?.all isGap

theorem firm_nil : Firm [] :=
  fun _ _ => .nil

theorem written_of_isGap (h : f.isGap = true) :
    ∃ t c, f.written .sqlite = [t] ∧ t.chars = [c] ∧ c ∈ [' ', '\n', ',', ')'] ∧
      ∀ next, t.fits next = true := by
  cases f with
  | comma => exact ⟨_, ',', rfl, rfl, by decide, Token.fits_punctuation (by decide)⟩
  | closeParen => exact ⟨_, ')', rfl, rfl, by decide, Token.fits_punctuation (by decide)⟩
  | space => exact ⟨_, ' ', rfl, rfl, by decide, fun _ => rfl⟩
  | newline => exact ⟨_, '\n', rfl, rfl, by decide, fun _ => rfl⟩
  | _ => exact Bool.noConfusion h

theorem Firm.gap (h : Firm rest) (hf : f.isGap = true) : Firm (f :: rest) := by
  intro next hnext
  obtain ⟨t, c, hwritten, -, -, hfits⟩ := written_of_isGap hf
  rw [List.flatMap_cons, hwritten]
  exact .token (hfits _) (h next hnext)

theorem Firm.append (h : Firm first) (h' : Firm second) (hgap : opensGap second = true) :
    Firm (first ++ second) := by
  intro next hnext
  rw [List.flatMap_append]
  refine (h _ ?_).append (h' next hnext)
  cases second with
  | nil => exact hnext
  | cons f rest =>
    obtain ⟨t, c, hwritten, hchars, hc, -⟩ := written_of_isGap (f := f) hgap
    rw [List.flatMap_cons, hwritten, List.singleton_append, Token.headOr_cons, hchars]
    exact soft_of_mem hc

theorem Firm.spaced (h : Firm first) (h' : Firm second) : Firm (first ++ .space :: second) :=
  h.append (h'.gap rfl) rfl

theorem Firm.openParen (h : Firm rest) : Firm (.openParen :: rest) :=
  fun next hnext => .token (Token.fits_punctuation (by decide) _) (h next hnext)

theorem Firm.indent (h : Firm rest) (levels : Nat) : Firm (.indent levels :: rest) := by
  intro next hnext
  rw [List.flatMap_cons, written]
  refine Tame.append ?_ (h next hnext)
  generalize 2 * levels = n
  induction n with
  | zero => exact .nil
  | succ n ih => exact .token rfl ih

/-! ## Single fragments -/

theorem firm_keyword (word : Keyword) : Firm [.keyword word] := by
  intro next hnext
  have hsingle : ∀ value : String, isBareWord value.toList = true ∧
      value.toList.all (!Text.isBlank ·) = true → Tame next [.word value none] :=
    fun value hvalue => Token.tame_word hvalue hnext.notWordPart (hnext.quote '\'' (by decide))
  have hdouble : ∀ first second : String, isBareWord first.toList = true ∧
      first.toList.all (!Text.isBlank ·) = true → isBareWord second.toList = true ∧
      second.toList.all (!Text.isBlank ·) = true →
        Tame next [.word first none, .blank .space, .word second none] :=
    fun first second hfirst hsecond =>
      have hbefore : Tame (some ' ') [.word first none] := Token.tame_word hfirst (by decide) (by decide)
      have hboth := hbefore.before rfl (.token (t := .blank .space) rfl (hsingle second hsecond))
      hboth
  cases word with
  | groupBy => exact hdouble "GROUP" "BY" (by decide) (by decide)
  | orderBy => exact hdouble "ORDER" "BY" (by decide) (by decide)
  | _ => exact hsingle _ (by decide)

theorem firm_operator (op : BinaryOp) : Firm [.operator op] := by
  intro next hnext
  have hword : ∀ value : String, isBareWord value.toList = true ∧
      value.toList.all (!Text.isBlank ·) = true → Tame next [.word value none] :=
    fun value hvalue => Token.tame_word hvalue hnext.notWordPart (hnext.quote '\'' (by decide))
  have hsymbol : ∀ text : String, text.toList ≠ [] → isSymbols text.toList none = true →
      '\x00' ∉ text.toList → Tame next [.operator text] := by
    intro text hne hsymbols hnul
    refine .token ?_ .nil
    have hread := Token.isSymbols_of_opens hsymbols hnext.opens
    simp [Token.fits, Token.isRead, Token.headOr, hne, hread, hnul]
  cases op with
  | and => exact hword "AND" (by decide)
  | or => exact hword "OR" (by decide)
  | like => exact hword "LIKE" (by decide)
  | _ => exact hsymbol _ (by decide) (by decide) (by decide)

theorem firm_identifier (name : String) : Firm [.identifier name] :=
  fun _ hnext => Token.tame_identifier name hnext.notWordPart (hnext.quote _ (by decide))
    (hnext.quote _ (by decide))

theorem firm_star : Firm [.star] := by
  intro next hnext
  refine .token ?_ .nil
  have hread := @Token.isSymbols_of_opens ['*'] none _ (by decide) hnext.opens
  simpa [Token.fits, Token.isRead, Token.headOr] using hread

theorem firm_integer (value : Int) : Firm [.integer value] := by
  intro next hnext
  have hnumber : ∀ n : Nat, Tame next [.number (toString n) false] := by
    intro n
    refine .token ?_ .nil
    have hdecimal := Sqlite.isDecimal_toString n
    have hnul : '\x00' ∉ (toString n).toList := by
      intro hmem
      exact absurd (Sqlite.isDigit_toString n _ hmem) (by decide)
    have hblank : (toString n).toList.all (!Text.isBlank ·) = true := by
      refine List.all_eq_true.2 fun c hc => ?_
      rw [Token.isBlank_of_isDigit (Sqlite.isDigit_toString n c hc), Bool.not_false]
    have hword := hnext.notWordPart
    have hpoint := hnext.point
    simp_all [Token.fits, Token.isRead, Token.headOr]
  cases value with
  | ofNat n => exact hnumber n
  | negSucc n =>
    -- the minus sign stands before a digit, so it opens no comment
    obtain ⟨c, hc, hdigit⟩ := Token.headOr_number (n + 1) next
    have hminus : c ≠ '-' := by
      rintro rfl
      exact absurd hdigit (by decide)
    have hfits : Token.fits (headOr [.number (toString (n + 1)) false] next) (.operator "-") = true := by
      have hloose : Sqlite.isLoose '-' = true := by decide
      rw [hc]
      simp [Token.fits, Token.isRead, isSymbols, Sqlite.opensWith, hminus, hloose]
    exact .token hfits (hnumber (n + 1))

theorem firm_placeholder {name : String} (h : Dialect.isPlainIdentifier name = true) :
    Firm [.placeholder name] := by
  intro next hnext
  refine .parameter ?_ .nil
  have hword := Sqlite.isBareWord_of_plain h
  simp [Token.isMarked, Token.headOr, hword.1, hword.2, hnext.word]

/-- A column or all columns of a table. -/
theorem firm_qualified (table : Option String) {f : Fragment} (h : f = .star ∨ ∃ name, f = .identifier name) :
    Firm (qualifierFragments table ++ [f]) := by
  have hlast : Firm [f] := by
    rcases h with rfl | ⟨name, rfl⟩
    · exact firm_star
    · exact firm_identifier name
  cases table with
  | none => exact hlast
  | some table =>
    intro next hnext
    have hpoint : Token.fits (headOr ([f].flatMap (written .sqlite)) next) (.punctuation .period) = true := by
      obtain ⟨c, hc, hdigit⟩ : ∃ c, headOr ([f].flatMap (written .sqlite)) next = some c ∧
          c.isDigit = false := by
        rcases h with rfl | ⟨name, rfl⟩
        · exact ⟨'*', rfl, by decide⟩
        · exact Token.headOr_identifier name next
      have hloose : Sqlite.isLoose '.' = true := by decide
      rw [hc]
      simp [Token.fits, Token.isRead, isSymbols, Sqlite.opensWith, Punctuation.char, hdigit, hloose]
    have htable : Tame (some '.') [Statement.tableToken .sqlite table] :=
      Token.tame_identifier table (by decide) (by decide) (by decide)
    have hall := htable.before rfl (.token hpoint (hlast next hnext))
    exact hall

/-! ## Expressions -/

theorem Firm.binary (h : Firm first) (op : BinaryOp) (h' : Firm second) :
    Firm (first ++ [.space, .operator op, .space] ++ second) := by
  rw [List.append_assoc]
  exact h.spaced ((firm_operator op).spaced h')

theorem Firm.paren (h : Firm first) : Firm ([.openParen] ++ first ++ [.closeParen]) :=
  Firm.openParen (h.append (firm_nil.gap rfl) rfl)

theorem Firm.call {name : String} (h : Firm rest)
    (hname : isBareWord (Text.upper name).toList = true ∧
      (Text.upper name).toList.all (!Text.isBlank ·) = true) :
    Firm ([.function name, .openParen] ++ rest ++ [.closeParen]) := by
  intro next hnext
  have hinner : Firm (rest ++ [.closeParen]) := h.append (firm_nil.gap rfl) rfl
  rw [List.append_assoc]
  have hword : Tame (some '(') [.word (Text.upper name) none] :=
    Token.tame_word hname (by decide) (by decide)
  have hall := hword.before rfl (hinner.openParen next hnext)
  exact hall

/-- The placeholders among the tokens of fragments. -/
theorem placeholdersIn_written (fragments : List Fragment) :
    placeholdersIn (fragments.flatMap (written .sqlite)) = names fragments := by
  -- only a colon opens a placeholder
  have hskip : ∀ (tokens rest : List Token), (∀ t ∈ tokens, t ≠ .punctuation .colon) →
      placeholdersIn (tokens ++ rest) = placeholdersIn rest := by
    intro tokens rest
    induction tokens with
    | nil => exact fun _ => rfl
    | cons t tokens ih =>
      intro h
      rw [List.cons_append, Token.placeholdersIn_cons (h t List.mem_cons_self),
        ih fun u hu => h u (List.mem_cons_of_mem t hu)]
  induction fragments with
  | nil => rfl
  | cons f rest ih =>
    rw [List.flatMap_cons, names_cons]
    cases f with
    | placeholder name =>
      rw [written, Statement.placeholderTokens, if_neg (by decide), List.cons_append, List.cons_append,
        List.nil_append, Token.placeholdersIn_parameter, ih]
      rfl
    | keyword word => rw [hskip _ _ (by cases word <;> decide), ih]; rfl
    | operator op => rw [hskip _ _ (by cases op <;> decide), ih]; rfl
    | identifier name =>
      obtain ⟨value, quote, hword⟩ := Statement.tableToken_eq_word (d := .sqlite) name
      rw [written, hword, hskip _ _ (by simp), ih]
      rfl
    | integer value => rw [hskip _ _ (by cases value <;> simp [written, writtenInteger]), ih]; rfl
    | indent levels =>
      rw [hskip _ _ fun t ht => by rw [List.eq_of_mem_replicate ht]; exact Token.noConfusion, ih]
      rfl
    | function name => rw [hskip _ _ (by simp [written]), ih]; rfl
    | _ => rw [hskip _ _ (by decide), ih]; rfl

end Fragment

end ReportSql
