import ReportSql.Proofs.Sqlite.Parameters
import ReportSql.Proofs.Token.Apart
import ReportSql.Statement.Basic

/-!
# Tokens that the database reads alike

Where the database reads each token of a text as the program does, the parameters that it
finds are the named placeholders of the tokens. For this every token must be one of the
database's own, and the text behind it must not run into it. A NUL, at which the database
stops, may only stand in a quoted name.

## Main definitions

* `Token.fits` - the database reads a token as the program does
* `Token.Tame` - it does so for all tokens of a list

## Main results

* `Token.Tame.parameters` - the parameters in the text of such tokens
-/

namespace ReportSql

open Sqlite (Adds Finds visible isBareWord isDecimal isSymbols isLoose paired)

namespace Token

/-! ## One token -/

/-- Whether a text holds no line break, unless at its end, and the line ends with it. -/
def endsLine (content : List Char) (next : Option Char) : Bool :=
  match content.dropWhile (· ≠ '\n') with
  | [] => next.all (· == '\n')
  | _ :: rest => rest.isEmpty

/-- Whether the database reads a token as one of its own before a character, and finds no parameter in
it. -/
def isRead (next : Option Char) : Token → Bool
  | .word value none =>
    isBareWord value.toList && value.toList.all (!Text.isBlank ·) &&
      !next.any Sqlite.isWordPart && next != some '\''
  | .word value (some quote) =>
    if quote = '[' then !value.toList.contains ']'
    else (quote == '"' || quote == '\x60') && paired quote value.toList && next != some quote
  | .number digits long =>
    !long && isDecimal digits.toList && digits.toList.all (!Text.isBlank ·) &&
      !next.any Sqlite.isWordPart && next != some '.'
  | .literal .single content => paired '\'' content.toList && next != some '\''
  | .literal .hexadecimal content => !content.toList.contains '\''
  | .punctuation mark => isSymbols [mark.char] next
  | .operator text => !text.toList.isEmpty && isSymbols text.toList next
  | .blank _ => true
  | .lineComment mark content =>
    mark == "--" && endsLine content.toList next
  | .blockComment content => (Sqlite.afterComment (content.toList ++ ['*', '/'])).isEmpty
  | _ => false

/-- Whether a token is a name in double quotes. -/
def isDoubleQuoted : Token → Bool
  | .word _ (some '"') => true
  | _ => false

/-- Whether the database reads a token as the program does, where a NUL stands at most in a name in
double quotes. -/
def fits (next : Option Char) (t : Token) : Bool :=
  t.isRead next && (t.isDoubleQuoted || !t.chars.contains '\x00')

theorem adds_lineComment {content next : List Char} (h : endsLine content next.head? = true) :
    Adds ('-' :: '-' :: content) next [] := by
  unfold endsLine at h
  have hcontent : ∀ c ∈ content.takeWhile (· ≠ '\n'), c ≠ '\n' := by
    intro c hc
    simpa using List.mem_takeWhile_imp hc
  have hsplit := List.takeWhile_append_dropWhile (p := (· ≠ '\n')) (l := content)
  -- the content has no line break, or ends with the one that ends the comment
  cases hrest : content.dropWhile (· ≠ '\n') with
  | nil =>
    rw [hrest] at h hsplit
    rw [List.append_nil] at hsplit
    rw [hsplit] at hcontent
    refine Sqlite.adds_lineComment (fun hmem => hcontent _ hmem rfl) fun c hc => ?_
    rw [Option.mem_def.1 hc] at h
    simpa using h
  | cons c rest =>
    rw [hrest] at h hsplit
    obtain rfl : rest = [] := by simpa using h
    have hc : c = '\n' := by
      have hhead := List.head?_dropWhile_not (· ≠ '\n') content
      rw [hrest] at hhead
      simpa using hhead
    subst hc
    rw [← hsplit]
    have hcomment : Adds ('-' :: '-' :: content.takeWhile (· ≠ '\n')) ('\n' :: next) [] :=
      Sqlite.adds_lineComment (fun hmem => hcontent _ hmem rfl) fun c hc => (Option.some.inj hc).symm
    exact hcomment.append (Sqlite.adds_space (by decide) (by decide))

theorem stops_of_any {p : Char → Bool} {next : List Char} (h : next.head?.any p = false) :
    Stops p next := by
  intro c hc
  rwa [Option.mem_def.1 hc] at h

theorem adds_word {value : String} {quote : Option Char} {next : List Char}
    (h : (word value quote).isRead next.head? = true) : Adds (word value quote).chars next [] := by
  cases quote with
  | none =>
    simp only [isRead, Bool.and_eq_true, bne_iff_ne, Bool.not_eq_true'] at h
    obtain ⟨⟨⟨hword, -⟩, hnext⟩, hquote⟩ := h
    rw [chars_word]
    exact Sqlite.adds_word hword (stops_of_any hnext) hquote
  | some quote =>
    rw [chars_quotedWord]
    rw [isRead] at h
    split at h
    · rename_i hbracket
      subst hbracket
      exact Sqlite.adds_bracketed (by simpa using h)
    · rename_i hbracket
      simp only [Bool.and_eq_true, Bool.or_eq_true, beq_iff_eq, bne_iff_ne] at h
      obtain ⟨⟨hquote, hpaired⟩, hnext⟩ := h
      rw [closingQuote, if_neg hbracket]
      exact Sqlite.adds_quoted (by simpa using .inr hquote) hpaired hnext

theorem adds_of_isRead {t : Token} {next : List Char} (h : t.isRead next.head? = true) :
    Adds t.chars next [] := by
  cases t with
  | word value quote => exact adds_word h
  | number digits long =>
    simp only [isRead, Bool.and_eq_true, bne_iff_ne, Bool.not_eq_true'] at h
    obtain ⟨⟨⟨⟨rfl, hdigits⟩, -⟩, hnext⟩, hpoint⟩ := h
    rw [chars_number, if_neg Bool.false_ne_true, List.append_nil]
    exact Sqlite.adds_number hdigits (stops_of_any hnext) hpoint
  | literal kind content =>
    rw [chars_literal]
    cases kind with
    | single =>
      simp only [isRead, Bool.and_eq_true, bne_iff_ne] at h
      exact Sqlite.adds_quoted (by decide) h.1 h.2
    | hexadecimal =>
      simp only [isRead, Bool.not_eq_true', List.contains_eq_mem, decide_eq_false_iff_not] at h
      exact Sqlite.adds_blob h
    | _ => simp [isRead] at h
  | punctuation mark =>
    rw [chars_punctuation]
    exact Sqlite.adds_symbols h
  | operator text =>
    rw [isRead, Bool.and_eq_true] at h
    exact Sqlite.adds_symbols h.2
  | blank kind =>
    rw [chars_blank]
    cases kind <;> exact Sqlite.adds_space (by decide) (by decide)
  | lineComment mark content =>
    rw [isRead, Bool.and_eq_true, beq_iff_eq] at h
    obtain ⟨rfl, hcontent⟩ := h
    rw [chars_lineComment]
    show Adds ('-' :: '-' :: content.toList) next []
    exact adds_lineComment hcontent
  | blockComment content =>
    rw [isRead, List.isEmpty_iff] at h
    rw [chars_blockComment]
    exact Sqlite.adds_blockComment h
  | _ => simp [isRead] at h

/-! ## Lists of tokens -/

/-- The character that stands first in the text of tokens and of what comes behind them. -/
def headOr (tokens : List Token) (next : Option Char) : Option Char :=
  (charsOf tokens).head?.or next

/-- Whether the database reads a word behind a colon as the name of a parameter. -/
def isMarked (next : Option Char) (name : String) : Bool :=
  isBareWord name.toList && name.toList.all (!Text.isBlank ·) &&
    !next.any fun c => Sqlite.isWordPart c || c == '(' || c == ':'

/-- The database reads tokens as the program does, if the given character comes behind them. The only
parameters are words behind colons. -/
inductive Tame (next : Option Char) : List Token → Prop
  | nil : Tame next []
  | parameter {name : String} {rest : List Token} (hname : isMarked (headOr rest next) name = true)
      (hrest : Tame next rest) : Tame next (.punctuation .colon :: .word name none :: rest)
  | token {t : Token} {rest : List Token} (hfits : t.fits (headOr rest next) = true)
      (hrest : Tame next rest) : Tame next (t :: rest)

/-- The tokens as a test. -/
def isTame (next : Option Char) : List Token → Bool
  | .punctuation .colon :: .word name none :: rest =>
    isMarked (headOr rest next) name && isTame next rest
  | t :: rest => t.fits (headOr rest next) && isTame next rest
  | [] => true

theorem fits_colon (next : Option Char) : (punctuation .colon).fits next = false := by
  rw [fits, isRead]
  rfl

theorem isTame_iff {next : Option Char} {tokens : List Token} :
    isTame next tokens = true ↔ Tame next tokens := by
  constructor
  · fun_induction isTame next tokens with
    | case1 name rest ih =>
      rw [Bool.and_eq_true]
      exact fun ⟨hname, hrest⟩ => .parameter hname (ih hrest)
    | case2 t rest _ ih =>
      rw [Bool.and_eq_true]
      exact fun ⟨hfits, hrest⟩ => .token hfits (ih hrest)
    | case3 => exact fun _ => .nil
  · intro h
    induction h with
    | nil => rfl
    | parameter hname _ ih => rw [isTame, hname, ih, Bool.and_true]
    | @token t rest hfits _ ih =>
      rw [isTame, hfits, ih, Bool.and_true]
      rintro name more rfl
      rw [fits_colon] at hfits
      exact Bool.noConfusion hfits

instance (next : Option Char) (tokens : List Token) : Decidable (Tame next tokens) :=
  decidable_of_iff _ isTame_iff

/-! ## Parameters -/

variable {next next' : Option Char}

/-- A character before which all tokens end except comments to the end of their line, or none. -/
structure Soft (next : Option Char) : Prop where
  word : next.any (fun c => Sqlite.isWordPart c || c == '(' || c == ':') = false
  quote : ∀ quote ∈ ['\'', '"', '\x60'], next ≠ some quote
  point : next ≠ some '.'
  opens : ∀ c, Sqlite.opensWith c next = false

theorem soft_none : Soft none where
  word := rfl
  quote := by decide
  point := by decide
  opens c := by simp [Sqlite.opensWith]

theorem soft_of_mem {c : Char} (h : c ∈ [' ', '\n', ',', ')']) : Soft (some c) where
  word := by fin_cases h <;> decide
  quote := by fin_cases h <;> decide
  point := by fin_cases h <;> decide
  opens d := by fin_cases h <;> simp [Sqlite.opensWith, Char.isDigit]

theorem isSymbols_of_opens {cs : List Char} {next next' : Option Char} (h : isSymbols cs next = true)
    (hopens : ∀ c, Sqlite.opensWith c next' = false) : isSymbols cs next' = true := by
  induction cs with
  | nil => rfl
  | cons c rest ih =>
    simp only [isSymbols, Bool.and_eq_true] at h ⊢
    obtain ⟨⟨hloose, hfirst⟩, hrest⟩ := h
    refine ⟨⟨hloose, ?_⟩, ih hrest⟩
    cases rest with
    | nil => simp [hopens c]
    | cons d rest => exact hfirst

/-- A character, or none, before which every token ends that ends before another one, except comments
to the end of their line. -/
structure Lenient (next next' : Option Char) : Prop where
  word : next'.any Sqlite.isWordPart = true → next.any Sqlite.isWordPart = true
  quote : ∀ quote ∈ ['\'', '"', '\x60'], next' ≠ some quote
  point : next' ≠ some '.'
  opens : ∀ c, Sqlite.opensWith c next' = false

theorem Soft.lenient (h : Soft next') (next : Option Char) : Lenient next next' where
  word hword := by
    have hnone := h.word
    cases next' <;> simp_all
  quote := h.quote
  point := h.point
  opens := h.opens

theorem isRead_lenient {t : Token} (h : t.isRead next = true) (hlenient : Lenient next next')
    (hline : t.isLineComment = true → next.all (· == '\n') = true → next'.all (· == '\n') = true) :
    t.isRead next' = true := by
  have hquote := hlenient.quote '\'' (by decide)
  have hword : next.any Sqlite.isWordPart = false → next'.any Sqlite.isWordPart = false := by
    have hword := hlenient.word
    rw [← Bool.not_eq_true, ← Bool.not_eq_true]
    exact mt hword
  cases t with
  | word value quote =>
    cases quote with
    | none => simp_all [isRead]
    | some quote =>
      rw [isRead] at h ⊢
      split at h
      · rename_i hbracket
        rwa [if_pos hbracket]
      · rename_i hbracket
        rw [if_neg hbracket]
        simp only [Bool.and_eq_true, Bool.or_eq_true, beq_iff_eq, bne_iff_ne] at h ⊢
        exact ⟨h.1, hlenient.quote quote (by simpa using .inr h.1.1)⟩
  | number digits long =>
    have hpoint := hlenient.point
    simp_all [isRead]
  | literal kind content => cases kind <;> simp_all [isRead]
  | operator text =>
    rw [isRead, Bool.and_eq_true] at h ⊢
    exact ⟨h.1, isSymbols_of_opens h.2 hlenient.opens⟩
  | punctuation mark => exact isSymbols_of_opens h hlenient.opens
  | lineComment mark content =>
    rw [isRead, Bool.and_eq_true] at h ⊢
    refine ⟨h.1, ?_⟩
    have hbreak := h.2
    have hnext := hline rfl
    unfold endsLine at hbreak ⊢
    split at hbreak
    · exact hnext hbreak
    · exact hbreak
  | _ => simp_all [isRead]

theorem isRead_soft {t : Token} (h : t.isRead next = true) (hsoft : Soft next')
    (hline : t.isLineComment = true → next'.all (· == '\n') = true) : t.isRead next' = true :=
  isRead_lenient h (hsoft.lenient next) fun ht _ => hline ht

/-- Up to a NUL, a text begins like the whole of it. -/
theorem isRead_visible {t : Token} {cs : List Char} (h : t.isRead cs.head? = true) :
    t.isRead (visible cs).head? = true := by
  cases cs with
  | nil => exact h
  | cons c rest =>
    rw [visible, List.takeWhile_cons]
    split
    · exact h
    · exact isRead_soft h soft_none fun _ => rfl

theorem stops_visible {p : Char → Bool} {cs : List Char} (h : Stops p cs) : Stops p (visible cs) := by
  cases cs with
  | nil => exact h
  | cons c rest =>
    rw [visible, List.takeWhile_cons]
    split
    · exact stops_cons.2 (stops_cons.1 h)
    · exact stops_nil p

theorem notMem_of_isBareWord {c : Char} {cs : List Char} (h : isBareWord cs = true)
    (hc : Sqlite.isWordPart c = false) : c ∉ cs := by
  have hparts : ∀ d ∈ cs, Sqlite.isWordPart d = true := by
    cases cs with
    | nil => exact fun d hd => absurd hd List.not_mem_nil
    | cons d rest =>
      simp only [isBareWord, Bool.and_eq_true, List.all_eq_true] at h
      exact List.forall_mem_cons.2 ⟨by simp [Sqlite.isWordPart, h.1.1], h.2⟩
  intro hmem
  rw [hparts c hmem] at hc
  exact Bool.noConfusion hc

theorem visible_append_of_notMem {cs : List Char} (h : '\x00' ∉ cs) (next : List Char) :
    visible (cs ++ next) = cs ++ visible next := by
  refine List.takeWhile_append_of_pos fun c hc => ?_
  rw [decide_eq_true_eq]
  rintro rfl
  exact h hc

theorem paired_takeWhile {quote : Char} {cs : List Char} (p : Char → Bool) (hquote : p quote = true)
    (h : paired quote cs = true) : paired quote (cs.takeWhile p) = true := by
  fun_induction paired quote cs with
  | case1 => rfl
  | case2 c =>
    rw [List.takeWhile_cons]
    split
    · exact h
    · rfl
  | case3 d rest ih =>
    rw [Bool.and_eq_true, beq_iff_eq] at h
    obtain ⟨rfl, hrest⟩ := h
    rw [List.takeWhile_cons_of_pos hquote, List.takeWhile_cons_of_pos hquote, paired, if_pos rfl,
      ih hrest, beq_self_eq_true, Bool.true_and]
  | case4 c d rest hc ih =>
    rw [List.takeWhile_cons]
    split
    · have hmore := ih h
      cases htaken : (d :: rest).takeWhile p with
      | nil => simpa [paired] using hc
      | cons e more =>
        rw [htaken] at hmore
        rwa [paired, if_neg hc]
    · rfl

theorem takeWhile_append_of_mem {c : Char} {cs : List Char} (h : c ∈ cs) (next : List Char) :
    (cs ++ next).takeWhile (· ≠ c) = cs.takeWhile (· ≠ c) := by
  rw [List.takeWhile_append, if_neg]
  intro hlength
  have hall := List.takeWhile_eq_self_iff.1 (List.IsPrefix.eq_of_length (List.takeWhile_prefix _) hlength)
  simpa using hall c h

theorem finds_doubleQuoted {t : Token} {next : Option Char} {rest : List Char}
    (h : t.isRead next = true) (hquoted : t.isDoubleQuoted = true) (hnul : '\x00' ∈ t.chars) :
    Finds (visible (t.chars ++ rest)) [] := by
  obtain ⟨value, rfl⟩ : ∃ value, t = .word value (some '"') := by
    unfold isDoubleQuoted at hquoted
    split at hquoted
    · exact ⟨_, rfl⟩
    · exact Bool.noConfusion hquoted
  have hpaired : paired '"' value.toList = true := by
    rw [isRead, if_neg (by decide)] at h
    simp only [Bool.and_eq_true] at h
    exact h.1.2
  have hvalue : '\x00' ∈ value.toList := by
    simpa [closingQuote] using hnul
  have hcut : visible ((word value (some '"')).chars ++ rest) = '"' :: visible value.toList := by
    rw [chars_quotedWord, List.cons_append, visible, List.takeWhile_cons_of_pos (by decide),
      List.append_assoc, visible]
    congr 1
    exact takeWhile_append_of_mem hvalue _
  rw [hcut]
  exact Sqlite.finds_unclosed (paired_takeWhile _ (by decide) hpaired)

theorem placeholdersIn_subset_cons (t : Token) (rest : List Token) :
    Statement.placeholdersIn rest ⊆ Statement.placeholdersIn (t :: rest) := by
  rw [Statement.placeholdersIn]
  split
  · exact List.subset_cons_self _ _
  · exact List.Subset.refl _

/-- The parameter of a name. -/
def spelled (name : String) : String :=
  String.ofList (':' :: name.toList)

theorem Tame.finds {tokens : List Token} (h : Tame none tokens) :
    ∃ found, Finds (visible (charsOf tokens)) found ∧
      ∀ spelling ∈ found, ∃ name ∈ Statement.placeholdersIn tokens, spelling = spelled name := by
  induction h with
  | nil => exact ⟨[], .nil, fun spelling h => absurd h List.not_mem_nil⟩
  | @parameter name rest hname _ ih =>
    obtain ⟨found, hfinds, hnames⟩ := ih
    simp only [isMarked, Bool.and_eq_true] at hname
    obtain ⟨⟨hword, -⟩, hnext⟩ := hname
    have hstops : Stops (fun c => Sqlite.isWordPart c || c == '(' || c == ':')
        (visible (charsOf rest)) := by
      refine stops_visible fun c hc => ?_
      rw [headOr, Option.or_none, Option.mem_def.1 hc] at hnext
      simpa using hnext
    have hnul : '\x00' ∉ ':' :: name.toList :=
      List.not_mem_cons_of_ne_of_not_mem (by decide) (notMem_of_isBareWord hword (by decide))
    refine ⟨spelled name :: found, ?_, fun spelling hspelling => ?_⟩
    · have hcut : visible (charsOf (.punctuation .colon :: .word name none :: rest)) =
          ':' :: name.toList ++ visible (charsOf rest) := by
        rw [← visible_append_of_notMem hnul]
        simp [Punctuation.char]
      rw [hcut]
      exact Sqlite.adds_parameter hword hstops found hfinds
    · rcases List.mem_cons.1 hspelling with rfl | hspelling
      · exact ⟨name, List.mem_cons_self, rfl⟩
      · obtain ⟨other, hother, rfl⟩ := hnames spelling hspelling
        exact ⟨other, List.mem_cons_of_mem _ (placeholdersIn_subset_cons _ _ hother), rfl⟩
  | @token t rest hfits _ ih =>
    obtain ⟨found, hfinds, hnames⟩ := ih
    rw [fits, Bool.and_eq_true, headOr, Option.or_none] at hfits
    obtain ⟨hread, hnul⟩ := hfits
    -- the visible text ends in a name with a NUL, and nothing is found behind it
    by_cases hmem : '\x00' ∈ t.chars
    · refine ⟨[], ?_, fun spelling h => absurd h List.not_mem_nil⟩
      rw [charsOf_cons]
      exact finds_doubleQuoted hread (by simpa [hmem] using hnul) hmem
    · refine ⟨found, ?_, fun spelling hspelling => ?_⟩
      · rw [charsOf_cons, visible_append_of_notMem hmem]
        exact adds_of_isRead (isRead_visible hread) found hfinds
      · obtain ⟨name, hname, rfl⟩ := hnames spelling hspelling
        exact ⟨name, placeholdersIn_subset_cons _ _ hname, rfl⟩

/-- The parameters in the text of tame tokens are their named placeholders. -/
theorem Tame.parameters {tokens : List Token} (h : Tame none tokens) :
    ∀ spelling ∈ Sqlite.parameters (textOf tokens),
      ∃ name ∈ Statement.placeholdersIn tokens, spelling = spelled name := by
  obtain ⟨found, hfinds, hnames⟩ := h.finds
  rw [← toList_textOf] at hfinds
  rwa [hfinds.parameters]

end Token

end ReportSql
