import ReportSql.Proofs.Sqlite.Tokens
import ReportSql.Proofs.Statement.Trimming

/-!
# Tame tokens side by side

Tame tokens stay so where other tokens are put behind them that begin with a blank, a comma or a
closing parenthesis, and where their outer blanks are cut off. Only a comment to the end of its
line must be followed by a line break.

## Main results

* `Token.Tame.append`, `Token.Tame.soften` - tame tokens before others
* `Token.Tame.provided` - the parameters of their text have values
* `Token.Tame.trimBack`, `Token.Tame.trimFront` - tame tokens without outer blanks
-/

namespace ReportSql

open Sqlite (isBareWord isDecimal isSymbols isLoose paired)
open Statement (placeholdersIn namedPlaceholder?)

namespace Token

variable {next next' : Option Char} {t : Token} {tokens first second rest : List Token}

/-! ## Tokens before others -/

theorem headOr_cons (t : Token) (rest : List Token) (next : Option Char) :
    headOr (t :: rest) next = t.chars.head?.or (headOr rest next) := by
  rw [headOr, headOr, charsOf_cons, List.head?_append, Option.or_assoc]

theorem headOr_append (first second : List Token) (next : Option Char) :
    headOr (first ++ second) next = headOr first (headOr second next) := by
  rw [headOr, headOr, headOr, charsOf_append, List.head?_append, Option.or_assoc]

theorem Tame.append (h : Tame (headOr second next) first) (h' : Tame next second) :
    Tame next (first ++ second) := by
  induction h with
  | nil => exact h'
  | parameter hname _ ih =>
    rw [← headOr_append] at hname
    exact .parameter hname ih
  | token hfits _ ih =>
    rw [← headOr_append] at hfits
    exact .token hfits ih

theorem Tame.before {c : Char} (h : Tame (some c) first) (hc : headOr second next = some c)
    (h' : Tame next second) : Tame next (first ++ second) :=
  (hc ▸ h).append h'

theorem placeholdersIn_cons (h : t ≠ .punctuation .colon) (rest : List Token) :
    placeholdersIn (t :: rest) = placeholdersIn rest := by
  have hnone : namedPlaceholder? (t :: rest) = none := by
    unfold namedPlaceholder?
    split
    · rename_i heq
      exact absurd (List.cons.inj heq).1 h
    · rfl
  rw [placeholdersIn, hnone]

theorem placeholdersIn_subset_append (first second : List Token) :
    placeholdersIn second ⊆ placeholdersIn (first ++ second) := by
  induction first with
  | nil => exact List.Subset.refl _
  | cons t first ih => exact List.Subset.trans ih (placeholdersIn_subset_cons t _)

theorem placeholdersIn_parameter (name : String) (rest : List Token) :
    placeholdersIn (.punctuation .colon :: .word name none :: rest) = name :: placeholdersIn rest := by
  have hword : placeholdersIn (.word name none :: rest) = placeholdersIn rest :=
    placeholdersIn_cons Token.noConfusion rest
  rw [← hword]
  rfl

theorem ne_colon_of_fits (h : t.fits next = true) : t ≠ .punctuation .colon := by
  rintro rfl
  rw [fits_colon] at h
  exact Bool.noConfusion h

theorem Tame.placeholdersIn_append (h : Tame next first) (second : List Token) :
    placeholdersIn (first ++ second) = placeholdersIn first ++ placeholdersIn second := by
  induction h with
  | nil => rfl
  | parameter hname _ ih =>
    rw [List.cons_append, List.cons_append, placeholdersIn_parameter, placeholdersIn_parameter, ih,
      List.cons_append]
  | token hfits _ ih =>
    rw [List.cons_append, placeholdersIn_cons (ne_colon_of_fits hfits),
      placeholdersIn_cons (ne_colon_of_fits hfits), ih]

theorem Tame.isBareWord (h : Tame next tokens) : ∀ name ∈ placeholdersIn tokens,
    isBareWord name.toList = true := by
  induction h with
  | nil => exact fun name hname => absurd hname List.not_mem_nil
  | parameter hname _ ih =>
    rw [placeholdersIn_parameter]
    simp only [isMarked, Bool.and_eq_true] at hname
    exact List.forall_mem_cons.2 ⟨hname.1.1, ih⟩
  | token hfits _ ih => rwa [placeholdersIn_cons (ne_colon_of_fits hfits)]

theorem parameterName_spelled {name : String} (h : isBareWord name.toList = true) :
    Sqlite.parameterName (spelled name) = name := by
  apply String.toList_injective
  have hmarks : ∀ c ∈ name.toList.head?, (c == ':' || c == '@' || c == '$') = false := by
    intro c hc
    cases hname : name.toList with
    | nil => simp [hname] at hc
    | cons d rest =>
      rw [hname] at h hc
      obtain rfl : d = c := Option.some.inj hc
      simp only [Sqlite.isBareWord, Bool.and_eq_true] at h
      have hstart := h.1.1
      simp [Sqlite.ne_of_class hstart (show Sqlite.isWordStart ':' = false by decide),
        Sqlite.ne_of_class hstart (show Sqlite.isWordStart '@' = false by decide),
        Sqlite.ne_of_class hstart (show Sqlite.isWordStart '$' = false by decide)]
  rw [Sqlite.parameterName, spelled, String.toList_ofList, String.toList_ofList,
    List.dropWhile_cons_of_pos (by decide)]
  cases hname : name.toList with
  | nil => rfl
  | cons d rest =>
    rw [hname] at hmarks
    exact List.dropWhile_cons_of_neg (by simpa using hmarks d rfl)

/-- Where the named placeholders of tame tokens have values, so have the parameters of their text. -/
theorem Tame.provided {params : Params} (h : Tame none tokens)
    (hnames : ∀ name ∈ placeholdersIn tokens, name ∈ params.names) :
    Sqlite.Provided params (textOf tokens) := by
  refine Sqlite.provided_of_named fun spelling hspelling => ?_
  obtain ⟨name, hname, rfl⟩ := h.parameters spelling hspelling
  rw [parameterName_spelled (h.isBareWord name hname)]
  exact ⟨by simp [spelled], hnames name hname⟩

/-! ## The characters at the edges -/

theorem isBlank_of_isLoose {c : Char} (h : isLoose c = true) : Text.isBlank c = false := by
  rw [Bool.eq_false_iff]
  intro hblank
  simp only [isLoose, Bool.not_eq_true', Bool.or_eq_false_iff] at h
  obtain ⟨⟨hspace, hpart⟩, -⟩ := h
  simp only [Sqlite.isWordPart, Sqlite.isWordStart, Bool.or_eq_false_iff, decide_eq_false_iff_not] at hpart
  simp only [Sqlite.isSpace, Bool.or_eq_false_iff, Bool.and_eq_false_imp, decide_eq_true_eq,
    decide_eq_false_iff_not, beq_eq_false_iff_ne] at hspace
  simp only [Text.isBlank, Bool.or_eq_true, Bool.and_eq_true, decide_eq_true_eq, beq_iff_eq] at hblank
  have hsmall : ¬ 0x80 ≤ c.toNat := hpart.1.1.2
  have hne : c.toNat ≠ 0x20 := fun h => hspace.1 (by rw [← Char.ofNat_toNat c, h])
  have hrange : ¬ (9 ≤ c.toNat ∧ c.toNat ≤ 13) := fun h => hspace.2 h.1 h.2
  omega

/-- Visible characters only, and at least one. -/
def IsSolid (cs : List Char) : Prop :=
  cs ≠ [] ∧ ∀ c ∈ cs, Text.isBlank c = false

theorem isSolid_of_isSymbols {cs : List Char} (hne : cs ≠ []) (h : isSymbols cs next = true) :
    IsSolid cs := by
  refine ⟨hne, ?_⟩
  clear hne
  induction cs with
  | nil => exact fun c hc => absurd hc List.not_mem_nil
  | cons c rest ih =>
    simp only [isSymbols, Bool.and_eq_true] at h
    exact List.forall_mem_cons.2 ⟨isBlank_of_isLoose h.1.1, ih h.2⟩

theorem isBlank_of_isDigit {c : Char} (h : c.isDigit = true) : Text.isBlank c = false := by
  have hall : ∀ d ∈ Sqlite.digits, Text.isBlank d = false := by decide
  exact hall c (Sqlite.mem_digits h)

theorem isSolid_of_isDecimal {cs : List Char} (h : isDecimal cs = true)
    (hblank : cs.all (!Text.isBlank ·) = true) : IsSolid cs := by
  refine ⟨?_, fun c hc => ?_⟩
  · rintro rfl
    exact Bool.noConfusion h
  · simpa using List.all_eq_true.1 hblank c hc

theorem isSolid_name {name : String} (hword : isBareWord name.toList = true)
    (hblank : name.toList.all (!Text.isBlank ·) = true) : IsSolid name.toList := by
  refine ⟨?_, fun c hc => ?_⟩
  · intro hnil
    rw [hnil] at hword
    exact Bool.noConfusion hword
  · simpa using List.all_eq_true.1 hblank c hc

/-- A text with a visible character at its start. -/
def StartsVisibly (cs : List Char) : Prop :=
  ∃ c more, cs = c :: more ∧ Text.isBlank c = false

/-- A text with a visible character at its end. -/
def EndsVisibly (cs : List Char) : Prop :=
  ∃ more c, cs = more ++ [c] ∧ Text.isBlank c = false

theorem IsSolid.startsVisibly {cs : List Char} (h : IsSolid cs) : StartsVisibly cs := by
  obtain ⟨c, more, rfl⟩ := List.exists_cons_of_ne_nil h.1
  exact ⟨c, more, rfl, h.2 c List.mem_cons_self⟩

theorem IsSolid.endsVisibly {cs : List Char} (h : IsSolid cs) : EndsVisibly cs := by
  refine ⟨cs.dropLast, cs.getLast h.1, (List.dropLast_append_getLast h.1).symm, ?_⟩
  exact h.2 _ (List.getLast_mem h.1)

theorem edges_quotedWord {value : String} {quote : Char}
    (h : (word value (some quote)).isRead next = true) :
    StartsVisibly (word value (some quote)).chars ∧ EndsVisibly (word value (some quote)).chars := by
  rw [chars_quotedWord]
  rw [isRead] at h
  split at h
  · rename_i hbracket
    subst hbracket
    exact ⟨⟨'[', _, rfl, rfl⟩, '[' :: value.toList, ']', by simp [closingQuote], rfl⟩
  · rename_i hbracket
    simp only [Bool.and_eq_true, Bool.or_eq_true, beq_iff_eq] at h
    have hquote : Text.isBlank quote = false := by
      rcases h.1.1 with rfl | rfl <;> decide
    rw [closingQuote, if_neg hbracket]
    exact ⟨⟨quote, _, rfl, hquote⟩, quote :: value.toList, quote, by simp, hquote⟩

/-- The edges of a token that is no blank. Only a comment to the end of its line may end in blanks. -/
theorem edges_of_isRead (h : t.isRead next = true) (hblank : t.isBlank = false) :
    StartsVisibly t.chars ∧ (t.isLineComment = false → EndsVisibly t.chars) := by
  -- most tokens hold no blank at all
  have hsolid : IsSolid t.chars → StartsVisibly t.chars ∧
      (t.isLineComment = false → EndsVisibly t.chars) :=
    fun h => ⟨h.startsVisibly, fun _ => h.endsVisibly⟩
  cases t with
  | word value quote =>
    cases quote with
    | none =>
      simp only [isRead, Bool.and_eq_true] at h
      refine hsolid ?_
      rw [chars_word]
      exact isSolid_name h.1.1.1 h.1.1.2
    | some quote =>
      obtain ⟨hstarts, hends⟩ := edges_quotedWord h
      exact ⟨hstarts, fun _ => hends⟩
  | number digits long =>
    simp only [isRead, Bool.and_eq_true, Bool.not_eq_true'] at h
    obtain ⟨⟨⟨⟨rfl, hdigits⟩, hvisible⟩, -⟩, -⟩ := h
    refine hsolid ?_
    rw [chars_number, if_neg Bool.false_ne_true, List.append_nil]
    exact isSolid_of_isDecimal hdigits hvisible
  | literal kind content =>
    rw [chars_literal]
    cases kind with
    | single =>
      exact ⟨⟨'\'', _, rfl, by decide⟩, fun _ => ⟨'\'' :: content.toList, '\'', rfl, by decide⟩⟩
    | hexadecimal =>
      exact ⟨⟨'X', _, rfl, by decide⟩,
        fun _ => ⟨'X' :: '\'' :: content.toList, '\'', rfl, by decide⟩⟩
    | _ => simp [isRead] at h
  | punctuation mark =>
    refine hsolid ?_
    rw [chars_punctuation]
    exact isSolid_of_isSymbols (List.cons_ne_nil _ _) h
  | operator text =>
    simp only [isRead, Bool.and_eq_true, Bool.not_eq_true', List.isEmpty_eq_false_iff] at h
    exact hsolid (isSolid_of_isSymbols h.1 h.2)
  | blank kind => exact Bool.noConfusion hblank
  | lineComment mark content =>
    rw [isRead, Bool.and_eq_true, beq_iff_eq] at h
    obtain ⟨rfl, -⟩ := h
    rw [chars_lineComment]
    exact ⟨⟨'-', _, rfl, by decide⟩, fun h => Bool.noConfusion h⟩
  | blockComment content =>
    rw [chars_blockComment]
    exact ⟨⟨'/', _, rfl, by decide⟩,
      fun _ => ⟨'/' :: '*' :: (content.toList ++ ['*']), '/', by simp, by decide⟩⟩
  | _ => simp [isRead] at h

theorem chars_ne_nil (h : t.fits next = true) : t.chars ≠ [] := by
  rw [fits, Bool.and_eq_true] at h
  cases hblank : t.isBlank with
  | true =>
    cases t with
    | blank kind => simp
    | _ => exact Bool.noConfusion hblank
  | false =>
    obtain ⟨⟨c, more, hchars, -⟩, -⟩ := edges_of_isRead h.1 hblank
    rw [hchars]
    exact List.cons_ne_nil _ _

/-! ## Other text behind tame tokens -/

theorem Tame.headOr_eq (h : Tame next tokens) (hne : tokens ≠ []) (next' : Option Char) :
    headOr tokens next' = headOr tokens next := by
  cases h with
  | nil => exact absurd rfl hne
  | parameter => rfl
  | token hfits =>
    obtain ⟨c, more, hchars⟩ := List.exists_cons_of_ne_nil (chars_ne_nil hfits)
    rw [headOr_cons, headOr_cons, hchars]
    rfl

/-- Only the last token meets the text behind tame tokens. -/
theorem Tame.transfer (h : Tame next tokens)
    (hlast : ∀ t ∈ tokens.getLast?, t.fits next = true → t.fits next' = true)
    (hmarked : ∀ name, isMarked next name = true → isMarked next' name = true) : Tame next' tokens := by
  induction h with
  | nil => exact .nil
  | @parameter name rest hname hrest ih =>
    cases hrest' : rest with
    | nil =>
      rw [hrest'] at hname
      exact .parameter (hmarked name hname) .nil
    | cons u more =>
      rw [← hrest']
      have hne : rest ≠ [] := hrest' ▸ List.cons_ne_nil u more
      rw [← hrest.headOr_eq hne next'] at hname
      refine .parameter hname (ih fun t ht => hlast t ?_)
      rwa [List.getLast?_cons_cons, List.getLast?_cons_of_ne_nil hne]
  | @token t rest hfits hrest ih =>
    cases hrest' : rest with
    | nil =>
      subst hrest'
      exact .token (hlast t rfl hfits) .nil
    | cons u more =>
      rw [← hrest']
      have hne : rest ≠ [] := hrest' ▸ List.cons_ne_nil u more
      rw [← hrest.headOr_eq hne next'] at hfits
      refine .token hfits (ih fun t ht => hlast t ?_)
      rwa [List.getLast?_cons_of_ne_nil hne]

/-- The last of some tokens is a comment to the end of its line. -/
def endsInComment (tokens : List Token) : Bool :=
  tokens.getLast?.any isLineComment

theorem Tame.soften (h : Tame next tokens) (hsoft : Soft next')
    (hcomment : endsInComment tokens = true → next'.all (· == '\n') = true) : Tame next' tokens := by
  refine h.transfer (fun t ht hfits => ?_) fun name hname => ?_
  · rw [fits, Bool.and_eq_true] at hfits ⊢
    refine ⟨isRead_soft hfits.1 hsoft fun hline => hcomment ?_, hfits.2⟩
    rw [endsInComment, Option.mem_def.1 ht]
    exact hline
  · simp only [isMarked, Bool.and_eq_true, hsoft.word, Bool.not_false, and_true] at hname ⊢
    exact hname.1

theorem isRead_beforeWord {c c' : Char} (hc : Sqlite.isWordPart c = true)
    (hc' : Sqlite.isWordStart c' = true) (h : t.isRead (some c) = true) : t.isRead (some c') = true := by
  have hne : ∀ d, Sqlite.isWordStart d = false → some c' ≠ some d :=
    fun d hd heq => Sqlite.ne_of_class hc' hd (Option.some.inj heq)
  have hdigit : c'.isDigit = false := Bool.eq_false_iff.2 fun hdigit =>
    absurd hc' (List.any_eq_false.1 (by decide : Sqlite.digits.any Sqlite.isWordStart = false) c'
      (Sqlite.mem_digits hdigit))
  refine isRead_lenient h ⟨fun _ => hc, fun quote hquote => hne quote ?_, hne '.' (by decide), fun d => ?_⟩
    fun _ hbreak => ?_
  · fin_cases hquote <;> decide
  · have hdash := Sqlite.ne_of_class hc' (by decide : Sqlite.isWordStart '-' = false)
    have hstar := Sqlite.ne_of_class hc' (by decide : Sqlite.isWordStart '*' = false)
    simp [Sqlite.opensWith, hdigit, hdash, hstar]
  · exact absurd (by simpa using hbreak) (Sqlite.ne_of_class hc (by decide : Sqlite.isWordPart '\n' = false))

/-- Tokens before a word stay tame before another one. -/
theorem Tame.beforeWord {c c' : Char} (h : Tame (some c) tokens) (hc : Sqlite.isWordPart c = true)
    (hc' : Sqlite.isWordStart c' = true) : Tame (some c') tokens := by
  refine h.transfer (fun t _ hfits => ?_) fun name hname => ?_
  · rw [fits, Bool.and_eq_true] at hfits ⊢
    exact ⟨isRead_beforeWord hc hc' hfits.1, hfits.2⟩
  · simp [isMarked, hc] at hname

/-! ## Tame tokens without outer blanks -/

theorem dropWhile_of_startsVisibly {cs : List Char} (h : StartsVisibly cs) :
    cs.dropWhile Text.isBlank = cs := by
  obtain ⟨c, more, rfl, hc⟩ := h
  exact List.dropWhile_cons_of_neg (by simp [hc])

theorem dropTrailingBlanks_of_endsVisibly {cs : List Char} (h : EndsVisibly cs) :
    Text.dropTrailingBlanks cs = cs := by
  obtain ⟨more, c, rfl, hc⟩ := h
  unfold Text.dropTrailingBlanks
  rw [List.reverse_concat, List.dropWhile_cons_of_neg (by simp [hc]), List.reverse_cons,
    List.reverse_reverse]

theorem dropTrailingBlanks_of_isBlank (h : t.isBlank = true) : Text.dropTrailingBlanks t.chars = [] := by
  cases t with
  | blank kind =>
    rw [chars_blank]
    cases kind <;> rfl
  | _ => exact Bool.noConfusion h

theorem kept_self (h : t.chars ≠ []) : t.kept t.chars = [t] := by
  rw [kept, if_neg h, if_pos rfl]

theorem Tame.trimFront (h : Tame next tokens) :
    Tame next (trimFront tokens) ∧ placeholdersIn (trimFront tokens) = placeholdersIn tokens := by
  induction h with
  | nil => exact ⟨.nil, rfl⟩
  | @parameter name rest hname hrest ih =>
    -- a colon is no blank, so nothing is dropped
    have hcolon : Token.trimFront (.punctuation .colon :: .word name none :: rest) =
        .punctuation .colon :: .word name none :: rest := rfl
    rw [hcolon]
    exact ⟨.parameter hname hrest, rfl⟩
  | @token t rest hfits hrest ih =>
    rw [Token.trimFront]
    cases hblank : t.isBlank with
    | true =>
      obtain ⟨kind, rfl⟩ : ∃ kind, t = .blank kind := by
        cases t with
        | blank kind => exact ⟨kind, rfl⟩
        | _ => exact Bool.noConfusion hblank
      have hnone : (blank kind).chars.dropWhile Text.isBlank = [] := by
        rw [chars_blank]
        cases kind <;> rfl
      rw [if_pos hnone, placeholdersIn_cons Token.noConfusion]
      exact ih
    | false =>
      rw [fits, Bool.and_eq_true] at hfits
      have hstarts := (edges_of_isRead hfits.1 hblank).1
      have hne := chars_ne_nil (Bool.and_eq_true_iff.2 hfits)
      rw [dropWhile_of_startsVisibly hstarts, if_neg hne, kept_self hne]
      exact ⟨.token (Bool.and_eq_true_iff.2 hfits) hrest, rfl⟩

theorem Tame.eq_nil (h : Tame next tokens) (hnone : charsOf tokens = []) : tokens = [] := by
  cases h with
  | nil => rfl
  | parameter => simp at hnone
  | token hfits =>
    rw [charsOf_cons, List.append_eq_nil_iff] at hnone
    exact absurd hnone.1 (chars_ne_nil hfits)

theorem head?_dropTrailingBlanks {cs : List Char} (h : Text.dropTrailingBlanks cs ≠ []) :
    (Text.dropTrailingBlanks cs).head? = cs.head? := by
  obtain ⟨trail, hsplit, -⟩ := Text.dropTrailingBlanks_spec cs
  conv_rhs => rw [hsplit]
  rw [List.head?_append_of_ne_nil _ h]

theorem headOr_trimBack (h : Text.dropTrailingBlanks (charsOf tokens) ≠ []) (next next' : Option Char) :
    headOr (trimBack tokens) next = headOr tokens next' := by
  obtain ⟨c, hc⟩ := Option.isSome_iff_exists.1 (List.isSome_head?.2 h)
  rw [headOr, headOr, charsOf_trimBack, hc, ← head?_dropTrailingBlanks h, hc]
  rfl

theorem endsLine_dropTrailingBlanks {content : List Char} (h : endsLine content next = true) :
    endsLine (Text.dropTrailingBlanks content) (some '\n') = true := by
  obtain ⟨trail, hsplit, -, hlast⟩ := Text.dropTrailingBlanks_spec content
  generalize Text.dropTrailingBlanks content = cut at hsplit hlast
  unfold endsLine
  split
  · rfl
  · rename_i c rest hrest
    exfalso
    -- the only line break of a comment stands at its end, where it is cut off
    unfold endsLine at h
    rw [hsplit, List.dropWhile_append, hrest, if_neg (by simp), List.cons_append] at h
    obtain ⟨rfl, rfl⟩ : rest = [] ∧ trail = [] := by simpa using h
    have hmem : cut = cut.takeWhile (· ≠ '\n') ++ [c] := by
      rw [← hrest, List.takeWhile_append_dropWhile]
    have hc : c = '\n' := by
      have hhead := List.head?_dropWhile_not (· ≠ '\n') cut
      rw [hrest] at hhead
      simpa using hhead
    have hblank := hlast c (by rw [hmem]; simp)
    rw [hc] at hblank
    exact absurd hblank (by decide)

theorem mem_of_mem_dropTrailingBlanks {c : Char} {cs : List Char} (h : c ∈ Text.dropTrailingBlanks cs) :
    c ∈ cs := by
  obtain ⟨trail, hsplit, -⟩ := Text.dropTrailingBlanks_spec cs
  rw [hsplit]
  exact List.mem_append_left trail h

/-- A comment without its trailing blanks goes to the end of its line. -/
theorem kept_lineComment {mark content : String} (h : (lineComment mark content).fits next = true) :
    ∃ content', (lineComment mark content).kept
        (Text.dropTrailingBlanks (lineComment mark content).chars) = [.lineComment mark content'] ∧
      (lineComment mark content').fits (some '\n') = true := by
  have hmem : ∀ c ∈ Text.dropTrailingBlanks content.toList, c ∈ content.toList :=
    fun _ => mem_of_mem_dropTrailingBlanks
  simp only [fits, isRead, isDoubleQuoted, Bool.and_eq_true, beq_iff_eq, Bool.false_or,
    Bool.not_eq_true', List.contains_eq_mem, decide_eq_false_iff_not, chars_lineComment] at h
  obtain ⟨⟨rfl, hends⟩, hnul⟩ := h
  have hcut : Text.dropTrailingBlanks (lineComment "--" content).chars =
      ['-', '-'] ++ Text.dropTrailingBlanks content.toList := by
    rw [chars_lineComment, show "--".toList = ['-', '-'] from rfl, dropTrailingBlanks_append]
    split
    · rename_i hnone
      rw [hnone]
      rfl
    · rfl
  refine ⟨String.ofList (Text.dropTrailingBlanks content.toList), ?_, ?_⟩
  · rw [hcut, kept, if_neg (by simp)]
    split
    · rename_i hsame
      rw [chars_lineComment] at hsame
      rw [List.append_cancel_left hsame, String.ofList_toList]
    · rw [rewritten, if_pos (by simp)]
      rfl
  · simp only [fits, isRead, isDoubleQuoted, String.toList_ofList, endsLine_dropTrailingBlanks hends,
      beq_self_eq_true, Bool.and_self, Bool.false_or, Bool.true_and, Bool.not_eq_true',
      List.contains_eq_mem, decide_eq_false_iff_not, chars_lineComment, List.mem_append, not_or] at hnul ⊢
    exact ⟨hnul.1, fun hcontent => hnul.2 (hmem _ hcontent)⟩

/-- What is left of a last token. -/
theorem tame_kept (hfits : t.fits next = true) :
    Tame (some '\n') (t.kept (Text.dropTrailingBlanks t.chars)) ∧
      placeholdersIn (t.kept (Text.dropTrailingBlanks t.chars)) = [] := by
  have hread := hfits
  rw [fits, Bool.and_eq_true] at hread
  cases hline : t.isLineComment with
  | true =>
    -- a comment to the end of its line loses the blanks at its end
    obtain ⟨mark, content, rfl⟩ : ∃ mark content, t = .lineComment mark content := by
      cases t with
      | lineComment mark content => exact ⟨mark, content, rfl⟩
      | _ => exact Bool.noConfusion hline
    obtain ⟨content', hkept, hfits'⟩ := kept_lineComment hfits
    rw [hkept]
    exact ⟨.token hfits' .nil, placeholdersIn_cons Token.noConfusion []⟩
  | false =>
    cases hblank : t.isBlank with
    | true =>
      rw [dropTrailingBlanks_of_isBlank hblank]
      exact ⟨.nil, rfl⟩
    | false =>
      rw [dropTrailingBlanks_of_endsVisibly ((edges_of_isRead hread.1 hblank).2 hline),
        kept_self (chars_ne_nil hfits), placeholdersIn_cons (ne_colon_of_fits hfits)]
      refine ⟨.token ?_ .nil, rfl⟩
      rw [fits, Bool.and_eq_true]
      refine ⟨isRead_soft hread.1 (soft_of_mem (by decide)) fun h => ?_, hread.2⟩
      rw [hline] at h
      exact Bool.noConfusion h

/-- A parameter has no blanks that could be cut off. -/
theorem Tame.trimBack_parameter {name : String} (hname : isMarked (headOr rest next) name = true)
    (htame : Tame (some '\n') (trimBack rest))
    (hnames : placeholdersIn (trimBack rest) = placeholdersIn rest) :
    Tame (some '\n') (trimBack (.punctuation .colon :: .word name none :: rest)) ∧
      placeholdersIn (trimBack (.punctuation .colon :: .word name none :: rest)) =
        name :: placeholdersIn rest := by
  have hsolid : IsSolid name.toList := by
    simp only [isMarked, Bool.and_eq_true] at hname
    exact isSolid_name hname.1.1 hname.1.2
  have hkept : Text.dropTrailingBlanks name.toList = name.toList :=
    dropTrailingBlanks_of_endsVisibly hsolid.endsVisibly
  have hword : Text.dropTrailingBlanks (charsOf (.word name none :: rest)) ≠ [] := by
    rw [charsOf_cons, chars_word, dropTrailingBlanks_append, hkept]
    split
    · exact hsolid.1
    · rename_i hsome
      exact fun hnil => hsome (List.append_eq_nil_iff.1 hnil).2
  rw [Token.trimBack, if_neg hword, Token.trimBack]
  split
  · rename_i hblank
    have hnone : Token.trimBack rest = [] := htame.eq_nil (by rw [charsOf_trimBack, hblank])
    rw [hnone] at hnames
    rw [chars_word, hkept, ← chars_word, kept_self (by rw [chars_word]; exact hsolid.1),
      placeholdersIn_parameter, ← hnames]
    refine ⟨.parameter ?_ .nil, rfl⟩
    simp only [isMarked, Bool.and_eq_true] at hname ⊢
    exact ⟨hname.1, rfl⟩
  · rename_i hsome
    rw [placeholdersIn_parameter, hnames]
    refine ⟨.parameter ?_ htame, rfl⟩
    rwa [headOr_trimBack hsome _ next]

/-- The tokens that are left when a text is cut behind its last visible character. -/
theorem Tame.trimBack (h : Tame next tokens) :
    Tame (some '\n') (trimBack tokens) ∧ placeholdersIn (trimBack tokens) = placeholdersIn tokens := by
  induction h with
  | nil => exact ⟨.nil, rfl⟩
  | @parameter name rest hname hrest ih =>
    rw [placeholdersIn_parameter]
    exact Tame.trimBack_parameter hname ih.1 ih.2
  | @token t rest hfits hrest ih =>
    obtain ⟨htame, hnames⟩ := ih
    rw [placeholdersIn_cons (ne_colon_of_fits hfits), Token.trimBack]
    split
    · -- nothing visible follows, so the token is the last one that is left
      rename_i hblank
      have hnone : Token.trimBack rest = [] := htame.eq_nil (by rw [charsOf_trimBack, hblank])
      rw [hnone] at hnames
      rw [← hnames]
      exact tame_kept hfits
    · rename_i hsome
      rw [placeholdersIn_cons (ne_colon_of_fits hfits), hnames]
      refine ⟨.token ?_ htame, rfl⟩
      rwa [headOr_trimBack hsome _ next]

theorem Tame.trimmed (h : Tame next tokens) :
    Tame (some '\n') (trimmed tokens) ∧ placeholdersIn (trimmed tokens) = placeholdersIn tokens := by
  obtain ⟨hfront, hnames⟩ := h.trimFront
  rw [Token.trimmed, ← hnames]
  exact hfront.trimBack

end Token

end ReportSql
