import ReportSql.Proofs.Token.Balanced
import ReportSql.Proofs.Token.Trailing

/-!
# Trimmed texts

A text and the same text with blanks around it have the same tokens but for the
last one: that token may go on with the blanks behind it, and the blanks before the
text are blank tokens unless the dialect takes one of them for the start of a word.

## Main results

* `Text.exists_trim` - a text is its trimmed text with blanks around it
* `Token.Reads.append_blanks` - further blanks change the last token at most
* `Token.Reads.skip_blanks` - leading blanks are blank tokens before a keyword
* `Token.Reads.last_keyword` - a keyword read before further blanks is the last token
-/

namespace ReportSql

namespace Text

theorem dropTrailingBlanks_spec (cs : List Char) : ∃ trail, cs = dropTrailingBlanks cs ++ trail ∧
    Token.Blanks trail ∧ ∀ c ∈ (dropTrailingBlanks cs).getLast?, isBlank c = false := by
  refine ⟨(cs.reverse.takeWhile isBlank).reverse, ?_, fun c hc => ?_, fun c hc => ?_⟩
  · have hsplit := congrArg List.reverse
      (List.takeWhile_append_dropWhile (p := isBlank) (l := cs.reverse))
    rw [List.reverse_append, List.reverse_reverse] at hsplit
    exact hsplit.symm
  · exact List.mem_takeWhile_imp (List.mem_reverse.1 hc)
  · rw [dropTrailingBlanks, List.getLast?_reverse] at hc
    exact Token.stops_dropWhile isBlank cs.reverse c hc

/-- A text is its trimmed text with blanks around it. -/
theorem exists_trim (s : String) : ∃ lead trail, s.toList = lead ++ ((trim s).toList ++ trail) ∧
    Token.Blanks lead ∧ Token.Blanks trail ∧
      (∀ c ∈ (trim s).toList.head?, isBlank c = false) ∧
        ∀ c ∈ (trim s).toList.getLast?, isBlank c = false := by
  obtain ⟨trail, hsplit, htrail, hlast⟩ := dropTrailingBlanks_spec (s.toList.dropWhile isBlank)
  have htrim : (trim s).toList = dropTrailingBlanks (s.toList.dropWhile isBlank) :=
    String.toList_ofList
  refine ⟨s.toList.takeWhile isBlank, trail, ?_, fun c hc => List.mem_takeWhile_imp hc, htrail,
    fun c hc => ?_, by rwa [htrim]⟩
  · rw [htrim, ← hsplit, List.takeWhile_append_dropWhile]
  · refine Token.stops_dropWhile isBlank s.toList c ?_
    obtain ⟨rest, hrest⟩ := List.head?_eq_some_iff.1 hc
    rw [htrim] at hrest
    rw [hsplit, hrest]
    rfl

end Text

namespace Token

variable {d : Dialect}

/-! ## Streams with blanks around them -/

theorem Reads.cons_inv {cs left : List Char} {t : Token} {tokens : List Token} (h : Reads d cs tokens)
    (hfirst : Begins d cs t left) : ∃ rest, tokens = t :: rest ∧ Reads d left rest := by
  cases h with
  | nil => exact hfirst.elim
  | cons first rest =>
    obtain ⟨rfl, rfl⟩ := begins_unique hfirst first
    exact ⟨_, rfl, rest⟩

theorem Reads.uncons {cs : List Char} {t : Token} {tokens : List Token} (h : Reads d cs (t :: tokens)) :
    ∃ left, Begins d cs t left ∧ Reads d left tokens := by
  cases h with
  | cons first rest => exact ⟨_, first, rest⟩

/-- Further blanks change the last token at most. -/
theorem Reads.append_blanks {core trail : List Char} {tokens more : List Token}
    (hblanks : Blanks trail) (h : Reads d core tokens) (hmore : Reads d (core ++ trail) more)
    (hne : core ≠ []) :
    ∃ first last rest taken cs, tokens = first ++ [last] ∧ more = first ++ rest ∧
      core = taken ++ cs ∧ Begins d cs last [] ∧ Reads d (cs ++ trail) rest := by
  induction h generalizing more with
  | nil => exact absurd rfl hne
  | @cons cs left t tokens hfirst hrest ih =>
    by_cases hleft : left = []
    · subst hleft
      cases hrest with
      | nil => exact ⟨[], t, more, [], cs, rfl, rfl, rfl, hfirst, hmore⟩
      | cons first _ => exact first.elim
    · obtain ⟨more, rfl, htail⟩ := hmore.cons_inv (begins_append hblanks hfirst hleft)
      obtain ⟨taken', rfl, -⟩ := begins_taken hfirst
      obtain ⟨first, last, rest, taken, cs, rfl, rfl, rfl, hlast, hread⟩ := ih htail hleft
      exact ⟨t :: first, last, rest, taken' ++ taken, cs, rfl, rfl, (List.append_assoc ..).symm,
        hlast, hread⟩

/-- Where a text that ends in no blank goes on with blanks, no blank is read. -/
theorem isBlank_begins_append {cs trail left : List Char} {last t : Token} (h : Begins d cs last [])
    (hlast : ∀ c ∈ cs.getLast?, Text.isBlank c = false) (h' : Begins d (cs ++ trail) t left) :
    t.isBlank = false := by
  rw [Bool.eq_false_iff]
  intro hblank
  cases cs with
  | nil => exact h.elim
  | cons c rest =>
    obtain ⟨kind, rfl⟩ : ∃ kind, t = .blank kind := by
      cases t <;> simp_all [isBlank]
    have hc := isBlank_of_begins h'
    rcases scan_of_isBlank (d := d) hc with ⟨-, hword⟩ | ⟨-, kind', hread⟩
    · exact Token.noConfusion (begins_unique h' (hword _)).1
    · obtain ⟨-, hleft⟩ := begins_unique h (hread _)
      unfold afterBlank at hleft
      split at hleft
      · rename_i hbreak
        obtain ⟨rest, rfl⟩ := List.head?_eq_some_iff.1 hbreak.2
        obtain rfl : [] = rest := hleft
        exact absurd (hlast '\n' rfl) (by decide)
      · obtain rfl := hleft
        rw [hlast c rfl] at hc
        exact Bool.noConfusion hc

/-- The kinds of tokens that are always read from the characters that they print. -/
def isVerbatim : Token → Bool
  | blank _ | literal _ _ | operator _ => false
  | _ => true

theorem chars_of_begins {cs left : List Char} {t : Token} (h : Begins d cs t left)
    (ht : t.isVerbatim = true) : cs = t.chars ++ left := by
  cases cs with
  | nil => exact h.elim
  | cons c rest =>
    have hsource := (scan_outcome h).source
    generalize c :: rest = cs at hsource
    cases hsource with
    | exact plain apart => rfl
    | blank => exact Bool.noConfusion ht
    | literal => exact Bool.noConfusion ht
    | hexadecimal => exact Bool.noConfusion ht
    | notEqual => exact Bool.noConfusion ht
    | dropping => exact Bool.noConfusion ht

/-- A token that prints no more than a text of one token, and does not run into the rest of it, is
that token. -/
theorem begins_truncate {cs trail rest left : List Char} {last t : Token} (h : Begins d cs last [])
    (h' : Begins d (cs ++ trail) t left) (hcs : cs = t.chars ++ rest) (hleft : left = rest ++ trail)
    (happ : Apart d t rest) : t = last ∧ left = trail := by
  subst hcs hleft
  have hself : Begins d (t.chars ++ (rest ++ trail)) t (rest ++ trail) := by
    rwa [List.append_assoc] at h'
  obtain ⟨plain, -⟩ := (begins_iff_apart hself _).1 hself
  have hrest := (begins_iff_apart hself rest).2 ⟨plain, happ⟩
  obtain ⟨htoken, hrest⟩ := begins_unique hrest h
  exact ⟨htoken, by rw [hrest, List.nil_append]⟩

/-- A comment that is read where a text goes on with blanks reaches to the end of the text, and behind
it are only blanks. -/
theorem blanks_behind_comment {cs trail left : List Char} {last t : Token} (hblanks : Blanks trail)
    (h : Begins d cs last []) (hread : Begins d (cs ++ trail) t left) (hblank : t.isBlank = false)
    (htrivia : t.isTrivia = true) : Blanks left := by
  have hverbatim : t.isVerbatim = true := by
    cases t <;> first | rfl | exact Bool.noConfusion hblank | exact Bool.noConfusion htrivia
  have happ : ∀ rest, left = rest ++ trail → Apart d t rest := by
    intro rest hleft
    have hself := hread
    rw [chars_of_begins hread hverbatim] at hself
    have hapart := ((begins_iff_apart hself left).1 hself).2
    cases t with
    | lineComment mark content =>
      rcases hapart with hnil | hbreak
      · rw [hleft, List.append_eq_nil_iff] at hnil
        exact Or.inl hnil.1
      · exact Or.inr hbreak
    | blockComment content => trivial
    | blank kind => exact Bool.noConfusion hblank
    | _ => exact Bool.noConfusion htrivia
  rcases List.append_eq_append_iff.1 (chars_of_begins hread hverbatim) with
    ⟨more, -, htrail⟩ | ⟨more, hcs, hmore⟩
  · exact fun c hc => hblanks c (htrail ▸ List.mem_append_right more hc)
  · obtain ⟨-, rfl⟩ := begins_truncate h hread hcs hmore (happ more hmore)
    exact hblanks

/-- A word without blanks ends where the blanks behind a text start at the latest. A single letter could
be a part of a literal. -/
theorem word_of_begins_append {cs trail left : List Char} {last : Token} {value : String}
    (hblanks : Blanks trail) (h : Begins d cs last [])
    (hread : Begins d (cs ++ trail) (.word value none) left)
    (hvalue : ∀ c ∈ value.toList, Text.isBlank c = false) (hletters : 1 < value.length) :
    last = .word value none := by
  have hchars : cs ++ trail = value.toList ++ left := by
    have hchars := chars_of_begins hread rfl
    rwa [chars_word] at hchars
  have hapart : WordApart d value.toList left := by
    rw [hchars, ← chars_word] at hread
    exact ((begins_iff_apart hread left).1 hread).2
  -- the word holds no blank, so it ends before those that are appended
  obtain ⟨more, hcs, hmore⟩ : ∃ more, cs = value.toList ++ more ∧ left = more ++ trail := by
    rcases List.append_eq_append_iff.1 hchars with ⟨more, hlonger, htrail⟩ | hmore
    · cases more with
      | nil => exact ⟨[], by simpa using hlonger.symm, by simpa using htrail.symm⟩
      | cons c more =>
        have hc := hvalue c (by simp [hlonger])
        rw [hblanks c (by simp [htrail])] at hc
        exact Bool.noConfusion hc
    · exact hmore
  have happ : WordApart d value.toList more := by
    refine ⟨?_, fun letter _ hletter => ?_⟩
    · cases more with
      | nil => exact stops_nil _
      | cons c more =>
        rw [hmore] at hapart
        exact stops_cons.2 (stops_cons.1 hapart.stops)
    · rw [← String.length_toList, hletter] at hletters
      exact absurd hletters (Nat.lt_irrefl 1)
  obtain ⟨htoken, -⟩ := begins_truncate h hread (by rwa [chars_word]) hmore happ
  exact htoken.symm

theorem firstSignificant?_eq_none {tokens : List Token} :
    firstSignificant? tokens = none ↔ tokens.all isTrivia = true := by
  simp [firstSignificant?, skipTrivia, List.dropWhile_eq_nil_iff]

theorem firstSignificant?_append_none {first : List Token} (h : firstSignificant? first = none)
    (second : List Token) : firstSignificant? (first ++ second) = firstSignificant? second := by
  have htrivia := firstSignificant?_eq_none.1 h
  exact firstSignificant?_gap ⟨first, List.all_eq_true.1 htrivia⟩ second

theorem firstSignificant?_blanks {blanks : List Token} (h : ∀ t ∈ blanks, t.isBlank = true)
    (tokens : List Token) : firstSignificant? (blanks ++ tokens) = firstSignificant? tokens := by
  refine firstSignificant?_gap ⟨blanks, fun t ht => ?_⟩ tokens
  have hblank := h t ht
  cases t <;> first | rfl | exact Bool.noConfusion hblank

section Keyword

variable {keyword : String} (hkeyword : ∀ c ∈ keyword.toList, Text.isBlank c = false)

include hkeyword

/-- A keyword has no blank in it, in any case of its letters. -/
theorem isBlank_of_keyword {value : String} (h : Text.upperAscii value = keyword) {c : Char}
    (hc : c ∈ value.toList) : Text.isBlank c = false := by
  rw [Bool.eq_false_iff]
  intro hblank
  have hmem : c.toUpper ∈ keyword.toList := by
    rw [← h, Text.upperAscii, String.toList_map]
    exact List.mem_map_of_mem hc
  have hnot := hkeyword _ hmem
  rw [toUpper_of_isBlank c hblank, hblank] at hnot
  exact Bool.noConfusion hnot

/-- Leading blanks are blank tokens before a keyword. -/
theorem Reads.skip_blanks {lead core : List Char} {tokens : List Token} (hblanks : Blanks lead)
    (hcore : ∀ c ∈ core.head?, Text.isBlank c = false) (h : Reads d (lead ++ core) tokens)
    (hfirst : (firstSignificant? tokens).any (·.isKeyword keyword) = true) :
    ∃ blanks rest, tokens = blanks ++ rest ∧ (∀ t ∈ blanks, t.isBlank = true) ∧
      Reads d core rest := by
  induction hlength : lead.length using Nat.strong_induction_on generalizing lead tokens with
  | _ length ih =>
    cases lead with
    | nil => exact ⟨[], tokens, rfl, by simp, h⟩
    | cons c lead =>
      obtain ⟨hc, hlead⟩ := List.forall_mem_cons.1 hblanks
      rcases scan_of_isBlank (d := d) hc with ⟨-, hword⟩ | ⟨-, kind, hblank⟩
      · -- a word that starts with a blank is no keyword
        obtain ⟨rest, rfl, -⟩ := h.cons_inv (hword _)
        obtain ⟨value, hvalue, hupper⟩ := isKeyword_iff.1 (by simpa using hfirst)
        obtain ⟨rfl, -⟩ := Token.word.inj hvalue
        rw [isBlank_of_keyword hkeyword hupper (by simp)] at hc
        exact Bool.noConfusion hc
      · obtain ⟨rest, rfl, hrest⟩ := h.cons_inv (hblank (lead ++ core))
        rw [firstSignificant?_trivia rfl] at hfirst
        -- a line feed after a carriage return is one of the leading blanks
        obtain ⟨lead', hlead', hshorter, hafter⟩ : ∃ lead', Blanks lead' ∧
            lead'.length < length ∧ afterBlank c (lead ++ core) = lead' ++ core := by
          rw [← hlength, List.length_cons]
          unfold afterBlank
          split
          · rename_i hbreak
            cases lead with
            | nil =>
              have hhead := hcore '\n' hbreak.2
              exact absurd hhead (by decide)
            | cons next lead =>
              exact ⟨lead, fun a ha => hlead a (List.mem_cons_of_mem _ ha), by simp, rfl⟩
          · exact ⟨lead, hlead, Nat.lt_succ_self _, rfl⟩
        rw [hafter] at hrest
        obtain ⟨blanks, rest, rfl, hall, hread⟩ := ih _ hshorter hlead' hrest hfirst rfl
        exact ⟨.blank kind :: blanks, rest, rfl, List.forall_mem_cons.2 ⟨rfl, hall⟩, hread⟩

/-- A keyword that is read where a text goes on with blanks is the last token of the text. -/
theorem Reads.last_keyword {cs trail : List Char} {last : Token} {rest : List Token}
    (hletters : 1 < keyword.length) (hblanks : Blanks trail) (h : Begins d cs last [])
    (hlast : ∀ c ∈ cs.getLast?, Text.isBlank c = false) (hrest : Reads d (cs ++ trail) rest)
    (hfirst : (firstSignificant? rest).any (·.isKeyword keyword) = true) :
    last.isKeyword keyword = true := by
  obtain ⟨t, tail, rfl⟩ : ∃ t tail, rest = t :: tail :=
    List.exists_cons_of_ne_nil fun hnil => by simp [hnil, firstSignificant?, skipTrivia] at hfirst
  obtain ⟨left, hread, htail⟩ := hrest.uncons
  cases htrivia : t.isTrivia with
  | true =>
    -- only blank tokens follow a comment, so no keyword does
    exfalso
    have hleft := blanks_behind_comment hblanks h hread (isBlank_begins_append h hlast hread) htrivia
    rw [firstSignificant?_trivia htrivia] at hfirst
    rw [← List.append_nil left] at htail
    obtain ⟨blanks, rest, rfl, hall, hnil⟩ := htail.skip_blanks hkeyword hleft (by simp) hfirst
    cases hnil with
    | nil =>
      rw [firstSignificant?_blanks hall] at hfirst
      exact Bool.noConfusion hfirst
    | cons first _ => exact first.elim
  | false =>
    rw [firstSignificant?_cons htrivia] at hfirst
    obtain ⟨value, rfl, hupper⟩ := isKeyword_iff.1 (by simpa using hfirst)
    have hlength : value.length = keyword.length := by
      rw [← hupper, Text.upperAscii, String.length_map]
    obtain rfl := word_of_begins_append hblanks h hread
      (fun c hc => isBlank_of_keyword hkeyword hupper hc) (by rwa [hlength])
    exact isKeyword_iff.2 ⟨value, rfl, hupper⟩

end Keyword

end Token

end ReportSql
