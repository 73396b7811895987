import Mathlib
import ReportSql.Proofs.Statement.Expansion
import ReportSql.Proofs.Token.Balanced
import ReportSql.Proofs.Token.Trimmed

/-!
# Tokens without outer blanks

Where a printed text is trimmed, its outer blanks go, and with them the blanks at
the edge of a word or at the end of a comment. What is left is again the text of
tokens, with the same parentheses.

## Main definitions

* `Token.trimFront`, `Token.trimBack` - tokens without leading or trailing blanks
* `Token.withLineBreak` - tokens with a line break after them

## Main results

* `Token.textOf_trimFront`, `Token.textOf_trimBack` - their texts
-/

namespace ReportSql

open Token

namespace Token

/-- A token with another text: a comment keeps its mark, everything else is a word. -/
def rewritten (t : Token) (text : List Char) : Token :=
  match t with
  | .lineComment mark _ =>
    if mark.toList.isPrefixOf text then
      .lineComment mark (String.ofList (text.drop mark.toList.length))
    else .word (String.ofList text) none
  | _ => .word (String.ofList text) none

theorem chars_rewritten (t : Token) (text : List Char) : (t.rewritten text).chars = text := by
  unfold rewritten chars
  split
  · split
    · rename_i mark content hprefix
      obtain ⟨rest, rfl⟩ := List.isPrefixOf_iff_prefix.1 hprefix
      simp [Token.text]
    · simp [Token.text]
  · simp [Token.text]

theorem isParen_rewritten (t : Token) (text : List Char) : (t.rewritten text).isParen = false := by
  unfold rewritten
  split
  · split <;> rfl
  · rfl

/-- A token with another text, or none if there is no text. -/
def kept (t : Token) (text : List Char) : List Token :=
  if text = [] then [] else if text = t.chars then [t] else [t.rewritten text]

/-- Tokens without leading blanks in their text. -/
def trimFront : List Token → List Token
  | [] => []
  | t :: rest =>
    let text := t.chars.dropWhile Text.isBlank
    if text = [] then trimFront rest else t.kept text ++ rest

/-- Tokens without trailing blanks in their text. -/
def trimBack : List Token → List Token
  | [] => []
  | t :: rest =>
    if Text.dropTrailingBlanks (charsOf rest) = [] then t.kept (Text.dropTrailingBlanks t.chars)
    else t :: trimBack rest

/-- Tokens without outer blanks in their text. -/
def trimmed (tokens : List Token) : List Token :=
  trimBack (trimFront tokens)

/-- Tokens with a line break after them, which belongs to a comment at the end. -/
def withLineBreak : List Token → List Token
  | [] => [.blank .newline]
  | [.lineComment mark content] => [.lineComment mark (content.push '\n')]
  | t :: rest => t :: withLineBreak rest

/-! ## Texts -/

theorem textOf_withLineBreak (tokens : List Token) :
    textOf (withLineBreak tokens) = textOf tokens ++ "\n" := by
  fun_induction withLineBreak tokens with
  | case1 => rfl
  | case2 mark content =>
    apply String.toList_injective
    simp [textOf, Token.text]
  | case3 t rest _ ih => rw [Statement.textOf_cons, Statement.textOf_cons, ih, String.append_assoc]

theorem charsOf_kept (t : Token) (text : List Char) : charsOf (t.kept text) = text := by
  unfold kept
  split
  · rename_i h
    rw [h, charsOf_nil]
  · split
    · rename_i h
      rw [charsOf_cons, charsOf_nil, List.append_nil, h]
    · rw [charsOf_cons, charsOf_nil, List.append_nil, chars_rewritten]

theorem charsOf_trimFront (tokens : List Token) :
    charsOf (trimFront tokens) = (charsOf tokens).dropWhile Text.isBlank := by
  fun_induction trimFront tokens with
  | case1 => rfl
  | case2 t rest text hblank ih =>
    rw [ih, charsOf_cons, List.dropWhile_append_of_pos (List.dropWhile_eq_nil_iff.1 hblank)]
  | case3 t rest text hkept =>
    rw [charsOf_append, charsOf_kept, charsOf_cons, List.dropWhile_append,
      if_neg (by rwa [List.isEmpty_iff])]

theorem dropTrailingBlanks_append (first second : List Char) :
    Text.dropTrailingBlanks (first ++ second) =
      if Text.dropTrailingBlanks second = [] then Text.dropTrailingBlanks first
      else first ++ Text.dropTrailingBlanks second := by
  unfold Text.dropTrailingBlanks
  rw [List.reverse_append, List.dropWhile_append]
  by_cases h : second.reverse.dropWhile Text.isBlank = [] <;> simp [h]

theorem charsOf_trimBack (tokens : List Token) :
    charsOf (trimBack tokens) = Text.dropTrailingBlanks (charsOf tokens) := by
  induction tokens with
  | nil => rfl
  | cons t rest ih =>
    rw [charsOf_cons, dropTrailingBlanks_append, trimBack]
    split
    · rw [charsOf_kept]
    · rw [charsOf_cons, ih]

theorem textOf_trimBack (tokens : List Token) :
    textOf (trimBack tokens) = Text.trimEnd (textOf tokens) := by
  apply String.toList_injective
  rw [toList_textOf, charsOf_trimBack, Text.trimEnd, String.toList_ofList, toList_textOf]

theorem textOf_trimmed (tokens : List Token) : textOf (trimmed tokens) = Text.trim (textOf tokens) := by
  apply String.toList_injective
  rw [trimmed, toList_textOf, charsOf_trimBack, charsOf_trimFront, Text.trim, String.toList_ofList,
    toList_textOf]

/-! ## Parentheses -/

theorem parens_withLineBreak (tokens : List Token) : parens (withLineBreak tokens) = parens tokens := by
  fun_induction withLineBreak tokens with
  | case1 => rfl
  | case2 mark content => rfl
  | case3 t rest _ ih => rw [parens, parens, List.filter_cons, List.filter_cons, ← parens, ← parens, ih]

theorem parens_of_blanks {tokens : List Token} (h : Blanks (charsOf tokens)) : parens tokens = [] := by
  induction tokens with
  | nil => rfl
  | cons t rest ih =>
    obtain ⟨hfirst, hrest⟩ := List.forall_mem_append.1 (charsOf_cons t rest ▸ h)
    have hparen : t.isParen = false := by
      rw [isParen_eq_false]
      constructor <;> rintro rfl <;> exact absurd (hfirst _ List.mem_cons_self) (by decide)
    rw [parens_cons_of_not hparen, ih hrest]

theorem chars_of_isParen {t : Token} (h : t.isParen = true) :
    ∃ c, t.chars = [c] ∧ Text.isBlank c = false := by
  rcases Bool.or_eq_true_iff.1 h with h | h
  · obtain rfl := of_decide_eq_true h
    exact ⟨'(', chars_punctuation _, rfl⟩
  · obtain rfl := of_decide_eq_true h
    exact ⟨')', chars_punctuation _, rfl⟩

theorem parens_kept {t : Token} {text : List Char} (h : t.isParen = true → text = t.chars) :
    parens (t.kept text) = parens [t] := by
  unfold kept
  cases ht : t.isParen with
  | true =>
    obtain ⟨c, hchars, -⟩ := chars_of_isParen ht
    rw [h ht, if_neg (by rw [hchars]; exact List.cons_ne_nil _ _), if_pos rfl]
  | false =>
    rw [parens_cons_of_not ht]
    split
    · rfl
    · split
      · exact parens_cons_of_not ht []
      · exact parens_cons_of_not (isParen_rewritten t text) []

theorem parens_trimFront (tokens : List Token) : parens (trimFront tokens) = parens tokens := by
  fun_induction trimFront tokens with
  | case1 => rfl
  | case2 t rest text hblank ih =>
    have hblanks : Blanks (charsOf [t]) := by
      rw [charsOf_cons, charsOf_nil, List.append_nil]
      exact List.dropWhile_eq_nil_iff.1 hblank
    rw [ih, ← List.singleton_append (x := t), parens_append, parens_of_blanks hblanks,
      List.nil_append]
  | case3 t rest text hkept =>
    rw [parens_append, parens_kept, ← parens_append, List.singleton_append]
    intro ht
    obtain ⟨c, hchars, hblank⟩ := chars_of_isParen ht
    simp [text, hchars, hblank]

theorem parens_trimBack (tokens : List Token) : parens (trimBack tokens) = parens tokens := by
  induction tokens with
  | nil => rfl
  | cons t rest ih =>
    have hcons : ∀ more, parens (t :: more) = parens [t] ++ parens more :=
      fun more => parens_append [t] more
    rw [trimBack, hcons rest]
    split
    · rename_i hblank
      have hblanks : Blanks (charsOf rest) := by
        unfold Text.dropTrailingBlanks at hblank
        rw [List.reverse_eq_nil_iff, List.dropWhile_eq_nil_iff] at hblank
        exact fun c hc => hblank c (List.mem_reverse.2 hc)
      rw [parens_of_blanks hblanks, List.append_nil]
      refine parens_kept fun ht => ?_
      obtain ⟨c, hchars, hblank⟩ := chars_of_isParen ht
      simp [Text.dropTrailingBlanks, hchars, hblank]
    · rw [hcons, ih]

theorem parens_trimmed (tokens : List Token) : parens (trimmed tokens) = parens tokens := by
  rw [trimmed, parens_trimBack, parens_trimFront]

/-! ## Tokens that are kept -/

/-- A token with a text and no blank in it. -/
def BlankFree (t : Token) : Prop :=
  t.chars ≠ [] ∧ ∀ c ∈ t.chars, Text.isBlank c = false

theorem BlankFree.dropTrailingBlanks {t : Token} (h : t.BlankFree) :
    Text.dropTrailingBlanks t.chars = t.chars := by
  have hlast : t.chars.reverse.dropWhile Text.isBlank = t.chars.reverse := by
    refine List.dropWhile_eq_self_iff.2 fun hne => ?_
    rw [h.2 _ (List.mem_reverse.1 (List.getElem_mem hne))]
    exact Bool.false_ne_true
  rw [Text.dropTrailingBlanks, hlast, List.reverse_reverse]

theorem blankFree_of_keyword {t : Token} {keyword : String} (h : t.isKeyword keyword = true)
    (hne : keyword.toList ≠ []) (hblank : ∀ c ∈ keyword.toList, Text.isBlank c = false) :
    t.BlankFree := by
  obtain ⟨value, rfl, hvalue⟩ := isKeyword_iff.1 h
  refine ⟨fun hnil => hne ?_, fun c hc => ?_⟩
  · rw [chars_word] at hnil
    rw [← hvalue, Text.upperAscii, String.toList_map, hnil, List.map_nil]
  · rw [chars_word] at hc
    exact isBlank_of_keyword hblank hvalue hc

theorem dropTrailingBlanks_ne_nil {t : Token} {tokens : List Token} (h : t.BlankFree) (ht : t ∈ tokens) :
    Text.dropTrailingBlanks (charsOf tokens) ≠ [] := by
  obtain ⟨first, rest, rfl⟩ := List.append_of_mem ht
  rw [charsOf_append, charsOf_cons, dropTrailingBlanks_append, dropTrailingBlanks_append,
    h.dropTrailingBlanks]
  obtain ⟨hne, -⟩ := h
  split_ifs <;> simp_all

theorem trimBack_append (first : List Token) {rest : List Token}
    (h : Text.dropTrailingBlanks (charsOf rest) ≠ []) : trimBack (first ++ rest) = first ++ trimBack rest := by
  induction first with
  | nil => rfl
  | cons t first ih =>
    rw [List.cons_append, trimBack, charsOf_append, dropTrailingBlanks_append, if_neg h,
      if_neg (by simp [h]), ih]
    rfl

theorem trimBack_eq_nil {tokens : List Token} (h : Text.dropTrailingBlanks (charsOf tokens) = []) :
    trimBack tokens = [] := by
  cases tokens with
  | nil => rfl
  | cons t rest =>
    rw [charsOf_cons, dropTrailingBlanks_append] at h
    split at h
    · rename_i hrest
      rw [trimBack, if_pos hrest, h]
      rfl
    · rename_i hrest
      exact absurd (List.append_eq_nil_iff.1 h).2 hrest

theorem BlankFree.trimBack_cons {t : Token} (h : t.BlankFree) (rest : List Token) :
    trimBack (t :: rest) = t :: trimBack rest := by
  rw [trimBack]
  split
  · rename_i hrest
    rw [h.dropTrailingBlanks, kept, if_neg h.1, if_pos rfl, trimBack_eq_nil hrest]
  · rfl

theorem firstSignificant?_trimBack {t : Token} (ht : t.BlankFree) {tokens : List Token}
    (h : firstSignificant? tokens = some t) : firstSignificant? (trimBack tokens) = some t := by
  induction tokens with
  | nil => exact absurd h (by simp [firstSignificant?, skipTrivia])
  | cons first rest ih =>
    cases hfirst : first.isTrivia with
    | false =>
      rw [firstSignificant?_cons hfirst] at h
      obtain rfl := Option.some.inj h
      rw [ht.trimBack_cons, firstSignificant?_cons hfirst]
    | true =>
      rw [firstSignificant?_trivia hfirst] at h
      have hmem : t ∈ rest := List.dropWhile_subset _ (List.mem_of_mem_head? h)
      rw [trimBack, if_neg (dropTrailingBlanks_ne_nil ht hmem), firstSignificant?_trivia hfirst, ih h]

theorem withLineBreak_append (first : List Token) {rest : List Token} (h : rest ≠ []) :
    withLineBreak (first ++ rest) = first ++ withLineBreak rest := by
  induction first with
  | nil => rfl
  | cons t first ih =>
    rw [List.cons_append, withLineBreak, ih, List.cons_append]
    intro mark content heq
    exact fun htail => h (List.append_eq_nil_iff.1 htail).2

theorem withLineBreak_cons {t : Token} (h : t.isTrivia = false) (rest : List Token) :
    withLineBreak (t :: rest) = t :: withLineBreak rest := by
  rw [withLineBreak]
  rintro mark content rfl
  exact Bool.noConfusion h

theorem firstSignificant?_withLineBreak (tokens : List Token) :
    firstSignificant? (withLineBreak tokens) = firstSignificant? tokens := by
  fun_induction withLineBreak tokens with
  | case1 => rfl
  | case2 mark content => rfl
  | case3 t rest _ ih =>
    cases ht : t.isTrivia with
    | false => rw [firstSignificant?_cons ht, firstSignificant?_cons ht]
    | true => rw [firstSignificant?_trivia ht, firstSignificant?_trivia ht, ih]

end Token

end ReportSql
