import ReportSql.Proofs.Sqlite.Trimmed
import ReportSql.Proofs.Statement.Added

/-!
# Legible statements

A statement is legible if the database reads its printed tokens as the program does, from
whichever of them on they are printed, and every colon in it marks a placeholder. A
condition of such a statement is read the same in parentheses, because a comment at its
end is closed by a line break.

## Main definitions

* `Statement.Legible` - tokens that the database reads as the program does

## Main results

* `Statement.Legible.exists_enclosed` - what a condition in parentheses is read as
-/

namespace ReportSql

open Token Statement

namespace Token

variable {next next' : Option Char} {t : Token} {tokens first second rest : List Token}

/-! ## Joints -/

/-- A text can be followed by another character than it was, if that is the same, if there is none, or
if one word gives way to another. -/
inductive GivesWay : Option Char → Option Char → Prop
  | same (c : Option Char) : GivesWay c c
  | nothing (c : Option Char) : GivesWay c none
  | word {c c' : Char} (hc : Sqlite.isWordPart c = true) (hc' : Sqlite.isWordStart c' = true) :
      GivesWay (some c) (some c')

theorem Tame.givesWay (h : Tame next tokens) (hnext : GivesWay next next') : Tame next' tokens := by
  cases hnext with
  | same => exact h
  | nothing => exact h.soften soft_none fun _ => rfl
  | word hc hc' => exact h.beforeWord hc hc'

theorem Tame.of_append (h : Tame next (first ++ second))
    (hlast : first.getLast? ≠ some (.punctuation .colon)) :
    Tame (headOr second next) first ∧ Tame next second := by
  generalize htokens : first ++ second = tokens at h
  induction h generalizing first with
  | nil =>
    obtain ⟨rfl, rfl⟩ := List.append_eq_nil_iff.1 htokens
    exact ⟨.nil, .nil⟩
  | @parameter name rest hname hrest ih =>
    -- the cut does not come between the colon and the name, because no colon stands before it
    rcases first with _ | ⟨t, _ | ⟨u, first⟩⟩
    · obtain rfl : second = _ := htokens
      exact ⟨.nil, .parameter hname hrest⟩
    · obtain ⟨rfl, -⟩ := List.cons.inj htokens
      exact absurd rfl hlast
    · simp only [List.cons_append, List.cons.injEq] at htokens
      obtain ⟨rfl, rfl, rfl⟩ := htokens
      obtain ⟨hfirst, hsecond⟩ := ih (fun h => hlast (by simp [List.getLast?_cons, h])) rfl
      rw [headOr_append] at hname
      exact ⟨.parameter hname hfirst, hsecond⟩
  | @token t rest hfits hrest ih =>
    rcases first with _ | ⟨u, first⟩
    · obtain rfl : second = _ := htokens
      exact ⟨.nil, .token hfits hrest⟩
    · simp only [List.cons_append, List.cons.injEq] at htokens
      obtain ⟨rfl, rfl⟩ := htokens
      obtain ⟨hfirst, hsecond⟩ := ih (fun h => hlast (by simp [List.getLast?_cons, h])) rfl
      rw [headOr_append] at hfits
      exact ⟨.token hfits hfirst, hsecond⟩

/-! ## Comments at the end -/

/-- The last token that is no blank. -/
def lastSolid? (tokens : List Token) : Option Token :=
  tokens.reverse.find? (!·.isBlank)

theorem lastSolid?_append (first second : List Token) :
    lastSolid? (first ++ second) = (lastSolid? second).or (lastSolid? first) := by
  rw [lastSolid?, List.reverse_append, List.find?_append]
  rfl

theorem lastSolid?_cons (t : Token) (rest : List Token) :
    lastSolid? (t :: rest) = (lastSolid? rest).or (if t.isBlank then none else some t) := by
  rw [← List.singleton_append, lastSolid?_append]
  cases h : t.isBlank <;> simp [lastSolid?, h]

theorem isLineComment_of_kept {u : Token} {text : List Char} (hu : u ∈ t.kept text)
    (hcomment : u.isLineComment = true) : t.isLineComment = true := by
  unfold kept at hu
  split at hu
  · exact absurd hu List.not_mem_nil
  · split at hu
    · rwa [← List.mem_singleton.1 hu]
    · rw [List.mem_singleton.1 hu] at hcomment
      cases t with
      | lineComment => rfl
      | _ => exact Bool.noConfusion hcomment

theorem isBlank_of_isLineComment (h : t.isLineComment = true) : t.isBlank = false := by
  cases t with
  | lineComment => rfl
  | _ => exact Bool.noConfusion h

theorem mem_of_lastSolid? {u : Token} (h : u ∈ lastSolid? tokens) : u ∈ tokens :=
  List.mem_reverse.1 (List.mem_of_find?_eq_some h)

/-- Every token but a blank has a visible character. -/
theorem Tame.exists_visible (h : Tame next tokens) : ∀ t ∈ tokens, t.isBlank = false →
    ∃ c ∈ t.chars, Text.isBlank c = false := by
  induction h with
  | nil => exact fun t ht => absurd ht List.not_mem_nil
  | @parameter name rest hname _ ih =>
    refine List.forall_mem_cons.2 ⟨fun _ => ⟨':', List.mem_cons_self, by decide⟩,
      List.forall_mem_cons.2 ⟨fun _ => ?_, ih⟩⟩
    simp only [isMarked, Bool.and_eq_true] at hname
    obtain ⟨c, more, hchars, hc⟩ := (isSolid_name hname.1.1 hname.1.2).startsVisibly
    exact ⟨c, by rw [chars_word, hchars]; exact List.mem_cons_self, hc⟩
  | token hfits _ ih =>
    refine List.forall_mem_cons.2 ⟨fun hblank => ?_, ih⟩
    rw [fits, Bool.and_eq_true] at hfits
    obtain ⟨⟨c, more, hchars, hc⟩, -⟩ := edges_of_isRead hfits.1 hblank
    exact ⟨c, by rw [hchars]; exact List.mem_cons_self, hc⟩

theorem lastSolid?_eq_none
    (hvisible : ∀ t ∈ tokens, t.isBlank = false → ∃ c ∈ t.chars, Text.isBlank c = false)
    (hblanks : Text.dropTrailingBlanks (charsOf tokens) = []) : lastSolid? tokens = none := by
  refine List.find?_eq_none.2 fun t ht hsolid => ?_
  rw [List.mem_reverse] at ht
  obtain ⟨c, hc, hblank⟩ := hvisible t ht (by simpa using hsolid)
  unfold Text.dropTrailingBlanks at hblanks
  rw [List.reverse_eq_nil_iff, List.dropWhile_eq_nil_iff] at hblanks
  have hmem : c ∈ charsOf tokens := by
    obtain ⟨before, after, rfl⟩ := List.append_of_mem ht
    simp [hc]
  rw [hblanks c (List.mem_reverse.2 hmem)] at hblank
  exact Bool.noConfusion hblank

/-- A list of tokens without its trailing blanks ends in a comment only if its last solid token is one. -/
theorem comment_of_trimBack
    (hvisible : ∀ t ∈ tokens, t.isBlank = false → ∃ c ∈ t.chars, Text.isBlank c = false)
    (hcomment : endsInComment (trimBack tokens) = true) : (lastSolid? tokens).any isLineComment = true := by
  induction tokens with
  | nil => exact hcomment
  | cons t rest ih =>
    obtain ⟨-, hrest⟩ := List.forall_mem_cons.1 hvisible
    rw [lastSolid?_cons]
    rw [trimBack] at hcomment
    split at hcomment
    · rename_i hblanks
      obtain ⟨u, hu, hline⟩ := (Option.any_eq_true _ _).1 hcomment
      have ht := isLineComment_of_kept (List.mem_of_getLast? hu) hline
      rw [lastSolid?_eq_none hrest hblanks, isBlank_of_isLineComment ht]
      exact ht
    · rename_i hsome
      have hne : trimBack rest ≠ [] := by
        intro hnil
        have hchars := charsOf_trimBack rest
        rw [hnil] at hchars
        exact hsome hchars.symm
      rw [endsInComment, List.getLast?_cons_of_ne_nil hne] at hcomment
      have hlast := ih hrest hcomment
      obtain ⟨u, hu, hline⟩ := (Option.any_eq_true _ _).1 hlast
      rw [hu]
      exact hline

/-- So does a list of tokens without its leading blanks. -/
theorem comment_of_trimFront (hcomment : (lastSolid? (trimFront tokens)).any isLineComment = true) :
    (lastSolid? tokens).any isLineComment = true := by
  induction tokens with
  | nil => exact hcomment
  | cons t rest ih =>
    rw [lastSolid?_cons]
    rw [trimFront] at hcomment
    split at hcomment
    · have hlast := ih hcomment
      obtain ⟨u, hu, hline⟩ := (Option.any_eq_true _ _).1 hlast
      rw [hu]
      exact hline
    · rw [lastSolid?_append] at hcomment
      cases hrest : lastSolid? rest with
      | some u => simpa [hrest] using hcomment
      | none =>
        rw [hrest, Option.none_or] at hcomment
        obtain ⟨u, hu, hline⟩ := (Option.any_eq_true _ _).1 hcomment
        have ht := isLineComment_of_kept (mem_of_lastSolid? hu) hline
        rw [isBlank_of_isLineComment ht]
        exact ht

end Token

namespace Statement

variable {tablePrefix : String} {tokens first next : List Token}

/-! ## Legible tokens -/

/-- The database reads the printed tokens as the program does, from whichever of them on they are
printed, and a colon among them always marks a placeholder. -/
structure Legible (tablePrefix : String) (tokens : List Token) : Prop where
  tame : ∀ tail, tail <:+ tokens → Tame none (expand .sqlite tablePrefix tail)
  named : ∀ tail, tail <:+ tokens → tail.head? = some (.punctuation .colon) →
    (namedPlaceholder? tail).isSome = true

instance : Decidable (Legible tablePrefix tokens) :=
  decidable_of_iff (∀ tail ∈ tokens.tails, Tame none (expand .sqlite tablePrefix tail) ∧
      (tail.head? = some (.punctuation .colon) → (namedPlaceholder? tail).isSome = true))
    ⟨fun h => ⟨fun tail htail => (h tail ((List.mem_tails _ _).2 htail)).1,
      fun tail htail => (h tail ((List.mem_tails _ _).2 htail)).2⟩,
      fun h tail htail => ⟨h.tame tail ((List.mem_tails _ _).1 htail),
        h.named tail ((List.mem_tails _ _).1 htail)⟩⟩

theorem Legible.of_append (h : Legible tablePrefix (first ++ next)) : Legible tablePrefix next where
  tame tail htail := h.tame tail (htail.trans (List.suffix_append first next))
  named tail htail := h.named tail (htail.trans (List.suffix_append first next))

/-- The printed tokens of whole pieces end with no colon, and they have the placeholders of the pieces. -/
theorem Legible.expand_whole (h : Legible tablePrefix (first ++ next)) (hwhole : Whole first next) :
    (expand .sqlite tablePrefix first).getLast? ≠ some (.punctuation .colon) ∧
      ∀ name ∈ placeholdersIn (expand .sqlite tablePrefix first),
        name ∈ placeholdersIn (first ++ next) := by
  have hlast : ∀ {t : Token} {tokens : List Token}, t ≠ .punctuation .colon →
      tokens.getLast? ≠ some (.punctuation .colon) →
        (t :: tokens).getLast? ≠ some (.punctuation .colon) := by
    intro t tokens ht htokens
    rw [List.getLast?_cons]
    cases hlast : tokens.getLast? with
    | none => simpa using ht
    | some u => simpa [hlast] using htokens
  have hmore : ∀ (t : Token) {tokens : List Token} {name : String}, name ∈ placeholdersIn tokens →
      name ∈ placeholdersIn (t :: tokens) := fun t _ _ hname => placeholdersIn_subset_cons t _ hname
  revert hwhole h
  fun_induction expand .sqlite tablePrefix first with
  | case1 name rest ih =>
    intro h hwhole
    obtain ⟨value, quote, hword⟩ := tableToken_eq_word (d := .sqlite) (tablePrefix ++ name)
    obtain ⟨hend, hnames⟩ := ih (@Legible.of_append _ [_, _, _] _ h) hwhole
    rw [hword]
    refine ⟨hlast (by simp) hend, fun name hname => ?_⟩
    rw [placeholdersIn_cons (by simp)] at hname
    exact hmore _ (hmore _ (hmore _ (hnames name hname)))
  | case2 name rest ih =>
    intro h hwhole
    obtain ⟨hend, hnames⟩ := ih (@Legible.of_append _ [_, _] _ h) hwhole
    rw [placeholderTokens, if_neg (by decide)]
    refine ⟨?_, fun other hother => ?_⟩
    · rw [List.cons_append, List.cons_append, List.nil_append, List.getLast?_cons_cons]
      exact hlast Token.noConfusion hend
    · rw [List.cons_append, List.cons_append, List.nil_append, placeholdersIn_parameter] at hother
      rw [List.cons_append, List.cons_append, placeholdersIn_parameter]
      exact List.cons_subset_cons name hnames hother
  | case3 t rest hbraces hcolon ih =>
    intro h hwhole
    rw [Whole] at hwhole
    · obtain ⟨-, hnoName, hwhole⟩ := hwhole
      obtain ⟨hend, hnames⟩ := ih (@Legible.of_append _ [_] _ h) hwhole
      -- a legible colon is followed by a name, and so it is no piece by itself
      have ht : t ≠ .punctuation .colon := by
        rintro rfl
        have hsome := h.named _ (List.suffix_refl _) rfl
        rw [List.cons_append, hnoName] at hsome
        exact Bool.noConfusion hsome
      refine ⟨hlast ht hend, fun name hname => ?_⟩
      rw [placeholdersIn_cons ht] at hname
      exact hmore _ (hnames name hname)
    · exact hbraces
    · exact hcolon
  | case4 => exact fun _ _ => ⟨by simp, fun name hname => absurd hname List.not_mem_nil⟩

theorem comment_of_expand (tokens : List Token) :
    ((lastSolid? (expand .sqlite tablePrefix tokens)).any isLineComment = true →
      (lastSolid? tokens).any isLineComment = true) ∧
    (lastSolid? (expand .sqlite tablePrefix tokens) = none → lastSolid? tokens = none) := by
  -- a word is solid and no comment, whatever stands behind it
  have hword : ∀ (value : String) (quote : Option Char) (tokens : List Token),
      lastSolid? (.word value quote :: tokens) = (lastSolid? tokens).or (some (.word value quote)) :=
    fun value quote tokens => lastSolid?_cons _ _
  have hmore : ∀ (t : Token) (tokens : List Token), (lastSolid? tokens).any isLineComment = true →
      (lastSolid? (t :: tokens)).any isLineComment = true := by
    intro t tokens h
    obtain ⟨u, hu, hline⟩ := (Option.any_eq_true _ _).1 h
    rw [lastSolid?_cons, hu]
    exact hline
  fun_induction expand .sqlite tablePrefix tokens with
  | case1 name rest ih =>
    obtain ⟨value, quote, htoken⟩ := tableToken_eq_word (d := .sqlite) (tablePrefix ++ name)
    rw [htoken, hword]
    cases hlast : lastSolid? (expand .sqlite tablePrefix rest) with
    | none => exact ⟨fun h => Bool.noConfusion h, fun h => by simp at h⟩
    | some u =>
      rw [hlast] at ih
      exact ⟨fun h => hmore _ _ (hmore _ _ (hmore _ _ (ih.1 h))), fun h => by simp at h⟩
  | case2 name rest ih =>
    rw [placeholderTokens, if_neg (by decide), List.cons_append, List.cons_append, List.nil_append,
      lastSolid?_cons, hword]
    cases hlast : lastSolid? (expand .sqlite tablePrefix rest) with
    | none => exact ⟨fun h => Bool.noConfusion h, fun h => by simp at h⟩
    | some u =>
      rw [hlast] at ih
      exact ⟨fun h => hmore _ _ (hmore _ _ (ih.1 h)), fun h => by simp at h⟩
  | case3 t rest hbraces hcolon ih =>
    rw [lastSolid?_cons, lastSolid?_cons t rest]
    cases hlast : lastSolid? (expand .sqlite tablePrefix rest) with
    | none =>
      rw [ih.2 hlast]
      exact ⟨id, id⟩
    | some u =>
      rw [hlast] at ih
      refine ⟨fun h => ?_, fun h => by simp at h⟩
      obtain ⟨v, hv, hline⟩ := (Option.any_eq_true _ _).1 (ih.1 h)
      rw [hv]
      exact hline
  | case4 => exact ⟨id, id⟩

/-! ## The author's condition -/

theorem Legible.tame_whole (h : Legible tablePrefix (first ++ next)) (hwhole : Whole first next) :
    Tame (headOr (expand .sqlite tablePrefix next) none) (expand .sqlite tablePrefix first) := by
  have htame := h.tame _ (List.suffix_refl _)
  rw [expand_append hwhole] at htame
  exact (htame.of_append (h.expand_whole hwhole).1).1

/-- A condition in parentheses is printed as tame tokens. -/
theorem Legible.exists_enclosed (h : Legible tablePrefix tokens) {count : Nat}
    (hcount : count ≤ tokens.length) :
    ∃ body, enclosedCondition .sqlite tablePrefix count tokens = "(" ++ textOf body ++ ")" ∧
      Tame (some ')') body ∧ ∀ name ∈ placeholdersIn body, name ∈ placeholdersIn tokens := by
  obtain ⟨doubled, after, hafter, hinside, hwhole, htext, -⟩ :=
    exists_doubled .sqlite tablePrefix (tokens.take count) (tokens.drop count)
  rw [List.length_take, min_eq_left hcount, List.take_append_drop] at htext
  have htokens : tokens = (tokens.take count ++ doubled) ++ after := by
    rw [List.append_assoc, ← hafter, List.take_append_drop]
  rw [htokens] at h
  have htame := h.tame_whole hwhole
  obtain ⟨hbody, hbodyNames⟩ := htame.trimmed
  obtain ⟨-, hnames⟩ := h.expand_whole hwhole
  rw [← hbodyNames, ← htokens] at hnames
  unfold enclosedCondition
  dsimp only
  rw [htext, ← textOf_trimmed]
  by_cases hline : ((tokens.take count).reverse.find? (!·.isBlank)).any isLineComment = true
  · refine ⟨trimmed (expand .sqlite tablePrefix (tokens.take count ++ doubled)) ++ [.blank .newline],
      ?_, hbody.before rfl (.token rfl .nil), fun name hname => ?_⟩
    · rw [if_pos hline, textOf_append]
      rfl
    · rw [hbody.placeholdersIn_append] at hname
      exact hnames name (by simpa [placeholdersIn, namedPlaceholder?] using hname)
  · refine ⟨trimmed (expand .sqlite tablePrefix (tokens.take count ++ doubled)), ?_,
      hbody.soften (soft_of_mem (by decide)) fun hcomment => ?_, hnames⟩
    · rw [if_neg hline, String.append_empty]
    · -- a comment that is left at the end would be the last solid token of the range
      have hexpanded := (comment_of_expand _).1 (comment_of_trimFront
        (comment_of_trimBack htame.trimFront.1.exists_visible hcomment))
      rw [lastSolid?_append] at hexpanded
      cases hlast : lastSolid? doubled with
      | none =>
        rw [hlast, Option.none_or] at hexpanded
        exact absurd hexpanded hline
      | some u =>
        rw [hlast] at hexpanded
        rcases hinside u (mem_of_lastSolid? hlast) with ⟨value, rfl⟩ | rfl <;>
          exact Bool.noConfusion hexpanded

/-- A word among legible tokens is one of the database's own. -/
theorem Legible.word {value : String} {rest : List Token} (h : Legible tablePrefix (.word value none :: rest)) :
    (Sqlite.isBareWord value.toList = true ∧ value.toList.all (!Text.isBlank ·) = true) ∧
      (∃ c, headOr (expand .sqlite tablePrefix (.word value none :: rest)) none = some c ∧
        Sqlite.isWordPart c = true) := by
  have htame := h.tame _ (List.suffix_refl _)
  rw [expand_word] at htame ⊢
  cases htame with
  | token hfits =>
    simp only [fits, isRead, Bool.and_eq_true] at hfits
    refine ⟨hfits.1.1.1, ?_⟩
    cases hvalue : value.toList with
    | nil => simp [hvalue, Sqlite.isBareWord] at hfits
    | cons c more =>
      simp only [hvalue, Sqlite.isBareWord, Bool.and_eq_true] at hfits
      refine ⟨c, by rw [headOr_cons, chars_word, hvalue]; rfl, ?_⟩
      simp [Sqlite.isWordPart, hfits.1.1.1.1.1.1]

end Statement

end ReportSql
