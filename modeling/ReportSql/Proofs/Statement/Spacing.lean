import ReportSql.Proofs.Statement.SourceLists

/-!
# Blanks and comments between the tokens of a statement

Blanks and comments may be put between the tokens of a statement. The readers
of names, aliases and parentheses leave the same tokens behind as before, but the
parts of a name are read only where they touch.

## Main definitions

* `Spacing` - tokens with blanks and comments put before them
* `Spacing.BracesKept` - nothing was put into the braces around a name
* `Spacing.NamesKept` - nothing was put around the points of the names that a scan reads
* `Spacing.SameRest` - two readers that leave the same tokens behind

## Main results

* `Statement.readName?_spaced` - a name is read the same, or in part up to a point
-/

namespace ReportSql

open Token

/-- Tokens, each with blanks and comments to be put before it. -/
abbrev Spacing := List (Gap × Token)

namespace Spacing

/-- The tokens without what is put between them. -/
def bare (l : Spacing) : List Token :=
  l.map Prod.snd

/-- The tokens with what is put between them, and blanks and comments at the end. -/
def spaced (last : Gap) : Spacing → List Token
  | [] => last.1
  | (gap, t) :: rest => gap.1 ++ t :: spaced last rest

/-- Nothing is put into the braces around a name that start at the head. -/
def BraceKept : Spacing → Prop
  | (_, .punctuation .openBrace) :: (gap, .word _ none) :: (gap', .punctuation .closeBrace) :: _ =>
    gap.1 = [] ∧ gap'.1 = []
  | _ => True

/-- Nothing is put into the braces around a name. -/
def BracesKept : Spacing → Prop
  | [] => True
  | p :: rest => BraceKept (p :: rest) ∧ BracesKept rest

/-- Nothing is put around the points behind the first word of a name. -/
def PartsKept : Spacing → Prop
  | (gap, .punctuation .period) :: (gap', .word _ _) :: rest =>
    (gap.1 = [] ∧ gap'.1 = []) ∧ PartsKept rest
  | _ => True

/-- The tokens from the first one on that is neither blank nor comment. -/
def skip (l : Spacing) : Spacing :=
  l.dropWhile (·.2.isTrivia)

/-- Nothing is put around the points of a name that starts at the head. -/
def HeadKept : Spacing → Prop
  | (_, .word _ _) :: rest => PartsKept rest
  | _ => True

/-- Nothing is put around the points of a name at the place of a table. -/
def NameKept (l : Spacing) : Prop :=
  HeadKept (skip l)

/-- The names to which the reader of a table list comes are kept. -/
def ListKept (depth : Nat) (l : Spacing) : Prop :=
  ∀ depth' l', l' <:+ l → Statement.Visited depth (bare l) depth' (bare l') → NameKept l'

/-- The names of all table lists are kept. -/
def NamesKept (selects : List Bool) (previous : Option Token) (l : Spacing) : Prop :=
  ∀ depth l', l' <:+ l → (depth, bare l') ∈ Statement.tableLists selects previous (bare l) →
    ListKept depth l'

/-- One reader leaves tokens of a spacing behind and the other one the same tokens with what is put
between them, or both leave none. -/
def SameRest (last : Gap) (l : Spacing) (bareRest spacedRest : Option (List Token)) : Prop :=
  (bareRest = none ∧ spacedRest = none) ∨
    ∃ rest, rest <:+ l ∧ bareRest = some (bare rest) ∧ spacedRest = some (spaced last rest)

/-! ## Blanks and comments -/

variable {last : Gap}

theorem SameRest.mono {l l' : Spacing} {bareRest spacedRest : Option (List Token)}
    (h : SameRest last l bareRest spacedRest) (hl : l <:+ l') :
    SameRest last l' bareRest spacedRest := by
  rcases h with hnone | ⟨rest, hrest, hbare, hspaced⟩
  · exact Or.inl hnone
  · exact Or.inr ⟨rest, hrest.trans hl, hbare, hspaced⟩

theorem skip_isSuffix (l : Spacing) : skip l <:+ l :=
  List.dropWhile_suffix _

theorem BracesKept.suffix {l l' : Spacing} (h : BracesKept l) (hl : l' <:+ l) : BracesKept l' := by
  induction l with
  | nil => rwa [List.suffix_nil.1 hl]
  | cons p l ih =>
    rcases List.suffix_cons_iff.1 hl with rfl | hl
    · exact h
    · exact ih h.2 hl

theorem length_bare (l : Spacing) : (bare l).length = l.length :=
  List.length_map _

/-- The end of a spacing is determined by its tokens. -/
theorem suffix_of_bare {l first second : Spacing} (hfirst : first <:+ l) (hsecond : second <:+ l)
    (h : bare first <:+ bare second) : first <:+ second := by
  have hlength := h.length_le
  rw [length_bare, length_bare] at hlength
  exact List.suffix_of_suffix_length_le hfirst hsecond hlength

theorem eq_of_bare {l first second : Spacing} (hfirst : first <:+ l) (hsecond : second <:+ l)
    (h : bare first = bare second) : first = second := by
  have hlength := congrArg List.length h
  rw [length_bare, length_bare] at hlength
  exact (suffix_of_bare hfirst hsecond (h ▸ List.suffix_rfl)).eq_of_length hlength

theorem skipTrivia_bare (l : Spacing) : skipTrivia (bare l) = bare (skip l) := by
  induction l with
  | nil => rfl
  | cons p l ih =>
    unfold skipTrivia bare skip at *
    rw [List.map_cons, List.dropWhile_cons, List.dropWhile_cons]
    split
    · exact ih
    · rfl

theorem spaced_cons (p : Gap × Token) (l : Spacing) :
    spaced last (p :: l) = p.1.1 ++ p.2 :: spaced last l := rfl

theorem skipTrivia_spaced (l : Spacing) :
    skipTrivia (spaced last l) =
      match skip l with
      | [] => []
      | (_, t) :: rest => t :: spaced last rest := by
  induction l with
  | nil =>
    have hlast := skipTrivia_gap last []
    rw [List.append_nil] at hlast
    exact hlast
  | cons p l ih =>
    obtain ⟨gap, t⟩ := p
    rw [spaced_cons, skipTrivia_gap]
    cases ht : t.isTrivia with
    | true =>
      have hskip : skip ((gap, t) :: l) = skip l := List.dropWhile_cons_of_pos ht
      have hdrop : skipTrivia (t :: spaced last l) = skipTrivia (spaced last l) :=
        List.dropWhile_cons_of_pos ht
      rw [hskip, hdrop, ih]
    | false =>
      have hskip : skip ((gap, t) :: l) = (gap, t) :: l := List.dropWhile_cons_of_neg (by simp [ht])
      rw [hskip, skipTrivia_cons ht]

/-- Either nothing but blanks and comments is left, or the same token comes next. -/
theorem skip_cases (last : Gap) (l : Spacing) :
    (skipTrivia (bare l) = [] ∧ skipTrivia (spaced last l) = []) ∨
      ∃ gap t rest, skip l = (gap, t) :: rest ∧ rest <:+ l ∧ skipTrivia (bare l) = t :: bare rest ∧
        skipTrivia (spaced last l) = t :: spaced last rest := by
  rw [skipTrivia_bare, skipTrivia_spaced]
  cases hskip : skip l with
  | nil => exact Or.inl ⟨rfl, rfl⟩
  | cons p rest =>
    have hsuffix : p :: rest <:+ l := hskip ▸ skip_isSuffix l
    exact Or.inr ⟨p.1, p.2, rest, rfl, (List.suffix_cons p rest).trans hsuffix, rfl, rfl⟩

theorem firstSignificant?_spaced (l : Spacing) :
    firstSignificant? (spaced last l) = firstSignificant? (bare l) := by
  unfold firstSignificant?
  obtain ⟨hbare, hspaced⟩ | ⟨gap, t, rest, -, -, hbare, hspaced⟩ := skip_cases last l
  · rw [hbare, hspaced]
  · rw [hbare, hspaced]
    rfl

end Spacing

namespace Statement

open Spacing

variable {last : Gap}

/-! ## Aliases and commas -/

/-- The same alias is read, and the same tokens are left. -/
theorem readAlias_spaced (last : Gap) (l : Spacing) :
    ∃ l' alias?, l' <:+ l ∧ readAlias (bare l) = (alias?, bare l') ∧
      readAlias (spaced last l) = (alias?, spaced last l') := by
  -- blanks are skipped before the keyword AS and behind it
  have hcandidates : (aliasCandidates (bare l) = [] ∧ aliasCandidates (spaced last l) = []) ∨
      ∃ t rest, rest <:+ l ∧ aliasCandidates (bare l) = t :: bare rest ∧
        aliasCandidates (spaced last l) = t :: spaced last rest := by
    unfold aliasCandidates
    obtain ⟨hbare, hspaced⟩ | ⟨-, t, rest, -, hrest, hbare, hspaced⟩ := skip_cases last l
    · rw [hbare, hspaced]
      exact Or.inl ⟨rfl, rfl⟩
    · rw [hbare, hspaced]
      dsimp only
      split
      · obtain ⟨hbare, hspaced⟩ | ⟨-, t, rest', -, hrest', hbare, hspaced⟩ :=
          skip_cases last rest
        · exact Or.inl ⟨hbare, hspaced⟩
        · exact Or.inr ⟨t, rest', hrest'.trans hrest, hbare, hspaced⟩
      · exact Or.inr ⟨t, rest, hrest, rfl, rfl⟩
  rw [readAlias_eq, readAlias_eq]
  obtain ⟨hbare, hspaced⟩ | ⟨t, rest, hrest, hbare, hspaced⟩ := hcandidates
  · rw [hbare, hspaced]
    exact ⟨l, none, List.suffix_rfl, rfl, rfl⟩
  · rw [hbare, hspaced]
    dsimp only
    split
    · exact ⟨rest, _, hrest, rfl, rfl⟩
    · exact ⟨l, none, List.suffix_rfl, rfl, rfl⟩

/-- A list goes on after the same comma. -/
theorem afterComma?_spaced (last : Gap) (l : Spacing) :
    SameRest last l (afterComma? (some (bare l))) (afterComma? (some (spaced last l))) := by
  unfold afterComma?
  rw [Option.map_some, Option.map_some]
  obtain ⟨hbare, hspaced⟩ | ⟨-, t, rest, -, hrest, hbare, hspaced⟩ := skip_cases last l
  · rw [hbare, hspaced]
    exact Or.inl ⟨rfl, rfl⟩
  · rw [hbare, hspaced]
    by_cases hcomma : t = .punctuation .comma
    · subst hcomma
      exact Or.inr ⟨rest, hrest, rfl, rfl⟩
    · left
      constructor <;> split <;> simp_all

/-- The same parenthesis is closed. -/
theorem afterClosing?_spaced (last : Gap) (depth : Nat) (l : Spacing) :
    SameRest last l (afterClosing? depth (bare l)) (afterClosing? depth (spaced last l)) := by
  induction l generalizing depth with
  | nil =>
    refine Or.inl ⟨rfl, ?_⟩
    have hlast := afterClosing?_append (balanced_gap last) depth []
    rw [List.append_nil] at hlast
    exact hlast
  | cons p l ih =>
    obtain ⟨gap, t⟩ := p
    have hbare : bare ((gap, t) :: l) = t :: bare l := rfl
    rw [hbare, spaced_cons, afterClosing?_append (balanced_gap gap)]
    by_cases opens : t = .punctuation .openParen
    · subst opens
      rw [afterClosing?, afterClosing?]
      exact (ih (depth + 1)).mono (List.suffix_cons _ _)
    by_cases closes : t = .punctuation .closeParen
    · subst closes
      cases depth with
      | zero => exact Or.inr ⟨l, List.suffix_cons _ _, rfl, rfl⟩
      | succ depth =>
        rw [afterClosing?, afterClosing?]
        exact (ih depth).mono (List.suffix_cons _ _)
    · rw [afterClosing?_cons opens closes, afterClosing?_cons opens closes]
      exact (ih depth).mono (List.suffix_cons _ _)

/-! ## Names -/

/-- Where a token that is neither blank nor comment comes first, nothing was put before it. -/
theorem spaced_eq_cons {l : Spacing} {t : Token} {tokens : List Token} (ht : t.isTrivia = false)
    (h : spaced last l = t :: tokens) :
    ∃ gap rest, l = (gap, t) :: rest ∧ gap.1 = [] ∧ tokens = spaced last rest := by
  have hgap : ∀ (gap : Gap) rest, gap.1 ≠ t :: rest := by
    intro gap rest heq
    have htrivia := gap.2 t (heq ▸ List.mem_cons_self)
    rw [ht] at htrivia
    exact Bool.noConfusion htrivia
  cases l with
  | nil => exact absurd h (hgap last tokens)
  | cons p rest =>
    obtain ⟨gap, t'⟩ := p
    rw [spaced_cons] at h
    obtain ⟨hnil, htail⟩ | ⟨more, hmore, -⟩ := List.append_eq_cons_iff.1 h
    · obtain ⟨rfl, rfl⟩ := List.cons.inj htail
      exact ⟨gap, rest, rfl, hnil, rfl⟩
    · exact absurd hmore (hgap gap more)

theorem readNameParts_of_ne {tokens : List Token}
    (h : ∀ part quote rest, tokens ≠ .punctuation .period :: .word part quote :: rest) :
    readNameParts tokens = ("", tokens) := by
  unfold readNameParts
  split
  · exact absurd rfl (h _ _ _)
  · rfl

/-- A name goes on with a point and a word, or no name goes on there. -/
theorem parts_cases (last : Gap) (l : Spacing) :
    (∃ gap gap' part quote rest,
      l = (gap, .punctuation .period) :: (gap', .word part quote) :: rest) ∨
      (readNameParts (bare l) = ("", bare l) ∧ readNameParts (spaced last l) = ("", spaced last l) ∧
        PartsKept l) := by
  by_cases h : ∃ gap gap' part quote rest,
      l = (gap, .punctuation .period) :: (gap', .word part quote) :: rest
  · exact Or.inl h
  · refine Or.inr ⟨readNameParts_of_ne fun part quote rest heq => h ?_,
      readNameParts_of_ne fun part quote rest heq => h ?_, ?_⟩
    · obtain ⟨p, l', rfl, hp, hl'⟩ := List.map_eq_cons_iff.1 heq
      obtain ⟨p', rest', rfl, hp', -⟩ := List.map_eq_cons_iff.1 hl'
      exact ⟨p.1, p'.1, part, quote, rest', by rw [← hp, ← hp']⟩
    · obtain ⟨gap, l', rfl, -, hl'⟩ := spaced_eq_cons rfl heq
      obtain ⟨gap', rest', rfl, -, -⟩ := spaced_eq_cons rfl hl'.symm
      exact ⟨gap, gap', part, quote, rest', rfl⟩
    · unfold PartsKept
      split
      · exact absurd ⟨_, _, _, _, _, rfl⟩ h
      · trivial

/-- A name whose parts are kept is read the same. -/
theorem readNameParts_kept (last : Gap) {l : Spacing} (h : PartsKept l) :
    ∃ parts rest, rest <:+ l ∧ readNameParts (bare l) = (parts, bare rest) ∧
      readNameParts (spaced last l) = (parts, spaced last rest) := by
  induction hlength : l.length using Nat.strongRecOn generalizing l with
  | ind n ih =>
  obtain ⟨gap, gap', part, quote, rest, rfl⟩ | ⟨hbare, hspaced, -⟩ := parts_cases last l
  · obtain ⟨⟨hgap, hgap'⟩, hrest⟩ := h
    simp only [List.length_cons] at hlength
    obtain ⟨parts, left, hleft, hbare, hspaced⟩ := ih rest.length (by omega) hrest rfl
    refine ⟨"." ++ part ++ parts, left,
      hleft.trans ((List.suffix_cons _ _).trans (List.suffix_cons _ _)), ?_, ?_⟩
    · show readNameParts (.punctuation .period :: .word part quote :: bare rest) = _
      rw [readNameParts, hbare]
    · rw [spaced_cons, spaced_cons, hgap, hgap']
      show readNameParts (.punctuation .period :: .word part quote :: spaced last rest) = _
      rw [readNameParts, hspaced]
  · exact ⟨"", l, List.suffix_rfl, hbare, hspaced⟩

/-- A name whose parts are not kept is read in part, up to a point. -/
theorem readNameParts_broken (last : Gap) {l : Spacing} (h : ¬ PartsKept l) :
    (readNameParts (spaced last l)).1 ≠ (readNameParts (bare l)).1 ∧
      firstSignificant? (readNameParts (spaced last l)).2 = some (.punctuation .period) := by
  induction hlength : l.length using Nat.strongRecOn generalizing l with
  | ind n ih =>
  obtain ⟨gap, gap', part, quote, rest, rfl⟩ | ⟨-, -, hkept⟩ := parts_cases last l
  · have hbare : (readNameParts (bare ((gap, .punctuation .period) :: (gap', .word part quote) :: rest))).1 =
        "." ++ part ++ (readNameParts (bare rest)).1 := by
      show (readNameParts (.punctuation .period :: .word part quote :: bare rest)).1 = _
      rw [readNameParts]
    rw [hbare, spaced_cons, spaced_cons]
    by_cases htouch : gap.1 = [] ∧ gap'.1 = []
    · simp only [List.length_cons] at hlength
      obtain ⟨hne, hleft⟩ := ih rest.length (by omega) (fun hrest => h ⟨htouch, hrest⟩) rfl
      rw [htouch.1, htouch.2]
      show (readNameParts (.punctuation .period :: .word part quote :: spaced last rest)).1 ≠ _ ∧
        firstSignificant? (readNameParts
          (.punctuation .period :: .word part quote :: spaced last rest)).2 = _
      rw [readNameParts]
      refine ⟨fun heq => hne ?_, hleft⟩
      apply String.toList_injective
      have hlist := congrArg String.toList heq
      simpa using hlist
    · -- the point and the word do not touch, so the name ends before the point
      have hends : readNameParts
          (gap.1 ++ .punctuation .period :: (gap'.1 ++ .word part quote :: spaced last rest)) =
            ("", gap.1 ++ .punctuation .period :: (gap'.1 ++ .word part quote :: spaced last rest)) := by
        refine readNameParts_of_ne fun part' quote' rest' heq => htouch ?_
        obtain ⟨_, l', hl, hgap, hl'⟩ := @spaced_eq_cons last
          ((gap, .punctuation .period) :: (gap', .word part quote) :: rest) _ _ rfl heq
        obtain ⟨hpoint, rfl⟩ := List.cons.inj hl
        obtain ⟨rfl, -⟩ := Prod.mk.inj hpoint
        obtain ⟨_, l'', hl, hgap', -⟩ := spaced_eq_cons rfl hl'.symm
        obtain ⟨rfl, -⟩ := Prod.mk.inj (List.cons.inj hl).1
        exact ⟨hgap, hgap'⟩
      rw [hends]
      refine ⟨fun heq => ?_, by rw [firstSignificant?_gap]; rfl⟩
      have hlist := congrArg String.toList heq
      simp at hlist
  · exact absurd hkept h

theorem readName?_word (first : String) (quote : Option Char) (tokens : List Token) :
    readName? (.word first quote :: tokens) =
      some (first ++ (readNameParts tokens).1, false, (readNameParts tokens).2) := rfl

theorem readName?_eq_none {t : Token} {tokens : List Token} (hword : ∀ first quote, t ≠ .word first quote)
    (hbraces : bracedTable? (t :: tokens) = none) : readName? (t :: tokens) = none := by
  unfold readName?
  rw [hbraces]
  cases t with
  | word first quote => exact absurd rfl (hword first quote)
  | _ => rfl

theorem exists_braced_bare {t : Token} {rest : Spacing} {name : String}
    (h : bracedTable? (t :: bare rest) = some name) :
    ∃ gap gap' left, t = .punctuation .openBrace ∧
      rest = (gap, .word name none) :: (gap', .punctuation .closeBrace) :: left := by
  obtain ⟨more, hmore⟩ := bracedTable?_eq_some.1 h
  obtain ⟨rfl, hrest⟩ := List.cons.inj hmore
  obtain ⟨p, rest', rfl, hp, hrest'⟩ := List.map_eq_cons_iff.1 hrest
  obtain ⟨p', left, rfl, hp', -⟩ := List.map_eq_cons_iff.1 hrest'
  exact ⟨p.1, p'.1, left, rfl, by rw [← hp, ← hp']⟩

theorem exists_braced_spaced {t : Token} {rest : Spacing} {name : String}
    (h : bracedTable? (t :: spaced last rest) = some name) :
    ∃ gap gap' left, t = .punctuation .openBrace ∧
      rest = (gap, .word name none) :: (gap', .punctuation .closeBrace) :: left := by
  obtain ⟨more, hmore⟩ := bracedTable?_eq_some.1 h
  obtain ⟨rfl, hrest⟩ := List.cons.inj hmore
  obtain ⟨gap, rest', rfl, -, hrest'⟩ := spaced_eq_cons rfl hrest
  obtain ⟨gap', left, rfl, -, -⟩ := spaced_eq_cons rfl hrest'.symm
  exact ⟨gap, gap', left, rfl, rfl⟩

/-- A name is read the same when it is kept, and in part, up to a point, when it is not. -/
theorem readName?_spaced (last : Gap) {gap : Gap} {t : Token} {rest : Spacing}
    (h : BraceKept ((gap, t) :: rest)) :
    (readName? (t :: bare rest) = none ∧ readName? (t :: spaced last rest) = none ∧
      HeadKept ((gap, t) :: rest)) ∨
    (∃ name braced left, left <:+ rest ∧ readName? (t :: bare rest) = some (name, braced, bare left) ∧
      readName? (t :: spaced last rest) = some (name, braced, spaced last left) ∧
        HeadKept ((gap, t) :: rest)) ∨
    ∃ name left name' left', readName? (t :: bare rest) = some (name, false, left) ∧
      readName? (t :: spaced last rest) = some (name', false, left') ∧ name' ≠ name ∧
        firstSignificant? left' = some (.punctuation .period) ∧ ¬ HeadKept ((gap, t) :: rest) := by
  -- a name is a word with its parts or a word in braces
  by_cases hword : ∃ first quote, t = .word first quote
  · obtain ⟨first, quote, rfl⟩ := hword
    rw [readName?_word, readName?_word]
    by_cases hkept : PartsKept rest
    · obtain ⟨parts, left, hleft, hbare, hspaced⟩ := readNameParts_kept last hkept
      rw [hbare, hspaced]
      exact Or.inr (Or.inl ⟨_, _, left, hleft, rfl, rfl, hkept⟩)
    · obtain ⟨hne, hpoint⟩ := readNameParts_broken last hkept
      refine Or.inr (Or.inr ⟨_, _, _, _, rfl, rfl, fun heq => hne ?_, hpoint, hkept⟩)
      apply String.toList_injective
      have hlist := congrArg String.toList heq
      simpa using hlist
  have hhead : HeadKept ((gap, t) :: rest) := by
    unfold HeadKept
    split
    · rename_i heq
      obtain ⟨hpair, -⟩ := List.cons.inj heq
      exact absurd ⟨_, _, (Prod.mk.inj hpair).2⟩ hword
    · trivial
  by_cases hbraces : ∃ name gap' gap'' left, t = .punctuation .openBrace ∧
      rest = (gap', .word name none) :: (gap'', .punctuation .closeBrace) :: left
  · obtain ⟨name, gap', gap'', left, rfl, rfl⟩ := hbraces
    obtain ⟨hgap', hgap''⟩ := h
    refine Or.inr (Or.inl ⟨name, true, left, (List.suffix_cons _ _).trans (List.suffix_cons _ _), rfl,
      ?_, hhead⟩)
    rw [spaced_cons, spaced_cons, hgap', hgap'']
    rfl
  · have hnone : ∀ first quote, t ≠ .word first quote := fun first quote heq => hword ⟨first, quote, heq⟩
    refine Or.inl ⟨readName?_eq_none hnone ?_, readName?_eq_none hnone ?_, hhead⟩
    · exact Option.eq_none_iff_forall_ne_some.2 fun name hname => hbraces ⟨name, exists_braced_bare hname⟩
    · exact Option.eq_none_iff_forall_ne_some.2 fun name hname => hbraces ⟨name, exists_braced_spaced hname⟩

end Statement

end ReportSql
