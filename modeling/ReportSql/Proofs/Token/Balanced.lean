import Mathlib.Data.List.Induction
import ReportSql.Statement.Tables

/-!
# Gaps, keywords and parentheses

Blanks and comments are skipped, a keyword is an unquoted word, and what stands
between two parentheses of a pair is itself balanced.

## Main definitions

* `Gap` - blanks and comments between two tokens
* `KeywordToken` - a token that writes a keyword
* `Token.Balanced` - tokens whose parentheses match
-/

namespace ReportSql

/-- Blanks and comments between two tokens. -/
abbrev Gap := { tokens : List Token // ∀ t ∈ tokens, t.isTrivia = true }

theorem Gap.isTrivia_nil : ∀ t ∈ ([] : List Token), t.isTrivia = true :=
  fun _ ht => absurd ht List.not_mem_nil

/-- Neither blanks nor comments. -/
def Gap.empty : Gap :=
  ⟨[], Gap.isTrivia_nil⟩

/-- A token that writes a keyword. -/
abbrev KeywordToken (keyword : String) := { t : Token // t.isKeyword keyword = true }

namespace Token

/-! ## Blanks and keywords -/

theorem skipTrivia_gap (gap : Gap) (tokens : List Token) :
    skipTrivia (gap.1 ++ tokens) = skipTrivia tokens := by
  obtain ⟨gap, hgap⟩ := gap
  unfold skipTrivia
  rw [List.dropWhile_append_of_pos hgap]

@[simp] theorem firstSignificant?_gap (gap : Gap) (tokens : List Token) :
    firstSignificant? (gap.1 ++ tokens) = firstSignificant? tokens := by
  unfold firstSignificant?
  rw [skipTrivia_gap]

theorem skipTrivia_trivia {t : Token} (h : t.isTrivia = true) (tokens : List Token) :
    skipTrivia (t :: tokens) = skipTrivia tokens :=
  skipTrivia_gap ⟨[t], by simpa using h⟩ tokens

theorem firstSignificant?_trivia {t : Token} (h : t.isTrivia = true) (tokens : List Token) :
    firstSignificant? (t :: tokens) = firstSignificant? tokens :=
  congrArg List.head? (skipTrivia_trivia h tokens)

theorem skipTrivia_cons {t : Token} (h : t.isTrivia = false) (tokens : List Token) :
    skipTrivia (t :: tokens) = t :: tokens := by
  unfold skipTrivia
  rw [List.dropWhile_cons, h]
  rfl

theorem firstSignificant?_cons {t : Token} (h : t.isTrivia = false) (tokens : List Token) :
    firstSignificant? (t :: tokens) = some t := by
  unfold firstSignificant?
  rw [skipTrivia_cons h]
  rfl

@[simp] theorem firstSignificant?_word (value : String) (quote : Option Char)
    (tokens : List Token) :
    firstSignificant? (.word value quote :: tokens) = some (.word value quote) := rfl

@[simp] theorem firstSignificant?_punctuation (mark : Punctuation) (tokens : List Token) :
    firstSignificant? (.punctuation mark :: tokens) = some (.punctuation mark) := rfl

theorem firstSignificant?_append {first : List Token} {t : Token}
    (h : firstSignificant? first = some t) (second : List Token) :
    firstSignificant? (first ++ second) = some t := by
  induction first with
  | nil => exact absurd h (by simp [firstSignificant?, skipTrivia])
  | cons head rest ih =>
    cases hhead : head.isTrivia with
    | false =>
      rw [firstSignificant?_cons hhead] at h
      rw [List.cons_append, firstSignificant?_cons hhead, h]
    | true =>
      rw [firstSignificant?_trivia hhead] at h
      rw [List.cons_append, firstSignificant?_trivia hhead]
      exact ih h

theorem isKeyword_iff {keyword : String} {t : Token} :
    t.isKeyword keyword = true ↔ ∃ value, t = .word value none ∧ Text.upperAscii value = keyword := by
  unfold isKeyword unquotedWord?
  constructor
  · intro h
    split at h
    · rename_i value
      exact ⟨value, rfl, by simpa using h⟩
    · simp at h
  · rintro ⟨value, rfl, rfl⟩
    simp

/-- A token writes one keyword only. -/
theorem isKeyword_unique {first second : String} {t : Token} (h : t.isKeyword first = true)
    (hne : first ≠ second) : t.isKeyword second = false := by
  obtain ⟨value, rfl, rfl⟩ := isKeyword_iff.1 h
  rw [Bool.eq_false_iff]
  intro h'
  obtain ⟨value', heq, rfl⟩ := isKeyword_iff.1 h'
  obtain ⟨rfl, -⟩ := Token.word.inj heq
  exact hne rfl

theorem firstSignificant?_keyword {keyword : String} {t : Token} (h : t.isKeyword keyword = true)
    (tokens : List Token) : firstSignificant? (t :: tokens) = some t := by
  obtain ⟨value, rfl, -⟩ := isKeyword_iff.1 h
  rfl

theorem isKeyword_ne_punctuation {keyword : String} {t : Token} (h : t.isKeyword keyword = true)
    (mark : Punctuation) : t ≠ .punctuation mark := by
  obtain ⟨value, rfl, -⟩ := isKeyword_iff.1 h
  exact Token.noConfusion

/-! ## Matching parentheses -/

/-- Tokens in which every parenthesis is closed, and none that was not opened. -/
inductive Balanced : List Token → Prop
  | nil : Balanced []
  | other {t : Token} {rest : List Token} (opens : t ≠ .punctuation .openParen)
      (closes : t ≠ .punctuation .closeParen) (balanced : Balanced rest) : Balanced (t :: rest)
  | enclosed {inner rest : List Token} (balanced : Balanced inner) (more : Balanced rest) :
      Balanced (.punctuation .openParen :: (inner ++ .punctuation .closeParen :: rest))

theorem Balanced.append {first second : List Token} (h : Balanced first) (h' : Balanced second) :
    Balanced (first ++ second) := by
  induction h with
  | nil => exact h'
  | other opens closes _ ih => exact .other opens closes ih
  | @enclosed inner rest hinner _ _ ih =>
    rw [List.cons_append, List.append_assoc, List.cons_append]
    exact .enclosed hinner ih

theorem Balanced.word (value : String) (quote : Option Char) {rest : List Token}
    (h : Balanced rest) : Balanced (.word value quote :: rest) :=
  .other Token.noConfusion Token.noConfusion h

theorem Balanced.keyword {keyword : String} {t : Token} (ht : t.isKeyword keyword = true)
    {rest : List Token} (h : Balanced rest) : Balanced (t :: rest) :=
  .other (isKeyword_ne_punctuation ht _) (isKeyword_ne_punctuation ht _) h

theorem Balanced.of_forall {tokens : List Token}
    (h : ∀ t ∈ tokens, t ≠ .punctuation .openParen ∧ t ≠ .punctuation .closeParen) :
    Balanced tokens := by
  induction tokens with
  | nil => exact .nil
  | cons t rest ih =>
    obtain ⟨opens, closes⟩ := h t List.mem_cons_self
    exact .other opens closes (ih fun t' h' => h t' (List.mem_cons_of_mem _ h'))

theorem balanced_gap (gap : Gap) : Balanced gap.1 := by
  refine .of_forall fun t ht => ?_
  have htrivia := gap.2 t ht
  constructor
  · rintro rfl
    exact Bool.noConfusion htrivia
  · rintro rfl
    exact Bool.noConfusion htrivia

theorem Balanced.flatMap {α : Type} {f : α → List Token} (h : ∀ a, Balanced (f a)) (l : List α) :
    Balanced (l.flatMap f) := by
  induction l with
  | nil => exact .nil
  | cons a l ih =>
    rw [List.flatMap_cons]
    exact (h a).append ih

/-- A token that is no parenthesis is passed over. -/
theorem afterClosing?_cons {t : Token} (opens : t ≠ .punctuation .openParen)
    (closes : t ≠ .punctuation .closeParen) (depth : Nat) (rest : List Token) :
    Statement.afterClosing? depth (t :: rest) = Statement.afterClosing? depth rest := by
  rw [Statement.afterClosing?]
  · exact opens
  · exact fun _ => closes
  · exact fun _ _ => closes

theorem afterClosing?_append {tokens : List Token} (h : Balanced tokens) (depth : Nat)
    (rest : List Token) :
    Statement.afterClosing? depth (tokens ++ rest) = Statement.afterClosing? depth rest := by
  induction h generalizing depth rest with
  | nil => rfl
  | @other t tokens opens closes _ ih =>
    rw [List.cons_append, afterClosing?_cons opens closes]
    exact ih depth rest
  | @enclosed inner more _ _ ihinner ihmore =>
    rw [List.cons_append, List.append_assoc, List.cons_append, Statement.afterClosing?, ihinner,
      Statement.afterClosing?, ihmore]

theorem Balanced.tail {t : Token} {rest : List Token} (opens : t ≠ .punctuation .openParen)
    (h : Balanced (t :: rest)) : Balanced rest := by
  cases h with
  | other _ _ balanced => exact balanced
  | enclosed _ _ => exact absurd rfl opens

/-- What is left of matching parentheses behind others still matches. -/
theorem Balanced.of_append {first second : List Token} (h : Balanced first)
    (h' : Balanced (first ++ second)) : Balanced second := by
  induction h with
  | nil => exact h'
  | other opens _ _ ih => exact ih (h'.tail opens)
  | @enclosed inner rest hinner _ _ ih =>
    rw [List.cons_append, List.append_assoc, List.cons_append] at h'
    -- both readings close the first parenthesis at the same place
    generalize hall : inner ++ .punctuation .closeParen :: (rest ++ second) = all at h'
    cases h' with
    | other opens => exact absurd rfl opens
    | @enclosed inner' rest' hinner' hrest' =>
      have hclose := afterClosing?_append hinner 0 (.punctuation .closeParen :: (rest ++ second))
      rw [hall, afterClosing?_append hinner' 0 (.punctuation .closeParen :: rest')] at hclose
      obtain rfl : rest' = rest ++ second := Option.some.inj hclose
      exact ih hrest'

/-- A parenthesis. -/
def isParen (t : Token) : Bool :=
  t = .punctuation .openParen || t = .punctuation .closeParen

/-- The parentheses among tokens. -/
def parens (tokens : List Token) : List Token :=
  tokens.filter isParen

theorem isParen_eq_false {t : Token} : t.isParen = false ↔
    t ≠ .punctuation .openParen ∧ t ≠ .punctuation .closeParen := by
  simp [isParen]

theorem parens_cons_of_not {t : Token} (h : t.isParen = false) (rest : List Token) :
    parens (t :: rest) = parens rest := by
  simp [parens, h]

@[simp] theorem parens_append (first second : List Token) :
    parens (first ++ second) = parens first ++ parens second :=
  List.filter_append _ _

/-- Whether parentheses match depends on nothing else. -/
theorem balanced_parens {tokens : List Token} : Balanced (parens tokens) ↔ Balanced tokens := by
  constructor
  · intro h
    -- on the number of tokens, because what a pair encloses is shorter
    induction hlength : tokens.length using Nat.strongRecOn generalizing tokens with
    | ind n ih =>
      cases tokens with
      | nil => exact .nil
      | cons t rest =>
        rw [List.length_cons] at hlength
        cases ht : t.isParen with
        | false =>
          obtain ⟨opens, closes⟩ := isParen_eq_false.1 ht
          rw [parens_cons_of_not ht] at h
          exact .other opens closes (ih rest.length (by omega) h rfl)
        | true =>
          have hcons : parens (t :: rest) = t :: parens rest := by simp [parens, ht]
          rw [hcons] at h
          generalize hparens : parens rest = more at h
          cases h with
          | other opens closes _ =>
            exact absurd (isParen_eq_false.2 ⟨opens, closes⟩) (by simp [ht])
          | @enclosed inner' rest' hinner hrest =>
            obtain ⟨inner, tail, rfl, rfl, htail⟩ := List.filter_eq_append_iff.1 hparens
            obtain ⟨before, after, rfl, hbefore, -, rfl⟩ := List.filter_eq_cons_iff.1 htail
            have hgap : Balanced before := .of_forall fun t' ht' =>
              isParen_eq_false.1 (Bool.eq_false_iff.2 (hbefore t' ht'))
            simp only [List.length_append, List.length_cons] at hlength
            rw [← List.append_assoc]
            exact .enclosed ((ih inner.length (by omega) hinner rfl).append hgap)
              (ih after.length (by omega) hrest rfl)
  · intro h
    induction h with
    | nil => exact .nil
    | other opens closes _ ih => rwa [parens_cons_of_not (isParen_eq_false.2 ⟨opens, closes⟩)]
    | @enclosed inner rest _ _ ihinner ihrest =>
      have hparens : parens (.punctuation .openParen :: (inner ++ .punctuation .closeParen :: rest)) =
          .punctuation .openParen :: (parens inner ++ .punctuation .closeParen :: parens rest) := by
        simp [parens, isParen]
      rw [hparens]
      exact .enclosed ihinner ihrest

theorem Balanced.congr {first second : List Token} (h : Balanced first)
    (hparens : parens second = parens first) : Balanced second := by
  rw [← balanced_parens, hparens, balanced_parens]
  exact h

/-- Tokens that leave a number of parentheses open. -/
inductive Open : Nat → List Token → Prop
  | balanced {tokens : List Token} (h : Balanced tokens) : Open 0 tokens
  | opened {depth : Nat} {first rest : List Token} (h : Open depth first) (h' : Balanced rest) :
      Open (depth + 1) (first ++ .punctuation .openParen :: rest)

theorem open_zero_iff {tokens : List Token} : Open 0 tokens ↔ Balanced tokens := by
  constructor
  · intro h
    cases h with
    | balanced h => exact h
  · exact .balanced

theorem Open.append {depth : Nat} {first second : List Token} (h : Open depth first)
    (h' : Balanced second) : Open depth (first ++ second) := by
  cases h with
  | balanced h => exact .balanced (h.append h')
  | opened h hrest =>
    rw [List.append_assoc, List.cons_append]
    exact .opened h (hrest.append h')

theorem Open.openParen {depth : Nat} {tokens : List Token} (h : Open depth tokens) :
    Open (depth + 1) (tokens ++ [.punctuation .openParen]) :=
  .opened h .nil

theorem Open.closeParen {depth : Nat} {tokens : List Token} (h : Open (depth + 1) tokens) :
    Open depth (tokens ++ [.punctuation .closeParen]) := by
  generalize hdepth : depth + 1 = more at h
  cases h with
  | balanced h => exact absurd hdepth (Nat.succ_ne_zero _)
  | @opened depth' first rest h hrest =>
    obtain rfl : depth = depth' := Nat.succ.inj hdepth
    rw [List.append_assoc, List.cons_append]
    exact h.append (.enclosed hrest .nil)

/-! ## Counting parentheses -/

theorem Balanced.count {tokens : List Token} (h : Balanced tokens) :
    tokens.count (.punctuation .openParen) = tokens.count (.punctuation .closeParen) := by
  induction h with
  | nil => rfl
  | other opens closes _ ih => rw [List.count_cons_of_ne opens, List.count_cons_of_ne closes, ih]
  | enclosed _ _ ihinner ihrest =>
    simp only [List.count_cons, List.count_append, ihinner, ihrest]
    simp
    omega

theorem Open.count {depth : Nat} {tokens : List Token} (h : Open depth tokens) :
    tokens.count (.punctuation .openParen) =
      tokens.count (.punctuation .closeParen) + depth := by
  induction h with
  | balanced h => exact h.count
  | opened _ hrest ih =>
    have hrest := hrest.count
    simp only [List.count_append, List.count_cons]
    simp
    omega

/-- Before every place of matching parentheses some are open. -/
theorem Balanced.exists_open {first second : List Token} (h : Balanced (first ++ second)) :
    ∃ depth, Open depth first := by
  induction first using List.reverseRecOn generalizing second with
  | nil => exact ⟨0, .balanced .nil⟩
  | append_singleton first t ih =>
    rw [List.append_assoc, List.singleton_append] at h
    obtain ⟨depth, hopen⟩ := ih h
    by_cases opens : t = .punctuation .openParen
    · exact ⟨depth + 1, opens ▸ hopen.openParen⟩
    by_cases closes : t = .punctuation .closeParen
    · subst closes
      cases depth with
      | succ depth => exact ⟨depth, hopen.closeParen⟩
      | zero =>
        have hrest := Balanced.of_append (open_zero_iff.1 hopen) h
        cases hrest with
        | other _ closes => exact absurd rfl closes
    · exact ⟨depth, hopen.append (.other opens closes .nil)⟩

theorem Balanced.of_append_left {first second : List Token} (h : Balanced second)
    (h' : Balanced (first ++ second)) : Balanced first := by
  obtain ⟨depth, hopen⟩ := h'.exists_open
  have hzero : depth = 0 := by
    have hall := h'.count
    have hfirst := hopen.count
    have hsecond := h.count
    rw [List.count_append, List.count_append] at hall
    omega
  subst hzero
  exact open_zero_iff.1 hopen

/-- The innermost open parenthesis is closed. -/
theorem Open.exists_close {depth : Nat} {first second : List Token} (h : Open (depth + 1) first)
    (h' : Balanced (first ++ second)) :
    ∃ inner rest, second = inner ++ .punctuation .closeParen :: rest ∧ Balanced inner := by
  -- on the length, because the search goes on behind each pair of parentheses
  induction hlength : second.length using Nat.strongRecOn generalizing depth first second with
  | ind n ih =>
  subst hlength
  cases second with
  | nil =>
    have hcount := h.count
    rw [List.append_nil] at h'
    have hall := h'.count
    omega
  | cons t more =>
    rw [← List.singleton_append, ← List.append_assoc] at h'
    by_cases closes : t = .punctuation .closeParen
    · exact ⟨[], more, by rw [closes, List.nil_append], .nil⟩
    by_cases opens : t = .punctuation .openParen
    · subst opens
      obtain ⟨inner, rest, rfl, hinner⟩ := ih more.length (by simp) h.openParen h' rfl
      have hclosed := (h.openParen.append hinner).closeParen
      rw [← List.append_assoc, ← List.singleton_append, ← List.append_assoc] at h'
      obtain ⟨inner', rest', rfl, hinner'⟩ := ih rest.length (by simp; omega) hclosed
        (by simpa using h') rfl
      exact ⟨.punctuation .openParen :: (inner ++ .punctuation .closeParen :: inner'), rest',
        by simp, .enclosed hinner hinner'⟩
    · obtain ⟨inner, rest, rfl, hinner⟩ :=
        ih more.length (by simp) (h.append (.other opens closes .nil)) h' rfl
      exact ⟨t :: inner, rest, rfl, .other opens closes hinner⟩

end Token

/-- Tokens with matching parentheses. -/
abbrev BalancedTokens := { tokens : List Token // Token.Balanced tokens }

end ReportSql
