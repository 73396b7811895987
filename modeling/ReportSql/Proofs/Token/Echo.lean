import ReportSql.Proofs.Token.Stream

/-!
# What follows a token

The text after a token and the text that the following tokens print agree up to
the first token that is printed in another way than it was read. The first
characters of such a token are known, and they hardly ever decide whether the
text runs into the token before.
-/

namespace ReportSql

namespace Token

variable {d : Dialect}

/-- A text and what its tokens print: the same characters up to the first token that is printed in
another way. -/
inductive Echo : List Char → List Char → Prop
  | stop (left : List Char) : Echo left []
  | same (c : Char) {left next : List Char} (rest : Echo left next) : Echo (c :: left) (c :: next)
  | blank {c : Char} {left next : List Char} (kind : Blank) (wide : c ≠ ' ') :
      Echo (c :: left) (kind.char :: next)
  | letter {c mark : Char} {left next : List Char} (known : c ∈ literalLetters)
      (quote : mark ∈ ['\'', '"', '&']) :
      Echo (c :: mark :: left) (c.toUpper :: mark :: next)
  | hexadecimal {left next : List Char} : Echo ('0' :: left) ('X' :: '\'' :: next)
  | notEqual {left next : List Char} : Echo ('!' :: left) ('<' :: next)
  | dropping {left next : List Char} : Echo ('?' :: left) ('?' :: next)

theorem Echo.append (taken : List Char) {left next : List Char} (h : Echo left next) :
    Echo (taken ++ left) (taken ++ next) := by
  induction taken with
  | nil => exact h
  | cons c taken ih => exact .same c ih

theorem Source.echo {cs left next : List Char} {t : Token} (h : Source d cs t left)
    (hnext : Echo left next) : Echo cs (t.chars ++ next) := by
  cases h with
  | exact => exact hnext.append _
  | @blank kind c skipped left other wide =>
    rw [chars_blank]
    exact .blank kind wide
  | @literal kind letter marks content value left letters known apart printed =>
    rw [chars_literal, letters]
    have hletters := congrArg List.tail letters
    -- a kind of literal is known by one letter, or by a letter and an ampersand
    cases kind with
    | single => exact absurd (congrArg List.length letters) (by simp [LiteralKind.letters])
    | double => exact absurd (congrArg List.length letters) (by simp [LiteralKind.letters])
    | bytes =>
      obtain rfl : [] = marks := hletters
      exact .letter known (by decide)
    | bytesDouble =>
      obtain rfl : [] = marks := hletters
      exact .letter known (by decide)
    | national =>
      obtain rfl : [] = marks := hletters
      exact .letter known (by decide)
    | escaped =>
      obtain rfl : [] = marks := hletters
      exact .letter known (by decide)
    | unicode =>
      obtain rfl : ['&'] = marks := hletters
      exact .letter known (by decide)
    | hexadecimal =>
      obtain rfl : [] = marks := hletters
      exact .letter known (by decide)
  | hexadecimal =>
    rw [chars_literal]
    exact .hexadecimal
  | notEqual => exact .notEqual
  | dropping => exact .dropping

theorem Reads.echo {cs : List Char} {tokens more : List Token} (h : Reads d cs (tokens ++ more)) :
    Echo cs (charsOf tokens) := by
  induction tokens generalizing cs with
  | nil => exact .stop cs
  | cons t rest ih =>
    obtain _ | ⟨hfirst, hrest⟩ := h
    cases cs with
    | nil => exact hfirst.elim
    | cons c tail =>
      rw [charsOf_cons]
      exact (scan_outcome hfirst).source.echo (ih hrest)

/-! ## First characters -/

/-- The first characters of what is printed in another way. -/
def respelled : List Char :=
  [' ', '\t', '\n', 'B', 'N', 'E', 'U', 'X', '<', '?']

private theorem blank_respelled (kind : Blank) : kind.char ∈ respelled := by
  cases kind <;> decide

private theorem upper_respelled : ∀ c ∈ literalLetters, c.toUpper ∈ respelled := by
  decide

theorem Echo.same_head {left next : List Char} {c : Char} (h : Echo left (c :: next))
    (hc : c ∉ respelled) : ∃ rest, left = c :: rest ∧ Echo rest next := by
  cases h with
  | same c rest => exact ⟨_, rfl, rest⟩
  | blank kind wide => exact absurd (blank_respelled kind) hc
  | letter known quote => exact absurd (upper_respelled _ known) hc
  | hexadecimal => exact absurd (by decide) hc
  | notEqual => exact absurd (by decide) hc
  | dropping => exact absurd (by decide) hc

theorem Echo.head_ne {left next : List Char} {c : Char} (h : Echo left next) (hc : c ∉ respelled)
    (hleft : left.head? ≠ some c) : next.head? ≠ some c := by
  intro hnext
  obtain ⟨next, rfl⟩ := List.head?_eq_some_iff.1 hnext
  obtain ⟨rest, rfl, -⟩ := h.same_head hc
  exact hleft rfl

/-- What ends before a text also ends before what its tokens print, when it goes on neither with a
blank nor with what another character is printed as. -/
theorem Echo.stops {p : Char → Bool} {left next : List Char} (h : Echo left next)
    (hleft : Stops p left) (hblank : ∀ kind : Blank, p kind.char = false)
    (hletter : ∀ c ∈ literalLetters, p c.toUpper = true → p c = true)
    (hnumber : p 'X' = true → p '0' = true) (hless : p '<' = true → p '!' = true) :
    Stops p next := by
  cases h with
  | stop => exact stops_nil p
  | same c rest => exact stops_cons.2 (stops_cons.1 hleft)
  | blank kind wide => exact stops_cons.2 (hblank kind)
  | letter known quote =>
    refine stops_cons.2 (Bool.eq_false_iff.2 fun hp => ?_)
    have hp := hletter _ known hp
    rw [stops_cons.1 hleft] at hp
    exact Bool.noConfusion hp
  | hexadecimal =>
    refine stops_cons.2 (Bool.eq_false_iff.2 fun hp => ?_)
    have hp := hnumber hp
    rw [stops_cons.1 hleft] at hp
    exact Bool.noConfusion hp
  | notEqual =>
    refine stops_cons.2 (Bool.eq_false_iff.2 fun hp => ?_)
    have hp := hless hp
    rw [stops_cons.1 hleft] at hp
    exact Bool.noConfusion hp
  | dropping => exact stops_cons.2 (stops_cons.1 hleft)

theorem Echo.stops_wordPart {left next : List Char} (h : Echo left next)
    (hleft : Stops (isWordPart d) left) : Stops (isWordPart d) next := by
  refine h.stops hleft (fun kind => ?_) ?_ ?_ ?_
  · cases kind <;> cases d <;> rfl
  · cases d <;> decide
  · cases d <;> decide
  · cases d <;> decide

theorem Echo.stops_digit {left next : List Char} (h : Echo left next)
    (hleft : Stops Char.isDigit left) : Stops Char.isDigit next := by
  refine h.stops hleft (fun kind => ?_) (by decide) (by decide) (by decide)
  cases kind <;> rfl

theorem Echo.stops_numeric {left next : List Char} (h : Echo left next)
    (hleft : Stops Text.isNumeric left) : Stops Text.isNumeric next := by
  refine h.stops hleft (fun kind => ?_) (by decide) (by decide) (by decide)
  cases kind <;> rfl

theorem Echo.stops_tagPart {left next : List Char} (h : Echo left next)
    (hleft : Stops isTagPart left) : Stops isTagPart next := by
  refine h.stops hleft (fun kind => ?_) (by decide) (by decide) (by decide)
  cases kind <;> rfl

theorem Echo.stops_operatorPart {left next : List Char} (h : Echo left next)
    (hleft : Stops (isOperatorPart d) left) : Stops (isOperatorPart d) next := by
  refine h.stops hleft (fun kind => ?_) ?_ ?_ ?_
  · cases kind <;> cases d <;> rfl
  · cases d <;> decide
  · cases d <;> decide
  · cases d <;> decide

end Token

end ReportSql
