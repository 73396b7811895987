import ReportSql.Proofs.Statement.Expansion

/-!
# Printing piece by piece

The printer goes from piece to piece: a name in braces is three tokens, a named
placeholder two, and every other token a piece of its own. It comes to a position
exactly when no piece reaches across that position, and only there can it add a
condition.

## Main definitions

* `Statement.Whole` - no piece reaches from one list of tokens into the next

## Main results

* `Statement.renderFrom_append` - the printer on whole pieces with nothing to add
* `Statement.renderFrom_quiet` - the printer that never comes to its place
* `Statement.render_eq` - the text of a statement as the text of its printed tokens
-/

namespace ReportSql

open Token

namespace Statement

variable {d : Dialect} {tablePrefix : String}

/-! ## Whole pieces -/

/-- No name in braces and no placeholder reaches from one list of tokens into the next. -/
def Whole : List Token → List Token → Prop
  | .punctuation .openBrace :: .word _ none :: .punctuation .closeBrace :: rest, next =>
    Whole rest next
  | .punctuation .colon :: .word _ none :: rest, next => Whole rest next
  | t :: rest, next =>
    bracedTable? (t :: (rest ++ next)) = none ∧ namedPlaceholder? (t :: (rest ++ next)) = none ∧
      Whole rest next
  | [], _ => True

theorem whole_nil (next : List Token) : Whole [] next :=
  trivial

/-- A token that starts no longer piece, as the patterns of the printer see it. -/
theorem single_iff {t : Token} {rest : List Token} :
    bracedTable? (t :: rest) = none ∧ namedPlaceholder? (t :: rest) = none ↔
      (∀ name more, t = .punctuation .openBrace →
          rest = .word name none :: .punctuation .closeBrace :: more → False) ∧
        ∀ name more, t = .punctuation .colon → rest = .word name none :: more → False := by
  constructor
  · rintro ⟨hbraces, hcolon⟩
    constructor
    · rintro name more rfl rfl
      simp [bracedTable?] at hbraces
    · rintro name more rfl rfl
      simp [namedPlaceholder?] at hcolon
  · rintro ⟨hnoTable, hnoName⟩
    constructor
    · rw [Option.eq_none_iff_forall_ne_some]
      intro name hname
      obtain ⟨more, hmore⟩ := bracedTable?_eq_some.1 hname
      obtain ⟨rfl, rfl⟩ := List.cons.inj hmore
      exact hnoTable name more rfl rfl
    · rw [Option.eq_none_iff_forall_ne_some]
      intro name hname
      obtain ⟨more, hmore⟩ := namedPlaceholder?_eq_some.1 hname
      obtain ⟨rfl, rfl⟩ := List.cons.inj hmore
      exact hnoName name more rfl rfl

theorem single_of_append {t : Token} {rest next : List Token}
    (h : bracedTable? (t :: (rest ++ next)) = none ∧
      namedPlaceholder? (t :: (rest ++ next)) = none) :
    bracedTable? (t :: rest) = none ∧ namedPlaceholder? (t :: rest) = none := by
  obtain ⟨hnoTable, hnoName⟩ := single_iff.1 h
  refine single_iff.2 ⟨?_, ?_⟩
  · rintro name more rfl rfl
    exact hnoTable name (more ++ next) rfl rfl
  · rintro name more rfl rfl
    exact hnoName name (more ++ next) rfl rfl

theorem whole_single {t : Token} {rest next : List Token}
    (h : bracedTable? (t :: (rest ++ next)) = none ∧
      namedPlaceholder? (t :: (rest ++ next)) = none) :
    Whole (t :: rest) next ↔ Whole rest next := by
  obtain ⟨hnoTable, hnoName⟩ := single_iff.1 (single_of_append h)
  rw [Whole]
  · exact ⟨fun hwhole => hwhole.2.2, fun hwhole => ⟨h.1, h.2, hwhole⟩⟩
  · exact hnoTable
  · exact hnoName

theorem pieceText_single {t : Token} {rest : List Token}
    (h : bracedTable? (t :: rest) = none ∧ namedPlaceholder? (t :: rest) = none) :
    pieceText d tablePrefix t rest = (t.text, 1) := by
  rw [pieceText, h.1, h.2]

theorem whole_nil_right (tokens : List Token) : Whole tokens [] := by
  fun_induction expand .postgres "" tokens with
  | case1 name rest ih => exact ih
  | case2 name rest ih => exact ih
  | case3 t rest hbraces hcolon ih =>
    have hsingle := single_iff.2 ⟨hbraces, hcolon⟩
    refine (whole_single ?_).2 ih
    rw [List.append_nil]
    exact hsingle
  | case4 => trivial

/-- A cut through the first piece leaves tokens that are pieces of their own. -/
theorem Whole.tail {t : Token} {rest next : List Token} (h : Whole (t :: rest) next) :
    Whole rest next := by
  unfold Whole at h
  split at h
  · rename_i heq
    obtain ⟨rfl, rfl⟩ := List.cons.inj heq
    refine (whole_single ⟨rfl, rfl⟩).2 ((whole_single ⟨rfl, rfl⟩).2 h)
  · rename_i heq
    obtain ⟨rfl, rfl⟩ := List.cons.inj heq
    exact (whole_single ⟨rfl, rfl⟩).2 h
  · rename_i heq
    obtain ⟨rfl, rfl⟩ := List.cons.inj heq
    exact h.2.2
  · rename_i heq
    exact absurd heq (List.cons_ne_nil _ _)

theorem Whole.of_append {first second next : List Token} (h : Whole (first ++ second) next) :
    Whole second next := by
  induction first with
  | nil => exact h
  | cons t rest ih => exact ih h.tail

theorem Whole.append {first second next : List Token} (h : Whole first (second ++ next))
    (h' : Whole second next) : Whole (first ++ second) next := by
  revert h
  fun_induction expand .postgres "" first with
  | case1 name rest ih => exact ih
  | case2 name rest ih => exact ih
  | case3 t rest hbraces hcolon ih =>
    intro h
    rw [Whole] at h
    · obtain ⟨hnoTable, hnoName, hrest⟩ := h
      rw [List.cons_append]
      refine (whole_single ?_).2 (ih hrest)
      rw [List.append_assoc]
      exact ⟨hnoTable, hnoName⟩
    · exact hbraces
    · exact hcolon
  | case4 => exact fun _ => h'

/-- Whether no piece reaches from one list of tokens into the next, as a test. -/
def isWhole : List Token → List Token → Bool
  | .punctuation .openBrace :: .word _ none :: .punctuation .closeBrace :: rest, next =>
    isWhole rest next
  | .punctuation .colon :: .word _ none :: rest, next => isWhole rest next
  | t :: rest, next =>
    (bracedTable? (t :: (rest ++ next))).isNone && (namedPlaceholder? (t :: (rest ++ next))).isNone &&
      isWhole rest next
  | [], _ => true

theorem isWhole_iff (first next : List Token) : isWhole first next = true ↔ Whole first next := by
  fun_induction isWhole first next with
  | case1 next name rest ih => exact ih
  | case2 next name rest ih => exact ih
  | case3 next t rest hbraces hcolon ih =>
    rw [Whole]
    · rw [Bool.and_eq_true, Bool.and_eq_true, ih, Option.isNone_iff_eq_none, Option.isNone_iff_eq_none,
        and_assoc]
    · exact hbraces
    · exact hcolon
  | case4 => exact iff_of_true rfl trivial

instance (first next : List Token) : Decidable (Whole first next) :=
  decidable_of_iff _ (isWhole_iff first next)

/-! ## Texts of ranges -/

theorem plainText_zero (skip : Nat) (tokens : List Token) :
    plainText d tablePrefix 0 skip tokens = "" := by
  unfold plainText
  rfl

theorem plainText_nil (count skip : Nat) : plainText d tablePrefix count skip [] = "" := by
  cases count with
  | zero => exact plainText_zero _ _
  | succ count => cases skip <;> rfl

theorem plainText_skip (count skip : Nat) (tokens : List Token) :
    plainText d tablePrefix count skip tokens =
      plainText d tablePrefix (count - skip) 0 (tokens.drop skip) := by
  induction skip generalizing count tokens with
  | zero => rfl
  | succ skip ih =>
    cases count with
    | zero => rw [plainText_zero, Nat.zero_sub, plainText_zero]
    | succ count =>
      cases tokens with
      | nil => rw [List.drop_nil, plainText_nil, plainText_nil]
      | cons t rest =>
        rw [plainText, ih, List.drop_succ_cons, Nat.add_sub_add_right]

theorem pieceText_width (t : Token) (rest : List Token) :
    ∃ w, (pieceText d tablePrefix t rest).2 = w + 1 := by
  unfold pieceText
  split
  · exact ⟨2, rfl⟩
  · split
    · exact ⟨1, rfl⟩
    · exact ⟨0, rfl⟩

theorem plainText_cons (count : Nat) (t : Token) (rest : List Token) :
    plainText d tablePrefix (count + 1) 0 (t :: rest) =
      (pieceText d tablePrefix t rest).1 ++
        plainText d tablePrefix (count + 1 - (pieceText d tablePrefix t rest).2) 0
          ((t :: rest).drop (pieceText d tablePrefix t rest).2) := by
  obtain ⟨w, hw⟩ := @pieceText_width d tablePrefix t rest
  rw [plainText]
  dsimp only
  rw [hw, Nat.add_sub_cancel, plainText_skip, List.drop_succ_cons, Nat.add_sub_add_right]

/-- Whole pieces are printed one after the other. -/
theorem plainText_append {first next : List Token} (h : Whole first next) (count : Nat) :
    plainText d tablePrefix (first.length + count) 0 (first ++ next) =
      textOf (expand d tablePrefix first) ++ plainText d tablePrefix count 0 next := by
  -- on the pieces, as `expand` takes them
  revert h
  fun_induction expand d tablePrefix first with
  | case1 name rest ih =>
    intro h
    rw [textOf_cons, tableToken_text, String.append_assoc, ← ih h, List.cons_append,
      List.cons_append, List.cons_append]
    simp only [List.length_cons]
    rw [show rest.length + 1 + 1 + 1 + count = rest.length + count + 2 + 1 by omega, plainText_cons]
    rfl
  | case2 name rest ih =>
    intro h
    rw [textOf_append, textOf_placeholderTokens, String.append_assoc, ← ih h, List.cons_append,
      List.cons_append]
    simp only [List.length_cons]
    rw [show rest.length + 1 + 1 + count = rest.length + count + 1 + 1 by omega, plainText_cons]
    rfl
  | case3 t rest hbraces hcolon ih =>
    intro h
    rw [Whole] at h
    · obtain ⟨hnoTable, hnoName, hrest⟩ := h
      rw [textOf_cons, String.append_assoc, ← ih hrest, List.cons_append, List.length_cons,
        show rest.length + 1 + count = rest.length + count + 1 by omega, plainText_cons,
        pieceText_single ⟨hnoTable, hnoName⟩]
      rfl
    · exact hbraces
    · exact hcolon
  | case4 =>
    intro _
    simp [textOf]

theorem plainText_whole {first next : List Token} (h : Whole first next) :
    plainText d tablePrefix first.length 0 (first ++ next) =
      textOf (expand d tablePrefix first) := by
  have htext := @plainText_append d tablePrefix _ _ h 0
  rw [plainText_zero, String.append_empty] at htext
  exact htext

/-! ## The printer -/

/-- Whether something is added before or at the token at a position. -/
def Insertion.actsAt : Insertion → Nat → Bool
  | .nowhere, _ => false
  | .newCondition place _, position => place == position
  | .beside start _ _, position => start == position

theorem renderFrom_past {insertion : Insertion} {stop position : Nat} (h : stop ≤ position)
    (skip : Nat) (tokens : List Token) :
    renderFrom d tablePrefix insertion stop position skip tokens = "" := by
  cases tokens with
  | nil => rw [renderFrom]
  | cons t rest => cases skip <;> rw [renderFrom, if_pos h]

theorem renderFrom_skip (insertion : Insertion) (stop position skip : Nat) (tokens : List Token) :
    renderFrom d tablePrefix insertion stop position skip tokens =
      renderFrom d tablePrefix insertion stop (position + skip) 0 (tokens.drop skip) := by
  induction skip generalizing position tokens with
  | zero => rfl
  | succ skip ih =>
    cases tokens with
    | nil => rw [List.drop_nil, renderFrom, renderFrom]
    | cons t rest =>
      rw [renderFrom, List.drop_succ_cons]
      split
      · rw [renderFrom_past (by omega)]
      · rw [ih, show position + 1 + skip = position + (skip + 1) by omega]

theorem renderFrom_cons {insertion : Insertion} {stop position : Nat} {t : Token} {rest : List Token}
    (hstop : position < stop) (hquiet : insertion.actsAt position = false) :
    renderFrom d tablePrefix insertion stop position 0 (t :: rest) =
      (pieceText d tablePrefix t rest).1 ++
        renderFrom d tablePrefix insertion stop (position + (pieceText d tablePrefix t rest).2) 0
          ((t :: rest).drop (pieceText d tablePrefix t rest).2) := by
  obtain ⟨w, hw⟩ := @pieceText_width d tablePrefix t rest
  -- a piece of several tokens is printed by its first one, and the others are skipped
  have hplain : renderFrom d tablePrefix insertion stop position 0 (t :: rest) =
      (pieceText d tablePrefix t rest).1 ++
        renderFrom d tablePrefix insertion stop (position + 1)
          ((pieceText d tablePrefix t rest).2 - 1) rest := by
    rw [renderFrom, if_neg (by omega)]
    cases insertion with
    | nowhere => rfl
    | newCondition place predicate =>
      have hne : position ≠ place := by
        rintro rfl
        simp [Insertion.actsAt] at hquiet
      dsimp only
      rw [if_neg hne]
    | beside start conditionStop predicate =>
      have hne : position ≠ start := by
        rintro rfl
        simp [Insertion.actsAt] at hquiet
      dsimp only
      rw [if_neg hne]
  rw [hplain, hw, Nat.add_sub_cancel, renderFrom_skip, List.drop_succ_cons,
    show position + 1 + w = position + (w + 1) by omega]

/-- Tokens that stand behind the first one of a piece: unquoted words and closing braces. -/
def InsidePiece (tokens : List Token) : Prop :=
  ∀ t ∈ tokens, (∃ value, t = .word value none) ∨ t = .punctuation .closeBrace

/-- The piece at the head of a list of tokens. Only its first token can start a longer piece. -/
theorem exists_piece (d : Dialect) (tablePrefix : String) (t : Token) (rest : List Token) :
    ∃ piece next, t :: rest = piece ++ next ∧ Whole piece next ∧ piece ≠ [] ∧
      (pieceText d tablePrefix t rest).2 = piece.length ∧ InsidePiece piece.tail := by
  cases hbraces : bracedTable? (t :: rest) with
  | some name =>
    obtain ⟨more, hmore⟩ := bracedTable?_eq_some.1 hbraces
    refine ⟨[.punctuation .openBrace, .word name none, .punctuation .closeBrace], more, hmore,
      trivial, List.cons_ne_nil _ _, ?_, by simp [InsidePiece]⟩
    rw [pieceText, hbraces]
    rfl
  | none =>
    cases hcolon : namedPlaceholder? (t :: rest) with
    | some name =>
      obtain ⟨more, hmore⟩ := namedPlaceholder?_eq_some.1 hcolon
      refine ⟨[.punctuation .colon, .word name none], more, hmore, trivial, List.cons_ne_nil _ _, ?_,
        by simp [InsidePiece]⟩
      rw [pieceText, hbraces, hcolon]
      rfl
    | none =>
      refine ⟨[t], rest, rfl, (whole_single ⟨hbraces, hcolon⟩).2 trivial, List.cons_ne_nil _ _, ?_,
        by simp [InsidePiece]⟩
      rw [pieceText_single ⟨hbraces, hcolon⟩]
      rfl

/-- A printer that comes to no place where something is added prints the pieces only. -/
theorem renderFrom_quiet {insertion : Insertion} {stop position : Nat} {tokens : List Token}
    (hquiet : ∀ first next, tokens = first ++ next → Whole first next →
      position + first.length < stop → insertion.actsAt (position + first.length) = false) :
    renderFrom d tablePrefix insertion stop position 0 tokens =
      plainText d tablePrefix (stop - position) 0 tokens := by
  -- on the number of tokens, because a piece takes up to three of them
  induction hlength : tokens.length using Nat.strongRecOn generalizing position tokens with
  | ind n ih =>
    by_cases hstop : stop ≤ position
    · rw [renderFrom_past hstop, Nat.sub_eq_zero_of_le hstop, plainText_zero]
    cases tokens with
    | nil => rw [renderFrom, plainText_nil]
    | cons t rest =>
      obtain ⟨piece, next, htokens, hwhole, hne, hwidth, -⟩ := exists_piece d tablePrefix t rest
      have hpos := List.length_pos_iff.2 hne
      have hhere : insertion.actsAt position = false := by
        have hstart := hquiet [] (t :: rest) rfl trivial
        rw [List.length_nil, Nat.add_zero] at hstart
        exact hstart (by omega)
      obtain ⟨count, hcount⟩ : ∃ count, stop - position = count + 1 :=
        ⟨stop - position - 1, by omega⟩
      rw [renderFrom_cons (by omega) hhere, hcount, plainText_cons, ← hcount, hwidth,
        show stop - position - piece.length = stop - (position + piece.length) by omega, htokens,
        List.drop_left]
      congr 1
      refine ih next.length ?_ ?_ rfl
      · have htotal := congrArg List.length htokens
        rw [List.length_append] at htotal
        omega
      · intro first more hnext hfirst hbefore
        subst hnext
        have hlater := hquiet (piece ++ first) more (by rw [htokens, List.append_assoc])
          (hwhole.append hfirst)
        rw [List.length_append, ← Nat.add_assoc] at hlater
        exact hlater hbefore

/-- A printer that adds nothing before a place comes to it after the whole pieces before it. -/
theorem renderFrom_append {insertion : Insertion} {stop position : Nat} {first next : List Token}
    (h : Whole first next) (hstop : position + first.length ≤ stop)
    (hquiet : ∀ q, q < position + first.length → insertion.actsAt q = false) :
    renderFrom d tablePrefix insertion stop position 0 (first ++ next) =
      textOf (expand d tablePrefix first) ++
        renderFrom d tablePrefix insertion stop (position + first.length) 0 next := by
  -- on the pieces, as `expand` takes them
  revert h
  fun_induction expand d tablePrefix first generalizing position with
  | case1 name rest ih =>
    intro h
    simp only [List.length_cons] at hstop hquiet
    rw [textOf_cons, tableToken_text, String.append_assoc, List.length_cons, List.length_cons,
      List.length_cons, show position + (rest.length + 1 + 1 + 1) = position + 3 + rest.length by omega,
      ← ih (by omega) (fun q hq => hquiet q (by omega)) h]
    exact renderFrom_cons (by omega) (hquiet position (by omega))
  | case2 name rest ih =>
    intro h
    simp only [List.length_cons] at hstop hquiet
    rw [textOf_append, textOf_placeholderTokens, String.append_assoc, List.length_cons,
      List.length_cons, show position + (rest.length + 1 + 1) = position + 2 + rest.length by omega,
      ← ih (by omega) (fun q hq => hquiet q (by omega)) h]
    exact renderFrom_cons (by omega) (hquiet position (by omega))
  | case3 t rest hbraces hcolon ih =>
    intro h
    simp only [List.length_cons] at hstop hquiet
    rw [Whole] at h
    · obtain ⟨hnoTable, hnoName, hrest⟩ := h
      rw [textOf_cons, String.append_assoc, List.length_cons,
        show position + (rest.length + 1) = position + 1 + rest.length by omega,
        ← ih (by omega) (fun q hq => hquiet q (by omega)) hrest, List.cons_append,
        renderFrom_cons (by omega) (hquiet position (by omega)),
        pieceText_single ⟨hnoTable, hnoName⟩]
      rfl
    · exact hbraces
    · exact hcolon
  | case4 => exact fun _ => by simp [textOf]

/-- A statement without added predicates is printed as its tokens are, up to a whole piece. -/
theorem renderUntil_eq {s : Statement} (h : s.predicates = []) {first next : List Token}
    (htokens : s.tokens = first ++ next) (hwhole : Whole first next) (tablePrefix : String) :
    s.renderUntil tablePrefix first.length = textOf (expand s.dialect tablePrefix first) := by
  have hinsertion : s.insertion = .nowhere := by
    unfold insertion predicateSql?
    rw [h]
  unfold renderUntil
  rw [hinsertion, htokens]
  dsimp only
  rw [renderFrom_append hwhole (Nat.zero_add _ ▸ Nat.le_refl _) fun _ _ => rfl, Nat.zero_add,
    renderFrom_past (Nat.le_refl _), String.append_empty]

/-- A statement without added predicates prints its printed tokens. -/
theorem render_eq {s : Statement} (h : s.predicates = []) (tablePrefix : String) :
    s.render tablePrefix = textOf (expand s.dialect tablePrefix s.tokens) :=
  renderUntil_eq h (List.append_nil _).symm (whole_nil_right _) tablePrefix

end Statement

end ReportSql
