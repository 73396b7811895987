import ReportSql.Proofs.Statement.Conjunction

/-!
# The spans of clauses

Every clause starts outside all parentheses, and so its tokens open and close their
parentheses among themselves. The same holds of the author's condition, wherever the
printer stops behind it: between the parentheses that are put around it, it is closed
by the second one and by nothing of its own.

## Main definitions

* `Token.WellNested` - tokens that close what they open and nothing else
* `Token.Contained` - tokens that stand between the parentheses of a pair
* `Statement.tokensIn` - the tokens between two positions
* `Statement.CutAfter` - a place behind a clause where the printer stops

## Main results

* `Statement.parse_wellNested` - the clauses of a statement, and its condition as it is printed
-/

namespace ReportSql

namespace Token

variable {tokens : List Token} {n m : Nat}

/-! ## Parentheses by their numbers -/

/-- As many parentheses are closed as are opened, and up to no token more. -/
structure WellNested (tokens : List Token) : Prop where
  closed : tokens.count (.punctuation .closeParen) = tokens.count (.punctuation .openParen)
  opened : ∀ first, first <+: tokens →
    first.count (.punctuation .closeParen) ≤ first.count (.punctuation .openParen)

theorem Balanced.wellNested (h : Balanced tokens) : WellNested tokens where
  closed := h.count.symm
  opened := by
    rintro first ⟨second, rfl⟩
    obtain ⟨depth, hopen⟩ := h.exists_open
    rw [hopen.count]
    exact Nat.le_add_right _ _

/-- Tokens between the parentheses of a pair: the one behind them closes the one before them. -/
structure Contained (tokens : List Token) : Prop where
  nested : WellNested tokens
  closes : ∀ rest, Statement.afterClosing? 0 (tokens ++ .punctuation .closeParen :: rest) = some rest

theorem Balanced.contained (h : Balanced tokens) : Contained tokens where
  nested := h.wellNested
  closes rest := by
    rw [afterClosing?_append h]
    rfl

/-- Between two places outside all parentheses they match. -/
theorem balanced_between (hn : Balanced (tokens.take n)) (hm : Balanced (tokens.take m)) (h : n ≤ m) :
    Balanced ((tokens.take m).drop n) := by
  have hsplit := List.take_append_drop n (tokens.take m)
  rw [List.take_take, min_eq_left h] at hsplit
  rw [← hsplit] at hm
  exact hn.of_append hm

end Token

namespace Statement

open Token

variable {s : Statement} {sql tablePrefix : String} {d : Dialect} {start stop cut : Nat}
  {predicates : List Expr}

/-! ## Spans -/

/-- The tokens between two positions, the end excluded. -/
def tokensIn (s : Statement) (start stop : Nat) : List Token :=
  (s.tokens.take stop).drop start

/-- The clause that was found first among some, up to the next one or to the end. -/
theorem balanced_clause (h : parse sql d = .ok s) {first rest : List Clause} {c : Clause}
    (hclauses : s.clauses = first ++ c :: rest) :
    Balanced (s.tokensIn c.start ((rest.head?.map (·.start)).getD s.tokens.length)) := by
  obtain ⟨hbalanced, hstands, hordered⟩ := parse_found h
  have hstart := (hstands c (by simp [hclauses])).2.before
  cases rest with
  | nil =>
    refine balanced_between hstart ?_ (hstands c (by simp [hclauses])).1.le
    rwa [List.head?_nil, Option.map_none, Option.getD_none, List.take_length]
  | cons next rest =>
    rw [hclauses, List.pairwise_append, List.pairwise_cons] at hordered
    obtain ⟨-, ⟨hlater, -⟩, -⟩ := hordered
    exact balanced_between hstart (hstands next (by simp [hclauses])).2.before
      (hlater next List.mem_cons_self).le

/-- A place behind the start of a clause where the printer stops: a later clause, or the end. -/
def CutAfter (s : Statement) (start cut : Nat) : Prop :=
  cut = s.tokens.length ∨ ∃ c ∈ s.clauses, start < c.start ∧ c.start = cut

instance : Decidable (s.CutAfter start cut) :=
  inferInstanceAs (Decidable (_ ∨ _))

/-- No clause starts within the span of another. -/
theorem CutAfter.le (hcut : s.CutAfter start cut) (h : parse sql d = .ok s) {kind : ClauseKind}
    (hspan : s.clauseSpan? kind = some (start, stop)) : stop ≤ cut := by
  obtain ⟨-, hstands, hordered⟩ := parse_found h
  obtain ⟨first, c, rest, hclauses, -, rfl, rfl⟩ := spanIn?_eq_some hspan
  have hinside : (rest.head?.map (·.start)).getD s.tokens.length ≤ s.tokens.length := by
    cases rest with
    | nil => exact le_rfl
    | cons next rest => exact (hstands next (by simp [hclauses])).1.le
  rcases hcut with rfl | ⟨later, hmem, hlt, rfl⟩
  · exact hinside
  · rw [hclauses, List.pairwise_append, List.pairwise_cons] at hordered
    obtain ⟨-, ⟨-, hrest⟩, hearlier⟩ := hordered
    rw [hclauses, List.mem_append, List.mem_cons] at hmem
    rcases hmem with hmem | rfl | hmem
    · exact absurd hlt (hearlier later hmem c List.mem_cons_self).not_gt
    · exact absurd hlt (lt_irrefl _)
    · cases rest with
      | nil => exact absurd hmem List.not_mem_nil
      | cons next rest =>
        rcases List.mem_cons.1 hmem with rfl | hmem
        · exact le_rfl
        · exact ((List.pairwise_cons.1 hrest).1 later hmem).le

/-- The WHERE clause and the author's condition behind its keyword. -/
theorem balanced_condition (h : parse sql d = .ok s)
    (hspan : s.clauseSpan? .condition = some (start, stop)) :
    Balanced (s.tokensIn start stop) ∧ Balanced (s.tokensIn (start + 1) stop) := by
  obtain ⟨hlt, -, ⟨keyword, rest, hdrop, hkeyword⟩, -⟩ := parse_condition h hspan
  obtain ⟨hstart, hstop⟩ := Outline.balanced_clauseSpan h hspan
  have hclause : Balanced (s.tokensIn start stop) := balanced_between hstart hstop hlt.le
  refine ⟨hclause, ?_⟩
  have hbody : s.tokensIn start stop = keyword :: s.tokensIn (start + 1) stop := by
    obtain ⟨k, rfl⟩ := Nat.exists_eq_add_of_lt hlt
    have hmore : s.tokens.drop (start + 1) = rest := by
      rw [← List.drop_drop, hdrop]
      rfl
    unfold tokensIn
    rw [List.drop_take, List.drop_take, hdrop, hmore,
      show start + k + 1 - start = k + 1 by omega, show start + k + 1 - (start + 1) = k by omega,
      List.take_succ_cons]
  rw [hbody] at hclause
  exact hclause.tail (isKeyword_ne_punctuation hkeyword _)

/-! ## The condition as it is printed -/

/-- The tokens printed between the parentheses around a condition: what its tokens stand for without
outer blanks, with a line break behind a comment that would take the parenthesis in. -/
def PrintsInside (d : Dialect) (tablePrefix : String) (condition inner : List Token) : Prop :=
  inner = trimmed (expand d tablePrefix condition) ∨
    inner = withLineBreak (trimmed (expand d tablePrefix condition))

theorem PrintsInside.balanced {condition inner : List Token}
    (h : PrintsInside d tablePrefix condition inner) (hbalanced : Balanced condition) :
    Balanced inner := by
  rcases h with rfl | rfl
  · exact hbalanced.congr (by rw [parens_trimmed, Outline.parens_expand])
  · exact hbalanced.congr (by rw [parens_withLineBreak, parens_trimmed, Outline.parens_expand])

theorem InsidePiece.balanced {doubled : List Token} (h : InsidePiece doubled) : Balanced doubled := by
  refine .of_forall fun t ht => ?_
  rcases h t ht with ⟨value, rfl⟩ | rfl
  · exact ⟨Token.noConfusion, Token.noConfusion⟩
  · exact ⟨by decide, by decide⟩

/-- A condition in parentheses, up to the end of its last piece. -/
theorem exists_inside (d : Dialect) (tablePrefix : String) (author next : List Token) :
    ∃ doubled after inner, next = doubled ++ after ∧ InsidePiece doubled ∧
      PrintsInside d tablePrefix (author ++ doubled) inner ∧
        enclosedCondition d tablePrefix author.length (author ++ next) =
          "(" ++ textOf inner ++ ")" := by
  obtain ⟨doubled, after, rfl, hinside, -, htext⟩ := exists_pieceEnd d tablePrefix author next
  have henclosed : enclosedCondition d tablePrefix author.length (author ++ (doubled ++ after)) =
      "(" ++ textOf (trimmed (expand d tablePrefix (author ++ doubled))) ++
        (if (author.reverse.find? (!·.isBlank)).any isLineComment then "\n" else "") ++ ")" := by
    unfold enclosedCondition
    dsimp only
    rw [htext, List.take_left, textOf_trimmed]
  by_cases hcomment : (author.reverse.find? (!·.isBlank)).any isLineComment = true
  · refine ⟨doubled, after, _, rfl, hinside, .inr rfl, ?_⟩
    rw [henclosed, if_pos hcomment, textOf_withLineBreak]
    simp only [String.append_assoc]
  · refine ⟨doubled, after, _, rfl, hinside, .inl rfl, ?_⟩
    rw [henclosed, if_neg hcomment, String.append_empty]

/-- Conditions beside the author's one, in the text up to a cut behind it. -/
theorem renderUntil_beside {before author next : List Token} {keyword : Token}
    (htokens : s.tokens = before ++ keyword :: (author ++ next))
    (hspan : s.clauseSpan? .condition = some (before.length, before.length + 1 + author.length))
    (hnone : s.predicates = []) (hne : predicates ≠ [])
    (hbefore : Whole before (keyword :: (author ++ next)))
    (hcut : before.length + 1 + author.length ≤ cut) (tablePrefix : String) :
    ∃ rest, (s.addPredicates predicates).renderUntil tablePrefix cut =
      textOf (expand s.dialect tablePrefix before) ++ keyword.text ++ " " ++
        enclosedCondition s.dialect tablePrefix author.length (author ++ next) ++ " AND " ++
          " AND ".intercalate (predicates.map (·.sql s.dialect)) ++ rest := by
  have hinsertion := insertion_beside hnone hne hspan
  have hcount : before.length + 1 + author.length - (before.length + 1) = author.length := by omega
  unfold renderUntil
  rw [hinsertion, addPredicates_eq]
  dsimp only
  rw [htokens, renderFrom_append hbefore (by omega) fun q hq => by
    simp only [Insertion.actsAt, beq_eq_false_iff_ne]; omega, Nat.zero_add, renderFrom,
    if_neg (by omega)]
  dsimp only
  rw [if_pos rfl, min_eq_left hcut, hcount]
  simp only [String.append_assoc]
  exact ⟨_, rfl⟩

/-- The tokens around a clause and in it, by their positions. -/
theorem tokensIn_parts {before author next : List Token} {keyword : Token}
    (htokens : s.tokens = before ++ keyword :: (author ++ next)) :
    s.tokensIn 0 (before.length + 1) = before ++ [keyword] ∧
      s.tokensIn (before.length + 1) (before.length + 1 + author.length) = author ∧
        s.tokens.drop (before.length + 1 + author.length) = next := by
  have hparts : s.tokens = before ++ [keyword] ++ author ++ next := by
    rw [htokens, List.append_assoc, List.append_assoc, List.singleton_append]
  have hfront : (before ++ [keyword]).length = before.length + 1 := by simp
  have hclause : (before ++ [keyword] ++ author).length = before.length + 1 + author.length := by
    rw [List.length_append, hfront]
  unfold tokensIn
  refine ⟨?_, ?_, ?_⟩
  · rw [hparts, List.append_assoc, List.take_left' hfront, List.drop_zero]
  · rw [hparts, List.take_left' hclause, List.drop_left' hfront]
  · rw [hparts, List.drop_left' hclause]

/-- In the text up to a cut behind the author's condition, this stands in parentheses that it cannot
close, with the added conditions beside it. -/
theorem exists_contained (h : parse sql d = .ok s) (hspan : s.clauseSpan? .condition = some (start, stop))
    (hcut : stop ≤ cut) (hne : predicates ≠ []) (hreaches : s.Reaches cut) (tablePrefix : String) :
    ∃ doubled after inner rest, s.tokens.drop stop = doubled ++ after ∧ InsidePiece doubled ∧
      PrintsInside d tablePrefix (s.tokensIn (start + 1) stop ++ doubled) inner ∧
      (s.addPredicates predicates).renderUntil tablePrefix cut =
        textOf (expand d tablePrefix (s.tokensIn 0 (start + 1))) ++ " " ++
          "(" ++ textOf inner ++ ")" ++ " AND " ++
            " AND ".intercalate (predicates.map (·.sql d)) ++ rest ∧
      Contained inner := by
  obtain ⟨rfl, hnone, -⟩ := parse_eq_ok h
  have hauthor := (balanced_condition h hspan).2
  obtain ⟨before, keyword, author, next, htokens, rfl, rfl, hkeyword, -⟩ :=
    exists_condition_parts h hspan
  unfold Reaches at hreaches
  rw [hspan] at hreaches
  obtain ⟨-, hbefore⟩ := hreaches
  rw [htokens, List.take_left, List.drop_left] at hbefore
  obtain ⟨hfront, hbody, hbehind⟩ := tokensIn_parts htokens
  rw [hbody] at hauthor
  rw [hfront, hbody, hbehind]
  -- a piece that reaches beyond the condition is printed inside the parentheses as a whole
  obtain ⟨doubled, after, inner, hnext, hinside, hprints, henclosed⟩ :=
    exists_inside s.dialect tablePrefix author next
  obtain ⟨rest, hrender⟩ := renderUntil_beside htokens hspan hnone hne hbefore hcut tablePrefix
  refine ⟨doubled, after, inner, rest, hnext, hinside, hprints, ?_,
    (hprints.balanced (hauthor.append hinside.balanced)).contained⟩
  have hword : expand s.dialect tablePrefix (before ++ [keyword]) =
      expand s.dialect tablePrefix before ++ [keyword] := by
    obtain ⟨value, rfl, -⟩ := isKeyword_iff.1 hkeyword
    rw [expand_append (@Whole.of_append_right before [_] (author ++ next) hbefore), expand_word]
    rfl
  rw [hrender, henclosed, hword, textOf_append, Fragment.textOf_singleton]
  simp only [String.append_assoc]

/-- Every clause starts outside all parentheses and behind the one before it, and closes the parentheses
that it opens and no others. So does the WHERE clause wherever the printer stops behind it: the tokens
that are printed between the added parentheses cannot close them. -/
theorem parse_wellNested (h : parse sql d = .ok s) :
    (∀ c ∈ s.clauses, c.start < s.tokens.length ∧ WellNested (s.tokensIn 0 c.start)) ∧
    (s.clauses.Pairwise fun earlier later => earlier.start < later.start) ∧
    (∀ first c rest, s.clauses = first ++ c :: rest →
      WellNested (s.tokensIn c.start ((rest.head?.map (·.start)).getD s.tokens.length))) ∧
    (∀ kind start stop, s.clauseSpan? kind = some (start, stop) → WellNested (s.tokensIn start stop)) ∧
    ∀ start stop cut, s.clauseSpan? .condition = some (start, stop) → s.CutAfter start cut →
      WellNested (s.tokensIn start (min stop cut)) ∧
      WellNested (s.tokensIn (start + 1) (min stop cut)) ∧
      ∀ predicates tablePrefix, predicates ≠ [] → s.Reaches cut → ∃ doubled after inner rest,
        s.tokens.drop (min stop cut) = doubled ++ after ∧ InsidePiece doubled ∧
        PrintsInside d tablePrefix (s.tokensIn (start + 1) (min stop cut) ++ doubled) inner ∧
        (s.addPredicates predicates).renderUntil tablePrefix cut =
          textOf (expand d tablePrefix (s.tokensIn 0 (start + 1))) ++ " " ++
            "(" ++ textOf inner ++ ")" ++ " AND " ++
              " AND ".intercalate (predicates.map (·.sql d)) ++ rest ∧
        Contained inner := by
  obtain ⟨-, hstands, hordered⟩ := parse_found h
  refine ⟨fun c hc => ⟨(hstands c hc).1, (hstands c hc).2.before.wellNested⟩, hordered,
    fun first c rest hclauses => (balanced_clause h hclauses).wellNested,
    fun kind start stop hspan => ?_, fun start stop cut hspan hcut => ?_⟩
  · obtain ⟨first, c, rest, hclauses, -, rfl, rfl⟩ := spanIn?_eq_some hspan
    exact (balanced_clause h hclauses).wellNested
  · obtain ⟨hclause, hauthor⟩ := balanced_condition h hspan
    have hle := hcut.le h hspan
    rw [min_eq_left hle]
    exact ⟨hclause.wellNested, hauthor.wellNested, fun predicates tablePrefix hne hreaches =>
      exists_contained h hspan hle hne hreaches tablePrefix⟩

/-- A condition with parentheses of its own and a comment at its end, cut before the order. -/
theorem parse_wellNested_ordered : ∃ s,
    parse "SELECT u.id FROM \x7buser\x7d u WHERE (u.a = 1 OR f(u.b) = 2) -- all)\nORDER BY u.id" .sqlite =
      .ok s ∧
    s.clauses = [⟨.select, 0⟩, ⟨.source, 6⟩, ⟨.condition, 14⟩, ⟨.orderBy, 40⟩] ∧
    WellNested (s.tokensIn 14 40) ∧ WellNested (s.tokensIn 15 40) ∧
    ∃ inner rest, (s.addPredicates [.binary .eq (.column (some "u") "c") (.placeholder "scope")]).renderUntil
        "app_" 40 =
      textOf (expand .sqlite "app_" (s.tokensIn 0 15)) ++ " " ++ "(" ++ textOf inner ++ ")" ++ " AND " ++
        "u.c = :scope" ++ rest ∧ Contained inner := by
  obtain ⟨s, hparse, hclauses, hreaches⟩ : ∃ s, parse
      "SELECT u.id FROM \x7buser\x7d u WHERE (u.a = 1 OR f(u.b) = 2) -- all)\nORDER BY u.id" .sqlite =
        .ok s ∧
      s.clauses = [⟨.select, 0⟩, ⟨.source, 6⟩, ⟨.condition, 14⟩, ⟨.orderBy, 40⟩] ∧ s.Reaches 40 := by
    decide +kernel
  have hspan : s.clauseSpan? .condition = some (14, 40) := by
    unfold clauseSpan?
    rw [hclauses]
    rfl
  have hcut : s.CutAfter 14 40 := .inr ⟨⟨.orderBy, 40⟩, by rw [hclauses]; decide, by decide, rfl⟩
  obtain ⟨-, -, -, -, hcondition⟩ := parse_wellNested hparse
  obtain ⟨hclause, hauthor, hprinted⟩ := hcondition 14 40 40 hspan hcut
  obtain ⟨doubled, after, inner, rest, -, -, -, htext, hinner⟩ :=
    hprinted _ "app_" (List.cons_ne_nil (.binary .eq (.column (some "u") "c") (.placeholder "scope")) [])
      hreaches
  have hadded : " AND ".intercalate ([Expr.binary .eq (.column (some "u") "c")
      (.placeholder "scope")].map (·.sql .sqlite)) = "u.c = :scope" := by decide +kernel
  rw [hadded] at htext
  exact ⟨s, hparse, hclauses, hclause, hauthor, inner, rest, htext, hinner⟩

end Statement

end ReportSql
