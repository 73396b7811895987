import ReportSql.Proofs.Query.Grouping
import ReportSql.Proofs.Statement.Added
import ReportSql.Proofs.Statement.Conditioned

/-!
# Added conditions as a conjunction

A condition that is added to a query or to an author statement narrows it: the WHERE
clause, read with SQL precedence, holds when the condition that was there and the
added ones do. Conditions are printed without parentheses of their own, so each has to
be written with its grouping. The author's condition is put in parentheses, and so is
the OR at the top of the condition of a query.

## Main definitions

* `Token.signs` - a condition of an author statement as it is read
* `Outline.conditionText`, `Outline.conditionRead` - what stands behind the word WHERE

## Main results

* `addedConditions_hold` - the WHERE clause of a query and of a statement with added conditions
-/

namespace ReportSql

open Fragment

namespace Token

/-! ## Conditions of authors -/

/-- What a token is in a condition: a parenthesis, a connective or a name. -/
def sign (named : Bool) : Token → Fragment
  | .punctuation .openParen => .openParen
  | .punctuation .closeParen => .closeParen
  | t =>
    if named then .identifier t.text
    else if t.isKeyword "AND" then .operator .and
    else if t.isKeyword "OR" then .operator .or
    else if t.isKeyword "NOT" then .keyword .not_
    else .identifier t.text

/-- The tokens of a condition as they are read, blanks and comments left out. A word behind a period or a
colon is a name. -/
def signs : Bool → List Token → List Fragment
  | _, [] => []
  | named, t :: rest =>
    if t.isTrivia then signs named rest
    else t.sign named ::
      signs (decide (t = .punctuation .period ∨ t = .punctuation .colon)) rest

theorem sign_ne_paren {t : Token} (hopen : t ≠ .punctuation .openParen)
    (hclose : t ≠ .punctuation .closeParen) (named : Bool) :
    t.sign named ≠ .openParen ∧ t.sign named ≠ .closeParen := by
  unfold sign
  split
  · exact absurd rfl hopen
  · exact absurd rfl hclose
  · repeat' split
    all_goals simp

theorem signs_closeParen (named : Bool) (first rest : List Token) :
    signs named (first ++ .punctuation .closeParen :: rest) =
      signs named first ++ .closeParen :: signs false rest := by
  induction first generalizing named with
  | nil => rfl
  | cons t first ih =>
    rw [List.cons_append, signs, signs, ih, ih]
    split <;> rfl

theorem nested_signs {tokens : List Token} (h : Balanced tokens) (named : Bool) :
    Nested (fun _ => True) (signs named tokens) := by
  induction h generalizing named with
  | nil => exact .nil
  | other opens closes _ ih =>
    rw [signs]
    split
    · exact ih _
    · obtain ⟨hopen, hclose⟩ := sign_ne_paren opens closes named
      exact .cons hopen hclose trivial (ih _)
  | @enclosed inner more _ _ ihinner ihmore =>
    have hsigns : signs named (.punctuation .openParen :: (inner ++ .punctuation .closeParen :: more)) =
        .openParen :: (signs false inner ++ .closeParen :: signs false more) :=
      congrArg _ (signs_closeParen false inner more)
    rw [hsigns]
    exact .enclosed (ihinner _) (ihmore _)

end Token

open Token Statement

/-! ## The WHERE clause of a statement -/

namespace Outline

variable {d : Dialect} {tablePrefix sql : String} {o : Outline} {s : Statement}

/-- The text behind the word WHERE. -/
def conditionText (d : Dialect) (tablePrefix : String) (predicate : Expr) (o : Outline) : String :=
  match o.condition? with
  | none => predicate.sql d
  | some (_, condition) =>
    "(" ++ textOf (enclosed d tablePrefix condition) ++ ")" ++ " AND " ++ predicate.sql d

/-- What is read behind the word WHERE. -/
def conditionRead (d : Dialect) (tablePrefix : String) (predicate : Expr) (o : Outline) :
    List Fragment :=
  match o.condition? with
  | none => predicate.tokens
  | some (_, condition) =>
    .openParen :: (signs false (enclosed d tablePrefix condition) ++ [.closeParen]) ++
      .operator .and :: predicate.tokens

/-- Whether the author's condition holds, given the atoms that do. -/
def AuthorHolds (v : List Fragment → Prop) (d : Dialect) (tablePrefix : String) (o : Outline) : Prop :=
  ∀ clause ∈ o.condition?, Reads v (signs false (enclosed d tablePrefix clause.2))

/-- A clause begins and ends outside of all parentheses. -/
theorem balanced_clauseSpan (h : parse sql d = .ok s) {kind : ClauseKind} {start stop : Nat}
    (hspan : s.clauseSpan? kind = some (start, stop)) :
    Balanced (s.tokens.take start) ∧ Balanced (s.tokens.take stop) := by
  obtain ⟨hbalanced, hstands, -⟩ := parse_found h
  obtain ⟨first, c, rest, hclauses, -, rfl, rfl⟩ := spanIn?_eq_some hspan
  refine ⟨(hstands c (by simp [hclauses])).2.before, ?_⟩
  cases rest with
  | nil => rwa [List.head?_nil, Option.map_none, Option.getD_none, List.take_length]
  | cons next rest => exact (hstands next (by simp [hclauses])).2.before

/-- The author's condition stands behind the word WHERE, and its parentheses match. -/
theorem Fits.condition_eq (h : o.Fits s s.tokens.length) (hparse : parse sql d = .ok s) {keyword : Token}
    {condition : List Token} (hcondition : o.condition? = some (keyword, condition)) :
    keyword.isKeyword "WHERE" = true ∧ Balanced condition := by
  obtain ⟨before, condition?, after⟩ := o
  obtain rfl : condition? = some (keyword, condition) := hcondition
  have hspan : s.clauseSpan? .condition = some (before.length, before.length + 1 + condition.length) :=
    h.span
  have htokens : s.tokens = before ++ keyword :: condition ++ after := by
    have heq := h.tokens_eq
    rw [List.take_length] at heq
    rw [← heq, List.append_assoc]
    rfl
  have hlength : before.length + 1 + condition.length = (before ++ keyword :: condition).length := by
    rw [List.length_append, List.length_cons]
    omega
  obtain ⟨-, -, ⟨t, rest, hdrop, ht⟩, -⟩ := parse_condition hparse hspan
  obtain ⟨hstart, hstop⟩ := balanced_clauseSpan hparse hspan
  rw [htokens, List.append_assoc, List.drop_left, List.cons_append] at hdrop
  obtain ⟨rfl, -⟩ := List.cons.inj hdrop
  rw [htokens, hlength, List.take_left] at hstop
  rw [htokens, List.append_assoc, List.take_left] at hstart
  exact ⟨ht, (hstart.of_append hstop).tail (isKeyword_ne_punctuation ht _)⟩

/-- The text of a statement with one added condition. -/
theorem Fits.render_addPredicate (h : o.Fits s s.tokens.length) (hparse : parse sql d = .ok s)
    (tablePrefix : String) (predicate : Expr) :
    ∃ keyword : Token, keyword.isKeyword "WHERE" = true ∧
      (s.addPredicate predicate).render tablePrefix =
        textOf (o.front s.dialect tablePrefix) ++ (keyword.text ++ " " ++
          o.conditionText s.dialect tablePrefix predicate ++ textOf (o.rest s.dialect tablePrefix)) := by
  obtain ⟨-, hpredicates, -⟩ := parse_eq_ok hparse
  have hprinted : (s.addPredicate predicate).render tablePrefix =
      textOf (o.printed s.dialect tablePrefix (predicate.written s.dialect)) :=
    h.renderUntil le_rfl hpredicates
  rw [printed, textOf_append, textOf_append] at hprinted
  rw [hprinted]
  obtain ⟨before, condition?, after⟩ := o
  cases condition? with
  | none =>
    have hwhere : "WHERE " = "WHERE" ++ " " := rfl
    refine ⟨.word "WHERE" none, by decide +kernel, ?_⟩
    rw [textOf_newClause, predicate.textOf_written, hwhere]
    rfl
  | some clause =>
    obtain ⟨keyword, condition⟩ := clause
    refine ⟨keyword, (h.condition_eq hparse rfl).1, ?_⟩
    rw [textOf_clause, predicate.textOf_written, conditionText]
    simp only [String.append_assoc]

/-- What is read in the WHERE clause of a statement with one added condition. -/
theorem Fits.reads_conditionRead (h : o.Fits s s.tokens.length) (hparse : parse sql d = .ok s)
    (tablePrefix : String) {predicate : Expr}
    (hgrouped : predicate.isGrouped 1 = true ∨ o.condition? = none ∧ predicate.isGrouped 2 = true)
    (v : List Fragment → Prop) :
    Reads v (o.conditionRead s.dialect tablePrefix predicate) ↔
      o.AuthorHolds v s.dialect tablePrefix ∧ predicate.Holds v := by
  unfold conditionRead AuthorHolds
  cases hcondition : o.condition? with
  | none =>
    have hany : predicate.isGrouped 2 = true :=
      hgrouped.elim (Expr.isGrouped_mono · (Nat.le_succ 1)) (·.2)
    simpa using (Expr.levelMeans hany v).toReads
  | some clause =>
    obtain ⟨keyword, condition⟩ := clause
    have hone : predicate.isGrouped 1 = true :=
      hgrouped.resolve_right fun hnone => by simp [hcondition] at hnone
    -- whatever the author wrote is one operand, since parentheses stand around it
    obtain ⟨-, hbalanced⟩ := h.condition_eq hparse hcondition
    have hauthor : LevelMeans v 2 _ _ :=
      .self (nested_signs (@balanced_enclosed s.dialect tablePrefix _ hbalanced) false)
    simpa using (hauthor.paren.lift.and (Expr.levelMeans hone v)).lift.toReads

end Outline

/-! ## Several conditions -/

namespace Expr

theorem sql_and (d : Dialect) (left right : Expr) :
    (left.and right).sql d = left.sql d ++ " AND " ++ right.sql d := by
  have hand : Fragment.render d [.space, .operator .and, .space] = " AND " := by cases d <;> rfl
  rw [Expr.sql, Expr.and, Expr.fragments, render_append, render_append, hand]
  rfl

theorem sql_foldl_and (d : Dialect) (first : Expr) (rest : List Expr) :
    (rest.foldl Expr.and first).sql d = " AND ".intercalate ((first :: rest).map (·.sql d)) := by
  induction rest generalizing first with
  | nil => exact String.intercalate_singleton.symm
  | cons e rest ih =>
    rw [List.foldl_cons, ih, List.map_cons, sql_and, String.intercalate_cons_append, List.map_cons,
      List.map_cons, String.intercalate_cons_cons]

theorem isGrouped_foldl_and {first : Expr} {rest : List Expr}
    (h : ∀ e ∈ first :: rest, e.isGrouped 1 = true) : (rest.foldl Expr.and first).isGrouped 1 = true := by
  induction rest generalizing first with
  | nil => exact h first List.mem_cons_self
  | cons e rest ih =>
    obtain ⟨hfirst, he, hrest⟩ : first.isGrouped 1 = true ∧ e.isGrouped 1 = true ∧
        ∀ e ∈ rest, e.isGrouped 1 = true := by simpa using h
    exact ih (List.forall_mem_cons.2 ⟨by simp [Expr.and, isGrouped, hfirst, he], hrest⟩)

end Expr

/-- Several added conditions are printed as one conjunction. -/
theorem Statement.render_addPredicates_eq {s : Statement} (hnone : s.predicates = []) (first : Expr)
    (rest : List Expr) (tablePrefix : String) :
    (s.addPredicates (first :: rest)).render tablePrefix =
      (s.addPredicate (rest.foldl Expr.and first)).render tablePrefix := by
  have hsql : (s.addPredicates (first :: rest)).predicateSql? =
      (s.addPredicate (rest.foldl Expr.and first)).predicateSql? := by
    rw [predicateSql?_addPredicates hnone (List.cons_ne_nil first rest), ← Expr.sql_foldl_and]
    simp [predicateSql?, addPredicate, hnone]
  have hinsertion : (s.addPredicates (first :: rest)).insertion =
      (s.addPredicate (rest.foldl Expr.and first)).insertion := by
    unfold insertion
    rw [hsql, addPredicates_eq]
    rfl
  unfold render renderUntil
  rw [hinsertion, addPredicates_eq]
  rfl

/-- Conditions added to a query, and conditions added to an author statement whose WHERE clause is found
where its outline has it. Each is written with its grouping, and only where there is no other condition
yet may it have an OR at its top. -/
theorem addedConditions_hold :
    (∀ (q : Query) (conditions : List Expr) (layout : Layout) (v : List Fragment → Prop),
      (∀ present ∈ q.condition, present.isGrouped 2 = true) →
      (∀ e ∈ conditions, e.isGrouped 2 = true) →
      (∀ e ∈ conditions.drop (if q.condition.isSome then 0 else 1), e.isGrouped 1 = true) →
      (WhereHolds v 0 ((conditions.foldl Query.andWhere q).fragments layout) ↔
        (∀ present ∈ q.condition, present.Holds v) ∧ ∀ e ∈ conditions, e.Holds v)) ∧
    ∀ (sql : String) (d : Dialect) (s : Statement) (o : Outline) (first : Expr) (rest : List Expr)
      (tablePrefix : String),
      parse sql d = .ok s → o.Fits s s.tokens.length →
      ((∀ e ∈ first :: rest, e.isGrouped 1 = true) ∨
        o.condition? = none ∧ rest = [] ∧ first.isGrouped 2 = true) →
      ∃ keyword : Token, keyword.isKeyword "WHERE" = true ∧
        (s.addPredicates (first :: rest)).render tablePrefix =
          textOf (o.front d tablePrefix) ++ (keyword.text ++ " " ++
            o.conditionText d tablePrefix (rest.foldl Expr.and first) ++ textOf (o.rest d tablePrefix)) ∧
        ∀ v, Reads v (o.conditionRead d tablePrefix (rest.foldl Expr.and first)) ↔
          o.AuthorHolds v d tablePrefix ∧ ∀ e ∈ first :: rest, e.Holds v := by
  refine ⟨fun q conditions layout v hq hall hlater => q.whereHolds_foldl_andWhere hq hall hlater layout,
    fun sql d s o first rest tablePrefix hparse hfits hgrouped => ?_⟩
  obtain ⟨rfl, hpredicates, -⟩ := parse_eq_ok hparse
  have hconjunction : (rest.foldl Expr.and first).isGrouped 1 = true ∨
      o.condition? = none ∧ (rest.foldl Expr.and first).isGrouped 2 = true := by
    rcases hgrouped with hgrouped | ⟨hnone, rfl, hfirst⟩
    · exact .inl (Expr.isGrouped_foldl_and hgrouped)
    · exact .inr ⟨hnone, hfirst⟩
  obtain ⟨keyword, hkeyword, htext⟩ :=
    hfits.render_addPredicate hparse tablePrefix (rest.foldl Expr.and first)
  refine ⟨keyword, hkeyword, ?_, fun v => ?_⟩
  · rw [render_addPredicates_eq hpredicates, htext]
  · rw [hfits.reads_conditionRead hparse tablePrefix hconjunction, holds_foldl_and]

/-- The comparison of a column with the placeholder of its name. -/
def columnIs (name : String) : Expr :=
  .eq (.column none name) (.placeholder name)

theorem addedConditions_hold_both : ∃ (q : Query) (s : Statement) (o : Outline),
    q.condition = some ((columnIs "a").or (columnIs "b")) ∧
      parse "SELECT u.id FROM {user} u WHERE u.city = :city OR u.id = 1 -- both\nORDER BY u.id" .sqlite =
        .ok s ∧
      o.Fits s s.tokens.length ∧ ((columnIs "c").or (columnIs "d")).paren.isGrouped 1 = true ∧
      (∀ v, WhereHolds v 0 (([(columnIs "c").or (columnIs "d") |>.paren, columnIs "e"].foldl
          Query.andWhere q).fragments .inline) ↔
        ((columnIs "a").Holds v ∨ (columnIs "b").Holds v) ∧
          ((columnIs "c").Holds v ∨ (columnIs "d").Holds v) ∧ (columnIs "e").Holds v) ∧
      ∀ v, Reads v (o.conditionRead .sqlite "" ((columnIs "c").and (columnIs "d"))) ↔
        o.AuthorHolds v .sqlite "" ∧ (columnIs "c").Holds v ∧ (columnIs "d").Holds v := by
  obtain ⟨s, hparse, horderly, hselect⟩ : ∃ s, parse
      "SELECT u.id FROM {user} u WHERE u.city = :city OR u.id = 1 -- both\nORDER BY u.id" .sqlite = .ok s ∧
      s.Orderly ∧ (firstSignificant? s.tokens).any (·.isKeyword "SELECT") = true := by
    decide +kernel
  obtain ⟨o, hfits, -⟩ := horderly.exists_outline hparse hselect (.inl rfl)
  obtain ⟨hquery, hstatement⟩ := addedConditions_hold
  refine ⟨{ Query.empty with condition := some ((columnIs "a").or (columnIs "b")) }, s, o, rfl, hparse,
    hfits, rfl, fun v => ?_, fun v => ?_⟩
  · have hholds := hquery
      { Query.empty with condition := some ((columnIs "a").or (columnIs "b")) }
      [(columnIs "c").or (columnIs "d") |>.paren, columnIs "e"] .inline v
      (by simp [columnIs, Expr.or, Expr.eq, Expr.isGrouped, Expr.isTerm])
      (by simp [columnIs, Expr.or, Expr.eq, Expr.isGrouped, Expr.isTerm])
      (by simp [columnIs, Expr.or, Expr.eq, Expr.isGrouped, Expr.isTerm])
    simpa [Expr.or, Expr.Holds] using hholds
  · obtain ⟨-, -, -, hholds⟩ := hstatement _ .sqlite s o (columnIs "c") [columnIs "d"] "" hparse hfits
      (.inl (by simp [columnIs, Expr.eq, Expr.isGrouped, Expr.isTerm]))
    simpa using hholds v

/-- Without parentheses around its operand, a NOT is read as one of the first comparison only. -/
theorem addedConditions_hold_ungrouped : ∃ v : List Fragment → Prop,
    let q : Query := { Query.empty with condition := some (columnIs "a") }
    let added := Expr.not ((columnIs "b").or (columnIs "c"))
    WhereHolds v 0 ((q.andWhere added).fragments .inline) ∧
      ¬ ((∀ present ∈ q.condition, present.Holds v) ∧ added.Holds v) := by
  have hfalsehood : (columnIs "c").tokens ≠ falsehood := by
    simp [columnIs, falsehood, Expr.never, Expr.eq, Expr.tokens, Expr.fragments, qualifierFragments,
      Fragment.isBlank]
  have hc : (columnIs "c").Holds fun _ => True :=
    (Expr.holds_of_atom (e := columnIs "c") rfl fun _ => True).2 ⟨trivial, hfalsehood⟩
  refine ⟨fun _ => True, ?_, ?_⟩
  · -- the tokens are those of another tree, which is grouped
    have htokens : ((columnIs "a").and (.not ((columnIs "b").or (columnIs "c")))).tokens =
        (((columnIs "a").and (.not (columnIs "b"))).or (columnIs "c")).tokens := by
      simp [Expr.and, Expr.or, Expr.tokens_binary, Expr.tokens_not]
    have hgrouped : (((columnIs "a").and (.not (columnIs "b"))).or (columnIs "c")).isGrouped 2 = true := by
      simp [columnIs, Expr.and, Expr.or, Expr.eq, Expr.isGrouped, Expr.isTerm]
    have hholds : (((columnIs "a").and (.not (columnIs "b"))).or (columnIs "c")).Holds
        fun _ => True := .inr hc
    rw [Query.whereHolds_fragments]
    intro condition hcondition
    obtain rfl := Option.some.inj hcondition
    have hreads := (Expr.levelMeans hgrouped fun _ => True).toReads.2 hholds
    rwa [← htokens] at hreads
  · rintro ⟨-, hnot⟩
    exact hnot (.inr hc)

end ReportSql
