import ReportSql.Proofs.Query.Where

/-!
# Conditions that are written with their grouping

Expressions are printed without parentheses of their own: an author of a condition
groups it with `Expr.paren`. Where the operands of NOT, AND and comparisons are grouped,
the printed condition is read as the tree, and a condition that is added to a query
is read beside the one that the query has.

## Main definitions

* `Expr.isTerm` - an operand of a comparison, with no connective outside of parentheses
* `Expr.isGrouped` - a condition whose connectives stand in parentheses where they have to

## Main results

* `Expr.levelMeans` - what is read from the tokens of a grouped condition
* `Query.whereHolds_foldl_andWhere` - the WHERE clause of a query with further conditions
-/

namespace ReportSql

open Fragment

namespace Expr

/-- An operand of a comparison, or a comparison: there is no connective in it but in parentheses, or in
the arguments of a function or of IN. -/
def isTerm : Expr → Bool
  | .binary op left right => op != .and && op != .or && left.isTerm && right.isTerm
  | .not _ => false
  | .inList operand (_ :: _) _ => operand.isTerm
  | .inQuery operand _ _ => operand.isTerm
  | _ => true

/-- A condition with parentheses where they have to be: at level 0 it may follow a NOT, at level 1 it may
stand beside an AND, and at level 2 it may be anything. -/
def isGrouped : Nat → Expr → Bool
  | level, .binary .and left right => 1 ≤ level && left.isGrouped 1 && right.isGrouped 1
  | level, .binary .or left right => 2 ≤ level && left.isGrouped 2 && right.isGrouped 2
  | _, .not operand => operand.isGrouped 0
  | _, .paren inner => inner.isGrouped 2
  | _, e => e.isTerm

/-! ## Terms -/

/-- The tokens of an operand: nothing in them is a connective, and they do not start with NOT. -/
structure TermTokens (tokens : List Fragment) : Prop where
  nested : Nested (LevelFree 0) tokens
  nonempty : tokens ≠ []
  head : tokens.head? ≠ some (.keyword .not_)

theorem TermTokens.append {first second : List Fragment} (h : TermTokens first)
    (hsecond : Nested (LevelFree 0) second) : TermTokens (first ++ second) where
  nested := h.nested.append hsecond
  nonempty := List.append_ne_nil_of_left_ne_nil h.nonempty _
  head := by
    rw [List.head?_append_of_ne_nil _ h.nonempty]
    exact h.head

theorem termTokens_of_all {first : Fragment} {rest : List Fragment}
    (h : (first :: rest).all (fun f => decide (f ≠ .openParen ∧ f ≠ .closeParen ∧ LevelFree 0 f)) =
      true) (hhead : first ≠ .keyword .not_) : TermTokens (first :: rest) :=
  ⟨nested_of_all h, List.cons_ne_nil _ _, by simpa using hhead⟩

theorem tokens_call (name : String) (args : List Expr) : (Expr.call name args).tokens =
    .function name :: .openParen :: (Fragment.tokens (listFragments args) ++ [.closeParen]) := by
  simp [tokens, Expr.fragments, isBlank]

/-- The tokens of IN with what stands behind it in parentheses. -/
def inTokens (negated : Bool) (content : List Fragment) : List Fragment :=
  (if negated then [.keyword .not_] else []) ++
    .keyword .in_ :: .openParen :: (content ++ [.closeParen])

theorem tokens_inList (operand value : Expr) (rest : List Expr) (negated : Bool) :
    (Expr.inList operand (value :: rest) negated).tokens =
      operand.tokens ++ inTokens negated (Fragment.tokens (listFragments (value :: rest))) := by
  cases negated <;> simp [tokens, inTokens, Expr.fragments, inFragments, isBlank]

theorem tokens_inQuery (operand : Expr) (query : Query) (negated : Bool) :
    (Expr.inQuery operand query negated).tokens =
      operand.tokens ++ inTokens negated (Fragment.tokens (query.fragments .inline)) := by
  cases negated <;> simp [tokens, inTokens, Expr.fragments, inFragments, isBlank]

theorem nested_inTokens (negated : Bool) {content : List Fragment}
    (h : Nested (fun _ => True) content) : Nested (LevelFree 0) (inTokens negated content) := by
  have hparen : Nested (LevelFree 0) (.keyword .in_ :: .openParen :: (content ++ [.closeParen])) :=
    .cons (by simp) (by simp) (by simp [LevelFree]) (.enclosed h .nil)
  cases negated with
  | false => exact hparen
  | true => exact .cons (by simp) (by simp) (by simp [LevelFree]) hparen

theorem termTokens {e : Expr} (h : e.isTerm = true) : TermTokens e.tokens := by
  -- a term is followed into its operands, until it is a single token or stands in parentheses
  fun_induction isTerm e with
  | case1 op left right ihleft ihright =>
    simp only [Bool.and_eq_true, bne_iff_ne] at h
    obtain ⟨⟨⟨hand, hor⟩, hleft⟩, hright⟩ := h
    rw [tokens_binary]
    refine (ihleft hleft).append (.cons (by simp) (by simp) ?_ (ihright hright).nested)
    exact ⟨by simpa using hand, by simpa using hor⟩
  | case2 => exact Bool.noConfusion h
  | case3 operand value rest negated ih =>
    rw [tokens_inList]
    exact (ih h).append (nested_inTokens _ (nested_listFragments _).forget.tokens)
  | case4 operand query negated ih =>
    rw [tokens_inQuery]
    exact (ih h).append (nested_inTokens _ (Query.nested_fragments _ _).tokens)
  | case5 e hbinary hnot hlist hquery =>
    cases e with
    | column table name =>
      cases table with
      | none => exact termTokens_of_all rfl (by simp)
      | some table => exact termTokens_of_all rfl (by simp)
    | star table =>
      cases table with
      | none => exact termTokens_of_all rfl (by simp)
      | some table => exact termTokens_of_all rfl (by simp)
    | integer value => exact termTokens_of_all rfl (by simp)
    | null => exact termTokens_of_all rfl (by simp)
    | placeholder name => exact termTokens_of_all rfl (by simp)
    | call name args =>
      rw [tokens_call]
      exact ⟨.cons (by simp) (by simp) (by simp [LevelFree])
        (.enclosed (nested_listFragments args).forget.tokens .nil), by simp, by simp⟩
    | paren inner =>
      rw [tokens_paren]
      exact ⟨.enclosed inner.nested_fragments.forget.tokens .nil, by simp, by simp⟩
    | inList operand values negated =>
      cases values with
      | nil => cases negated <;> exact termTokens_of_all rfl (by simp)
      | cons value rest => exact absurd rfl (hlist operand value rest negated)
    | binary op left right => exact absurd rfl (hbinary op left right)
    | not operand => exact absurd rfl (hnot operand)
    | inQuery operand query negated => exact absurd rfl (hquery operand query negated)

theorem enclosed?_eq_none_of_head {f : Fragment} (h : f ≠ .openParen) (rest : List Fragment) :
    enclosed? (f :: rest) = none := by
  rw [enclosed?]
  exact fun _ heq => h (List.cons.inj heq).1

/-- Parentheses at the start of a comparison do not enclose all of it. -/
theorem enclosed?_tokens {e : Expr} (h : e.isTerm = true) (hplain : e.isConnective = false) :
    enclosed? e.tokens = none := by
  have hoperand : ∀ {operand : Expr} {f : Fragment} {rest : List Fragment}, operand.isTerm = true →
      enclosed? (operand.tokens ++ f :: rest) = none := by
    intro operand f rest hterm
    obtain ⟨hnested, hne, -⟩ := termTokens hterm
    exact enclosed?_eq_none hnested hne f rest
  -- a comparison starts with an operand that is not all of it, and no other term with a parenthesis
  cases e with
  | binary op left right =>
    rw [tokens_binary]
    rw [isTerm] at h
    simp only [Bool.and_eq_true] at h
    exact hoperand h.1.2
  | inList operand values negated =>
    cases values with
    | nil => cases negated <;> exact enclosed?_eq_none_of_head (by simp) _
    | cons value rest =>
      rw [tokens_inList]
      cases negated <;> exact hoperand h
  | inQuery operand query negated =>
    rw [tokens_inQuery]
    cases negated <;> exact hoperand h
  | not operand => exact Bool.noConfusion hplain
  | paren inner => exact Bool.noConfusion hplain
  | column table name => cases table <;> exact enclosed?_eq_none_of_head (by simp) _
  | star table => cases table <;> exact enclosed?_eq_none_of_head (by simp) _
  | integer value => exact enclosed?_eq_none_of_head (by simp) _
  | null => exact enclosed?_eq_none_of_head (by simp) _
  | placeholder name => exact enclosed?_eq_none_of_head (by simp) _
  | call name args =>
    rw [tokens_call]
    exact enclosed?_eq_none_of_head (by simp) _

/-! ## Grouped conditions -/

/-- What is read from the tokens of a grouped condition is the condition. -/
theorem levelMeans {level : Nat} {e : Expr} (h : e.isGrouped level = true) (v : List Fragment → Prop) :
    LevelMeans v level e.tokens (e.Holds v) := by
  fun_induction isGrouped level e with
  | case1 level left right ihleft ihright =>
    simp only [Bool.and_eq_true, decide_eq_true_eq] at h
    obtain ⟨⟨hlevel, hleft⟩, hright⟩ := h
    rw [tokens_binary, Holds]
    exact ((ihleft hleft).and (ihright hright)).mono hlevel
  | case2 level left right ihleft ihright =>
    simp only [Bool.and_eq_true, decide_eq_true_eq] at h
    obtain ⟨⟨hlevel, hleft⟩, hright⟩ := h
    rw [tokens_binary, Holds]
    exact ((ihleft hleft).or (ihright hright)).mono hlevel
  | case3 level operand ih =>
    rw [tokens_not, Holds]
    exact (ih h).not.mono (Nat.zero_le _)
  | case4 level inner ih =>
    rw [tokens_paren, Holds]
    exact (ih h).paren.mono (Nat.zero_le _)
  | case5 level e hand hor hnot hparen =>
    -- what is left is a comparison: one atom, which no parentheses enclose
    have hplain : e.isConnective = false := by
      unfold isConnective
      split <;> simp_all
    rw [propext (holds_of_atom hplain v)]
    obtain ⟨hnested, -, hhead⟩ := termTokens h
    exact (LevelMeans.atom hnested hhead (enclosed?_tokens h hplain)).mono (Nat.zero_le _)

theorem isGrouped_mono {e : Expr} {level higher : Nat} (h : e.isGrouped level = true)
    (hle : level ≤ higher) : e.isGrouped higher = true := by
  unfold isGrouped at h ⊢
  split <;> simp_all <;> omega

/-- Only an OR at the top keeps a grouped condition from standing beside an AND. -/
theorem isGrouped_one {e : Expr} (h : e.isGrouped 2 = true) (hor : ∀ left right, e ≠ .binary .or left right) :
    e.isGrouped 1 = true := by
  unfold isGrouped at h ⊢
  split <;> simp_all

end Expr

/-! ## Queries -/

namespace Query

variable {q : Query} {v : List Fragment → Prop}

/-- A further condition is read beside the one that a query has. -/
theorem andWhere_isGrouped {condition : Expr} (hq : ∀ present ∈ q.condition, present.isGrouped 2 = true)
    (hcondition : condition.isGrouped 1 = true ∨ q.condition = none ∧ condition.isGrouped 2 = true) :
    (∀ present ∈ (q.andWhere condition).condition, present.isGrouped 2 = true) ∧
      ((∀ present ∈ (q.andWhere condition).condition, present.Holds v) ↔
        (∀ present ∈ q.condition, present.Holds v) ∧ condition.Holds v) := by
  have hany : condition.isGrouped 2 = true :=
    hcondition.elim (Expr.isGrouped_mono · (Nat.le_succ 1)) (·.2)
  unfold andWhere
  cases hpresent : q.condition with
  | none => simp [hany]
  | some present =>
    have hgrouped := hq present hpresent
    have hone : condition.isGrouped 1 = true :=
      hcondition.resolve_right fun h => by simp [hpresent] at h
    dsimp only
    split
    · rename_i hnone
      exact absurd hnone (by simp)
    · rename_i left right hsome
      obtain rfl := Option.some.inj hsome
      refine ⟨?_, by simp [Expr.and, Expr.Holds]⟩
      simpa [Expr.and, Expr.isGrouped, hone] using hgrouped
    · -- without an OR at its top the present condition may stand beside an AND
      rename_i other hor hsome
      obtain rfl := Option.some.inj hsome
      have hother : present.isGrouped 1 = true :=
        Expr.isGrouped_one hgrouped hor
      exact ⟨by simp [Expr.and, Expr.isGrouped, hother, hone], by simp [Expr.and, Expr.Holds]⟩

/-- The WHERE clause of a query with further conditions. Only the first condition of a query may have an
OR at its top. -/
theorem whereHolds_foldl_andWhere {conditions : List Expr}
    (hq : ∀ present ∈ q.condition, present.isGrouped 2 = true)
    (hall : ∀ e ∈ conditions, e.isGrouped 2 = true)
    (hlater : ∀ e ∈ conditions.drop (if q.condition.isSome then 0 else 1), e.isGrouped 1 = true)
    (layout : Layout) :
    WhereHolds v 0 ((conditions.foldl andWhere q).fragments layout) ↔
      (∀ present ∈ q.condition, present.Holds v) ∧ ∀ e ∈ conditions, e.Holds v := by
  induction conditions generalizing q with
  | nil =>
    rw [List.foldl_nil, whereHolds_fragments]
    simp only [List.not_mem_nil, false_imp_iff, implies_true, and_true]
    exact forall₂_congr fun present hpresent => (Expr.levelMeans (hq present hpresent) v).toReads
  | cons e rest ih =>
    -- once a condition is present, the allowance for an OR at the top is used up
    have he : e.isGrouped 1 = true ∨ q.condition = none ∧ e.isGrouped 2 = true := by
      cases hpresent : q.condition with
      | none => exact .inr ⟨rfl, hall e List.mem_cons_self⟩
      | some present =>
        rw [hpresent] at hlater
        exact .inl (hlater e List.mem_cons_self)
    obtain ⟨hgrouped, hholds⟩ := andWhere_isGrouped (v := v) hq he
    have hpresent : (q.andWhere e).condition.isSome = true := by
      unfold andWhere
      rfl
    have hrest : ∀ e ∈ rest, e.isGrouped 1 = true := by
      intro e he
      refine hlater e ?_
      cases q.condition with
      | none => exact he
      | some present => exact List.mem_cons_of_mem _ he
    rw [List.foldl_cons, ih hgrouped (fun e he => hall e (List.mem_cons_of_mem _ he))
      (by rw [hpresent]; exact hrest), hholds, List.forall_mem_cons, and_assoc]

end Query

end ReportSql
