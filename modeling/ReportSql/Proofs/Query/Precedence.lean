import ReportSql.Proofs.Query.Nested

/-!
# Conditions read with SQL precedence

The tokens of a condition are read as a database reads them: a disjunction of
conjunctions of possibly negated conditions in parentheses and atoms. Comparisons, LIKE
and IN bind tighter than NOT, NOT tighter than AND and AND tighter than OR. Whether an
atom holds is left open, but for the comparison that holds of no row.

## Main definitions

* `Fragment.Reads` - whether the tokens of a condition hold, given which atoms do
* `Fragment.LevelMeans` - tokens with what is read from them as a factor, conjunction or disjunction
* `Expr.Holds` - whether an expression holds, as a tree
* `Expr.Printed` - the expressions whose printed form keeps their structure

## Main results

* `Expr.Printed.reads` - what is read from such an expression is the expression
-/

namespace ReportSql

namespace Fragment

/-- The depth of parentheses after a fragment. -/
def depthAfter (depth : Nat) : Fragment → Nat
  | openParen => depth + 1
  | closeParen => depth - 1
  | _ => depth

/-- The parts between the occurrences of an operator outside of parentheses. -/
def splitAtOp (op : BinaryOp) : Nat → List Fragment → List (List Fragment)
  | _, [] => [[]]
  | depth, f :: rest =>
    if depth = 0 ∧ f = operator op then [] :: splitAtOp op 0 rest
    else (splitAtOp op (depthAfter depth f) rest).modifyHead (f :: ·)

/-- What stands before a closing parenthesis at the very end, if no earlier one closes as much. -/
def untilLast? : Nat → List Fragment → Option (List Fragment)
  | _, [] => none
  | 0, closeParen :: rest => if rest = [] then some [] else none
  | depth, f :: rest => (untilLast? (depthAfter depth f) rest).map (f :: ·)

/-- The inside of a condition in parentheses. -/
def enclosed? : List Fragment → Option (List Fragment)
  | openParen :: rest => untilLast? 0 rest
  | _ => none

/-- The tokens of the comparison that holds of no row. -/
def falsehood : List Fragment :=
  tokens Expr.never.fragments

/-- Whether an atom holds: one that is false in every database does not. -/
def AtomHolds (v : List Fragment → Prop) (atom : List Fragment) : Prop :=
  v atom ∧ atom ≠ falsehood

/-- Whether a factor of a conjunction holds: a negation, a condition in parentheses or an atom.
What follows a NOT and what stands in parentheses is read by `read`. -/
def FactorHolds (v : List Fragment → Prop) (read : List Fragment → Prop) :
    List Fragment → Prop
  | keyword .not_ :: rest => ¬ read rest
  | factor =>
    match enclosed? factor with
    | some inner => read inner
    | none => AtomHolds v factor

/-- Whether the tokens of a condition hold, read with less than `fuel` levels. -/
def ReadsWithin (v : List Fragment → Prop) : Nat → List Fragment → Prop
  | 0, _ => False
  | fuel + 1, condition =>
    ∃ disjunct ∈ splitAtOp .or 0 condition, ∀ factor ∈ splitAtOp .and 0 disjunct,
      FactorHolds v (ReadsWithin v fuel) factor

/-- Whether the tokens of a condition hold, given the atoms that do. -/
def Reads (v : List Fragment → Prop) (condition : List Fragment) : Prop :=
  ReadsWithin v (condition.length + 1) condition

/-! ## Splitting -/

theorem splitAtOp_ne_nil (op : BinaryOp) (depth : Nat) (fragments : List Fragment) :
    splitAtOp op depth fragments ≠ [] := by
  induction fragments generalizing depth with
  | nil => simp [splitAtOp]
  | cons f rest ih =>
    rw [splitAtOp]
    split
    · simp
    · simpa [List.modifyHead_eq_nil_iff] using ih (depthAfter depth f)

theorem depthAfter_of_ne {f : Fragment} (hopen : f ≠ .openParen) (hclose : f ≠ .closeParen)
    (depth : Nat) : depthAfter depth f = depth := by
  cases f <;> first | rfl | contradiction

theorem modifyHead_cons_append (f : Fragment) (fragments : List Fragment)
    (parts : List (List Fragment)) :
    parts.modifyHead ((f :: fragments) ++ ·) =
      (parts.modifyHead (fragments ++ ·)).modifyHead (f :: ·) := by
  cases parts <;> rfl

/-- Fragments with closed parentheses that do not hold the operator outside of them belong to the
first part. -/
theorem splitAtOp_nested {op : BinaryOp} {free : Fragment → Prop} {fragments : List Fragment}
    (h : Nested free fragments) (depth : Nat)
    (hfree : depth = 0 → ∀ f, free f → f ≠ operator op) (next : List Fragment) :
    splitAtOp op depth (fragments ++ next) =
      (splitAtOp op depth next).modifyHead (fragments ++ ·) := by
  induction h generalizing depth next with
  | nil =>
    cases hparts : splitAtOp op depth next with
    | nil => exact absurd hparts (splitAtOp_ne_nil op depth next)
    | cons part parts => simp [hparts]
  | @cons free f rest hopen hclose hf _ ih =>
    have hnot : ¬ (depth = 0 ∧ f = operator op) := fun h => hfree h.1 f hf h.2
    rw [List.cons_append, splitAtOp, if_neg hnot, depthAfter_of_ne hopen hclose, ih depth hfree,
      ← modifyHead_cons_append]
  | @enclosed free inner rest _ _ ihinner ihrest =>
    have hdeep : ∀ {f : Fragment}, ¬ (depth + 1 = 0 ∧ f = operator op) := by simp
    have hshallow : ¬ (depth = 0 ∧ openParen = operator op) := by simp
    rw [List.cons_append, List.append_assoc, List.cons_append, splitAtOp, if_neg hshallow]
    rw [depthAfter, ihinner (depth + 1) (by simp), splitAtOp, if_neg hdeep]
    have hclosed : depthAfter (depth + 1) closeParen = depth := rfl
    rw [hclosed, ihrest depth hfree]
    cases splitAtOp op depth next <;> simp

/-- Fragments with closed parentheses are split apart from what an operator joins them to. -/
theorem splitAtOp_append {op : BinaryOp} {free : Fragment → Prop} {fragments : List Fragment}
    (h : Nested free fragments) (next : List Fragment) :
    splitAtOp op 0 (fragments ++ operator op :: next) =
      splitAtOp op 0 fragments ++ splitAtOp op 0 next := by
  -- there is always a first part, so what is pushed onto it stays in it
  have hpush : ∀ (f : Fragment) (first second : List (List Fragment)), first ≠ [] →
      (first ++ second).modifyHead (f :: ·) = first.modifyHead (f :: ·) ++ second := by
    intro f first second hfirst
    cases first with
    | nil => exact absurd rfl hfirst
    | cons part parts => rfl
  induction h with
  | nil => simp [splitAtOp]
  | @cons free f rest hopen hclose _ _ ih =>
    rw [List.cons_append, splitAtOp, splitAtOp, depthAfter_of_ne hopen hclose, ih]
    split
    · rfl
    · exact hpush f _ _ (splitAtOp_ne_nil op 0 rest)
  | @enclosed free inner rest hinner hrest _ ih =>
    have hparen : Nested (fun f => f ≠ operator op) (openParen :: (inner ++ [closeParen])) :=
      .enclosed hinner .nil
    have hsplit := splitAtOp_nested hparen 0 (fun _ _ hf => hf)
    have hassoc : openParen :: (inner ++ closeParen :: rest) =
        (openParen :: (inner ++ [closeParen])) ++ rest := by simp
    rw [hassoc, List.append_assoc, hsplit, hsplit, ih]
    cases hparts : splitAtOp op 0 rest with
    | nil => exact absurd hparts (splitAtOp_ne_nil op 0 rest)
    | cons part parts => rfl

theorem splitAtOp_single {op : BinaryOp} {fragments : List Fragment}
    (h : Nested (fun f => f ≠ operator op) fragments) : splitAtOp op 0 fragments = [fragments] := by
  have hsplit := splitAtOp_nested h 0 (fun _ _ hf => hf) []
  rw [List.append_nil] at hsplit
  rw [hsplit, splitAtOp]
  simp

theorem untilLast?_nested {free : Fragment → Prop} {fragments : List Fragment}
    (h : Nested free fragments) (depth : Nat) (next : List Fragment) :
    untilLast? depth (fragments ++ next) = (untilLast? depth next).map (fragments ++ ·) := by
  induction h generalizing depth next with
  | nil => simp
  | @cons free f rest hopen hclose _ _ ih =>
    rw [List.cons_append, untilLast?, depthAfter_of_ne hopen hclose, ih]
    · cases untilLast? depth next <;> rfl
    · exact fun _ hf => hclose hf
  | @enclosed free inner rest _ _ ihinner ihrest =>
    rw [List.cons_append, List.append_assoc, List.cons_append, untilLast?, depthAfter, ihinner,
      untilLast?, depthAfter, Nat.add_sub_cancel, ihrest]
    · cases untilLast? depth next <;> simp
    · simp
    · simp

theorem enclosed?_paren {free : Fragment → Prop} {inner : List Fragment} (h : Nested free inner) :
    enclosed? (openParen :: (inner ++ [closeParen])) = some inner := by
  rw [enclosed?, untilLast?_nested h, untilLast?]
  simp

/-- Where something follows the parentheses at the start, they do not enclose everything. -/
theorem enclosed?_eq_none {free : Fragment → Prop} {first : List Fragment} (h : Nested free first)
    (hne : first ≠ []) (f : Fragment) (rest : List Fragment) : enclosed? (first ++ f :: rest) = none := by
  cases h with
  | nil => exact absurd rfl hne
  | @cons _ g more hopen =>
    rw [List.cons_append, enclosed?]
    exact fun _ heq => hopen (List.cons.inj heq).1
  | @enclosed _ inner more hinner =>
    have hmore : more ++ f :: rest ≠ [] := by simp
    rw [List.cons_append, enclosed?, List.append_assoc, List.cons_append, untilLast?_nested hinner,
      untilLast?, if_neg hmore]
    rfl

/-! ## Fuel -/

theorem length_le_of_mem_splitAtOp {op : BinaryOp} {depth : Nat} {fragments part : List Fragment}
    (h : part ∈ splitAtOp op depth fragments) : part.length ≤ fragments.length := by
  induction fragments generalizing depth part with
  | nil =>
    obtain rfl := List.mem_singleton.1 h
    exact le_rfl
  | cons f rest ih =>
    rw [splitAtOp] at h
    rw [List.length_cons]
    split at h
    · rcases List.mem_cons.1 h with rfl | h
      · exact Nat.zero_le _
      · exact (ih h).trans (Nat.le_succ _)
    · cases hparts : splitAtOp op (depthAfter depth f) rest with
      | nil => exact absurd hparts (splitAtOp_ne_nil _ _ _)
      | cons first parts =>
        rw [hparts] at h
        rcases List.mem_cons.1 h with rfl | h
        · exact Nat.succ_le_succ (ih (hparts ▸ List.mem_cons_self))
        · exact (ih (hparts ▸ List.mem_cons_of_mem _ h)).trans (Nat.le_succ _)

theorem length_lt_of_untilLast? {depth : Nat} {fragments inner : List Fragment}
    (h : untilLast? depth fragments = some inner) : inner.length < fragments.length := by
  fun_induction untilLast? depth fragments generalizing inner with
  | case1 => simp at h
  | case2 =>
    obtain rfl := Option.some.inj h
    exact Nat.zero_lt_succ _
  | case3 => simp at h
  | case4 depth f rest hclose ih =>
    obtain ⟨more, hmore, rfl⟩ := Option.map_eq_some_iff.1 h
    exact Nat.succ_lt_succ (ih hmore)

theorem length_lt_of_enclosed? {fragments inner : List Fragment}
    (h : enclosed? fragments = some inner) : inner.length < fragments.length := by
  unfold enclosed? at h
  split at h
  · exact (length_lt_of_untilLast? h).trans (Nat.lt_succ_self _)
  · simp at h

/-- A factor is read through what is shorter. -/
theorem factorHolds_congr {v read read' : List Fragment → Prop} {factor : List Fragment}
    (h : ∀ fragments, fragments.length < factor.length → (read fragments ↔ read' fragments)) :
    FactorHolds v read factor ↔ FactorHolds v read' factor := by
  unfold FactorHolds
  split
  · exact not_congr (h _ (Nat.lt_succ_self _))
  · split
    · rename_i inner hinner
      exact h inner (length_lt_of_enclosed? hinner)
    · exact Iff.rfl

/-- More fuel than tokens makes no difference. -/
theorem readsWithin_congr {v : List Fragment → Prop} {fuel fuel' : Nat} {fragments : List Fragment}
    (h : fragments.length < fuel) (h' : fragments.length < fuel') :
    ReadsWithin v fuel fragments ↔ ReadsWithin v fuel' fragments := by
  induction fuel generalizing fuel' fragments with
  | zero => exact absurd h (Nat.not_lt_zero _)
  | succ fuel ih =>
    obtain ⟨fuel', rfl⟩ := Nat.exists_eq_succ_of_ne_zero (Nat.ne_zero_of_lt h')
    rw [ReadsWithin, ReadsWithin]
    refine exists_congr fun disjunct => and_congr_right fun hdisjunct =>
      forall₂_congr fun factor hfactor => factorHolds_congr fun shorter hshorter => ?_
    have hlength := (length_le_of_mem_splitAtOp hfactor).trans (length_le_of_mem_splitAtOp hdisjunct)
    exact ih (by omega) (by omega)

/-! ## Levels -/

/-- What stands outside of parentheses in the tokens of a factor, a conjunction and a disjunction. -/
def LevelFree : Nat → Fragment → Prop
  | 0, f => f ≠ operator .and ∧ f ≠ operator .or
  | 1, f => f ≠ operator .or
  | _, _ => True

instance : DecidablePred (LevelFree 0) := fun f =>
  inferInstanceAs (Decidable (f ≠ operator .and ∧ f ≠ operator .or))

/-- Whether the tokens of a factor, a conjunction or a disjunction hold. -/
def LevelReads (v : List Fragment → Prop) (fuel : Nat) : Nat → List Fragment → Prop
  | 0, factor => FactorHolds v (ReadsWithin v fuel) factor
  | 1, conjunction =>
    ∀ factor ∈ splitAtOp .and 0 conjunction, FactorHolds v (ReadsWithin v fuel) factor
  | _, disjunction => ReadsWithin v (fuel + 1) disjunction

/-- A factor is a conjunction of its own, and a conjunction a disjunction. -/
theorem levelReads_succ {v : List Fragment → Prop} {fuel level : Nat} {fragments : List Fragment}
    (h : Nested (LevelFree level) fragments) :
    LevelReads v fuel (level + 1) fragments ↔ LevelReads v fuel level fragments := by
  match level with
  | 0 => simp [LevelReads, splitAtOp_single (h.mono fun f hf => hf.1)]
  | 1 => simp [LevelReads, ReadsWithin, splitAtOp_single (h.mono fun f hf => hf)]
  | level + 2 => rfl

/-- The tokens of a factor, a conjunction or a disjunction with what is read from them. -/
structure LevelMeans (v : List Fragment → Prop) (level : Nat) (fragments : List Fragment) (p : Prop) :
    Prop where
  nested : Nested (LevelFree level) fragments
  reads : ∀ fuel, fragments.length ≤ fuel → (LevelReads v fuel level fragments ↔ p)

namespace LevelMeans

variable {v : List Fragment → Prop} {level : Nat} {fragments first second : List Fragment}
  {p p₁ p₂ : Prop}

theorem atom (hnested : Nested (LevelFree 0) fragments)
    (hnot : fragments.head? ≠ some (.keyword .not_)) (hparen : enclosed? fragments = none) :
    LevelMeans v 0 fragments (AtomHolds v fragments) := by
  refine ⟨hnested, fun fuel _ => ?_⟩
  rw [LevelReads, FactorHolds]
  · rw [hparen]
  · rintro rest rfl
    exact hnot rfl

/-- What has closed parentheses is a disjunction of its own. -/
theorem self (h : Nested (fun _ => True) fragments) : LevelMeans v 2 fragments (Reads v fragments) := by
  refine ⟨h, fun fuel hfuel => ?_⟩
  have hreads : LevelReads v fuel 2 fragments = ReadsWithin v (fuel + 1) fragments := rfl
  rw [hreads, Reads]
  exact readsWithin_congr (Nat.lt_succ_of_le hfuel) (Nat.lt_succ_self _)

theorem toReads (h : LevelMeans v 2 fragments p) : Reads v fragments ↔ p :=
  h.reads _ le_rfl

theorem lift (h : LevelMeans v level fragments p) : LevelMeans v (level + 1) fragments p := by
  refine ⟨h.nested.mono fun f hf => ?_, fun fuel hfuel => ?_⟩
  · match level with
    | 0 => exact hf.2
    | 1 | level + 2 => exact trivial
  · rw [levelReads_succ h.nested]
    exact h.reads fuel hfuel

theorem mono (h : LevelMeans v level fragments p) {higher : Nat} (hle : level ≤ higher) :
    LevelMeans v higher fragments p := by
  induction hle with
  | refl => exact h
  | step _ ih => exact ih.lift

/-- What is read of a level is read with less fuel than there are tokens around it. -/
theorem readsWithin (h : LevelMeans v 2 fragments p) {fuel : Nat} (hfuel : fragments.length < fuel) :
    ReadsWithin v fuel fragments ↔ p :=
  (readsWithin_congr hfuel (Nat.lt_succ_self _)).trans h.toReads

theorem not (h : LevelMeans v 0 fragments p) : LevelMeans v 0 (.keyword .not_ :: fragments) (¬ p) := by
  refine ⟨.cons (by simp) (by simp) (by simp [LevelFree]) h.nested, fun fuel hfuel => ?_⟩
  rw [LevelReads, FactorHolds]
  exact not_congr (h.lift.lift.readsWithin hfuel)

theorem paren (h : LevelMeans v 2 fragments p) :
    LevelMeans v 0 (.openParen :: (fragments ++ [.closeParen])) p := by
  refine ⟨.enclosed h.nested .nil, fun fuel hfuel => ?_⟩
  rw [LevelReads, FactorHolds, enclosed?_paren h.nested]
  · refine h.readsWithin (lt_of_lt_of_le ?_ hfuel)
    rw [List.length_cons, List.length_append]
    omega
  · simp

theorem and (hfirst : LevelMeans v 1 first p₁) (hsecond : LevelMeans v 1 second p₂) :
    LevelMeans v 1 (first ++ .operator .and :: second) (p₁ ∧ p₂) := by
  refine ⟨hfirst.nested.append (.cons (by simp) (by simp) (by simp [LevelFree]) hsecond.nested),
    fun fuel hfuel => ?_⟩
  rw [List.length_append, List.length_cons] at hfuel
  rw [← hfirst.reads fuel (by omega), ← hsecond.reads fuel (by omega)]
  simp only [LevelReads, splitAtOp_append hfirst.nested, List.mem_append, or_imp, forall_and]

theorem or (hfirst : LevelMeans v 2 first p₁) (hsecond : LevelMeans v 2 second p₂) :
    LevelMeans v 2 (first ++ .operator .or :: second) (p₁ ∨ p₂) := by
  refine ⟨hfirst.nested.append (.cons (by simp) (by simp) (by simp [LevelFree]) hsecond.nested),
    fun fuel hfuel => ?_⟩
  rw [List.length_append, List.length_cons] at hfuel
  rw [← hfirst.reads fuel (by omega), ← hsecond.reads fuel (by omega)]
  simp only [LevelReads, ReadsWithin, splitAtOp_append hfirst.nested, List.mem_append, or_and_right,
    exists_or]

end LevelMeans

end Fragment

open Fragment

namespace Expr

/-- The tokens of an expression. -/
def tokens (e : Expr) : List Fragment :=
  Fragment.tokens e.fragments

/-- Whether an expression is put together from conditions. -/
def isConnective : Expr → Bool
  | .binary .and _ _ | .binary .or _ _ | .not _ | .paren _ => true
  | _ => false

/-- Whether an expression holds, given the atoms that do. -/
def Holds (v : List Fragment → Prop) : Expr → Prop
  | .binary .and left right => left.Holds v ∧ right.Holds v
  | .binary .or left right => left.Holds v ∨ right.Holds v
  | .not operand => ¬ operand.Holds v
  | .paren inner => inner.Holds v
  | e => AtomHolds v e.tokens

theorem holds_of_atom {e : Expr} (h : e.isConnective = false) (v : List Fragment → Prop) :
    e.Holds v ↔ AtomHolds v e.tokens := by
  unfold Holds
  split <;> simp_all [isConnective]

/-- An atom stands for itself: it has no AND or OR outside of parentheses and starts with neither
NOT nor a parenthesis. -/
structure IsAtom (e : Expr) : Prop where
  plain : e.isConnective = false
  nested : Nested (LevelFree 0) e.tokens
  head : ∃ f rest, e.tokens = f :: rest ∧ f ≠ .keyword .not_ ∧ f ≠ .openParen

/-- The expressions whose printed form keeps their structure: factors at level 0, conjunctions at
level 1 and disjunctions at level 2. -/
inductive Printed : Nat → Expr → Prop
  | atom {e : Expr} (h : e.IsAtom) : Printed 0 e
  | not {e : Expr} (h : Printed 0 e) : Printed 0 (.not e)
  | paren {e : Expr} (h : Printed 2 e) : Printed 0 (.paren e)
  | and {left right : Expr} (hleft : Printed 1 left) (hright : Printed 1 right) :
      Printed 1 (left.and right)
  | or {left right : Expr} (hleft : Printed 2 left) (hright : Printed 2 right) :
      Printed 2 (left.or right)
  | lift {level : Nat} {e : Expr} (h : Printed level e) : Printed (level + 1) e

theorem tokens_binary (op : BinaryOp) (left right : Expr) :
    (Expr.binary op left right).tokens = left.tokens ++ .operator op :: right.tokens := by
  simp [tokens, Expr.fragments, isBlank]

theorem tokens_not (operand : Expr) :
    (Expr.not operand).tokens = .keyword .not_ :: operand.tokens := by
  simp [tokens, Expr.fragments, isBlank]

theorem tokens_paren (inner : Expr) :
    (Expr.paren inner).tokens = .openParen :: (inner.tokens ++ [.closeParen]) := by
  simp [tokens, Expr.fragments, isBlank]

/-- Every level of an expression is read as the expression. -/
theorem Printed.levelMeans {level : Nat} {e : Expr} (h : Printed level e)
    (v : List Fragment → Prop) : LevelMeans v level e.tokens (e.Holds v) := by
  induction h with
  | @atom e h =>
    obtain ⟨f, rest, htokens, hnot, hopen⟩ := h.head
    have hparen : enclosed? e.tokens = none := by
      rw [htokens, enclosed?]
      exact fun _ heq => hopen (List.cons.inj heq).1
    rw [propext (holds_of_atom h.plain v)]
    exact .atom h.nested (by rw [htokens]; simpa using hnot) hparen
  | not _ ih =>
    rw [tokens_not]
    exact ih.not
  | paren _ ih =>
    rw [tokens_paren]
    exact ih.paren
  | and _ _ ihleft ihright =>
    rw [Expr.and, tokens_binary]
    exact ihleft.and ihright
  | or _ _ ihleft ihright =>
    rw [Expr.or, tokens_binary]
    exact ihleft.or ihright
  | lift _ ih => exact ih.lift

/-- What is read from a printed expression is the expression. -/
theorem Printed.reads {e : Expr} (h : Printed 2 e) (v : List Fragment → Prop) :
    Reads v e.tokens ↔ e.Holds v :=
  (h.levelMeans v).toReads

end Expr

/-! ## Chains of conditions -/

theorem holds_foldl_and (v : List Fragment → Prop) (first : Expr) (rest : List Expr) :
    (rest.foldl Expr.and first).Holds v ↔ ∀ e ∈ first :: rest, e.Holds v := by
  induction rest generalizing first with
  | nil => simp
  | cons e rest ih =>
    rw [List.foldl_cons, ih]
    simp [Expr.and, Expr.Holds, and_assoc]

end ReportSql
