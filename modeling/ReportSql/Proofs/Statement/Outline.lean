import Mathlib
import ReportSql.Proofs.Statement.Clauses
import ReportSql.Proofs.Statement.Pieces
import ReportSql.Proofs.Token.Trimmed

/-!
# The outline of a statement

Where the clauses of a statement stand in the order of a SELECT and none of their
words is a name, the statement is made of the tokens before its condition, of the
condition, and of the clauses after it. No piece of the printer reaches from one of
these parts into the next, and the parentheses of each part match.

## Main definitions

* `Statement.Orderly` - the clauses are in order and their words are no names
* `Outline` - a statement in three parts
* `Outline.Proper` - parts of which the second is the condition of the outermost SELECT

## Main results

* `Statement.Orderly.exists_outline` - the outline of an orderly statement
-/

namespace ReportSql

/-- The place of a clause in a SELECT. -/
def ClauseKind.rank : ClauseKind → Nat
  | select => 0
  | source => 1
  | condition => 2
  | groupBy => 3
  | having => 4
  | orderBy => 5
  | limit => 6

namespace Statement

open Token

variable {s : Statement} {sql : String} {d : Dialect}

/-! ## Cuts -/

/-- Whether a word after these tokens is a name or a part of an operator, and starts no clause. -/
def namesNext (before : List Token) : Bool :=
  match firstSignificant? before.reverse with
  | some (.punctuation .period) | some (.punctuation .colon) | some (.punctuation .openBrace) => true
  | some t => t.isKeyword "AS" || t.isKeyword "DISTINCT"
  | none => false

theorem namesNext_concat (first : List Token) {t : Token}
    (h : t = .punctuation .colon ∨ t = .punctuation .openBrace) : namesNext (first ++ [t]) = true := by
  unfold namesNext
  rw [List.reverse_concat]
  rcases h with rfl | rfl <;> rfl

theorem whole_of_getLast? {first next : List Token}
    (hlast : ∀ t, first.getLast? = some t → t ≠ .punctuation .colon ∧ t ≠ .punctuation .openBrace)
    (hnext : next.head? ≠ some (.punctuation .closeBrace)) : Whole first next := by
  have hrest : ∀ piece rest : List Token, (∀ t, (piece ++ rest).getLast? = some t →
      t ≠ .punctuation .colon ∧ t ≠ .punctuation .openBrace) →
        ∀ t, rest.getLast? = some t → t ≠ .punctuation .colon ∧ t ≠ .punctuation .openBrace := by
    intro piece rest h t ht
    refine h t ?_
    rw [List.getLast?_append, ht, Option.some_or]
  -- a piece could only be cut behind a colon or a brace at the end
  fun_induction expand .postgres "" first with
  | case1 name rest ih => exact ih (hrest [_, _, _] rest hlast)
  | case2 name rest ih => exact ih (hrest [_, _] rest hlast)
  | case3 t rest hbraces hcolon ih =>
    refine (whole_single (single_iff.2 ⟨?_, ?_⟩)).2 (ih (hrest [t] rest hlast))
    · rintro name more rfl heq
      rcases rest with _ | ⟨first, _ | ⟨second, rest⟩⟩
      · exact (hlast _ rfl).2 rfl
      · obtain ⟨-, rfl⟩ := List.cons.inj heq
        exact hnext rfl
      · obtain ⟨rfl, hmore⟩ := List.cons.inj heq
        obtain ⟨rfl, -⟩ := List.cons.inj hmore
        exact hbraces _ _ rfl rfl
    · rintro name more rfl heq
      rcases rest with _ | ⟨first, rest⟩
      · exact (hlast _ rfl).1 rfl
      · obtain ⟨rfl, -⟩ := List.cons.inj heq
        exact hcolon _ _ rfl rfl
  | case4 => exact whole_nil next

/-- A word that is no name starts a piece. -/
theorem whole_word {first rest : List Token} {word : String} {t : Token}
    (h : namesNext first = false) (ht : t.isKeyword word = true) : Whole first (t :: rest) := by
  refine whole_of_getLast? (fun last hlast => ?_) fun hhead => ?_
  · obtain ⟨init, rfl⟩ := List.getLast?_eq_some_iff.1 hlast
    constructor
    · rintro rfl
      rw [namesNext_concat init (.inl rfl)] at h
      exact Bool.noConfusion h
    · rintro rfl
      rw [namesNext_concat init (.inr rfl)] at h
      exact Bool.noConfusion h
  · exact isKeyword_ne_punctuation ht _ (Option.some.inj hhead)

/-- A position outside of all parentheses that no piece reaches across. -/
structure Cuts (tokens : List Token) (n : Nat) : Prop where
  inside : n ≤ tokens.length
  balanced : Balanced (tokens.take n)
  whole : Whole (tokens.take n) (tokens.drop n)

theorem cuts_length {tokens : List Token} (h : Balanced tokens) : Cuts tokens tokens.length where
  inside := le_rfl
  balanced := by rwa [List.take_length]
  whole := by rw [List.drop_length]; exact whole_nil_right _

/-- The tokens between two positions. -/
theorem Cuts.between {tokens : List Token} {n m : Nat} (hn : Cuts tokens n) (hm : Cuts tokens m)
    (h : n ≤ m) : ∃ mid, tokens.take m = tokens.take n ++ mid ∧
      tokens.drop n = mid ++ tokens.drop m ∧ Balanced mid ∧ Whole mid (tokens.drop m) := by
  obtain ⟨k, rfl⟩ := Nat.exists_eq_add_of_le h
  have htake : tokens.take (n + k) = tokens.take n ++ (tokens.drop n).take k := List.take_add
  have hdrop : tokens.drop n = (tokens.drop n).take k ++ tokens.drop (n + k) := by
    rw [← List.drop_drop, List.take_append_drop]
  refine ⟨(tokens.drop n).take k, htake, hdrop, ?_, ?_⟩
  · exact hn.balanced.of_append (htake ▸ hm.balanced)
  · exact (htake ▸ hm.whole).of_append

/-! ## Orderly statements -/

/-- The clauses of a statement are in the order of a SELECT, and none of their words is a name. -/
structure Orderly (s : Statement) : Prop where
  source : s.hasClause .source = true
  ordered : s.clauses.Pairwise fun earlier later => earlier.kind.rank < later.kind.rank
  unnamed : ∀ c ∈ s.clauses, namesNext (s.tokens.take c.start) = false

instance : Decidable s.Orderly :=
  decidable_of_iff (s.hasClause .source = true ∧
    (s.clauses.Pairwise fun earlier later => earlier.kind.rank < later.kind.rank) ∧
      ∀ c ∈ s.clauses, namesNext (s.tokens.take c.start) = false)
    ⟨fun h => ⟨h.1, h.2.1, h.2.2⟩, fun h => ⟨h.source, h.ordered, h.unnamed⟩⟩

namespace Orderly

/-- A clause of an orderly statement stands at a cut and starts with one of its words. -/
theorem cuts (ho : s.Orderly) (h : parse sql d = .ok s) {c : Clause} (hc : c ∈ s.clauses) :
    Cuts s.tokens c.start ∧ ∃ t rest, s.tokens.drop c.start = t :: rest ∧
      ∃ word ∈ c.kind.words, t.isKeyword word = true := by
  obtain ⟨hlt, hstands⟩ := (parse_found h).2.1 c hc
  obtain ⟨t, rest, hdrop, word, hword, ht⟩ := isKeyword_of_startsClause hstands.starts
  refine ⟨⟨hlt.le, hstands.before, ?_⟩, t, rest, hdrop, word, hword, ht⟩
  rw [hdrop]
  exact whole_word (ho.unnamed c hc) ht

/-- A clause that was found, among the other clauses. -/
structure At (s : Statement) (kind : ClauseKind) (start stop : Nat) : Prop where
  opens : ∃ c ∈ s.clauses, c.kind = kind ∧ c.start = start
  nonempty : start < stop
  earlier : ∀ c ∈ s.clauses, c.kind.rank < kind.rank → c.start < start
  later : ∀ c ∈ s.clauses, kind.rank < c.kind.rank → stop ≤ c.start
  closes : stop = s.tokens.length ∨
    ∃ c ∈ s.clauses, kind.rank < c.kind.rank ∧ c.start = stop

theorem clauseSpan? (ho : s.Orderly) (h : parse sql d = .ok s) {kind : ClauseKind} {start stop : Nat}
    (hspan : s.clauseSpan? kind = some (start, stop)) : At s kind start stop := by
  obtain ⟨-, hstands, hpositions⟩ := parse_found h
  obtain ⟨first, c, rest, hclauses, rfl, rfl, rfl⟩ := spanIn?_eq_some hspan
  have hranks := ho.ordered
  rw [hclauses, List.pairwise_append, List.pairwise_cons] at hranks hpositions
  obtain ⟨-, ⟨hlaterRank, -⟩, hearlierRank⟩ := hranks
  obtain ⟨-, ⟨hlater, hrest⟩, hearlier⟩ := hpositions
  have hc : c ∈ s.clauses := by simp [hclauses]
  have hmem : ∀ c' ∈ s.clauses, c' ∈ first ∨ c' = c ∨ c' ∈ rest := by simp [hclauses]
  -- clauses of other kinds stand before or behind this one, as their ranks say
  refine ⟨⟨c, hc, rfl, rfl⟩, ?_, fun c' hc' hrank => ?_, fun c' hc' hrank => ?_, ?_⟩
  · cases rest with
    | nil => exact (hstands c hc).1
    | cons next rest => exact hlater next List.mem_cons_self
  · rcases hmem c' hc' with hc' | rfl | hc'
    · exact hearlier c' hc' c List.mem_cons_self
    · exact absurd hrank (lt_irrefl _)
    · exact absurd hrank (hlaterRank c' hc').not_gt
  · rcases hmem c' hc' with hc' | rfl | hc'
    · exact absurd hrank (hearlierRank c' hc' c List.mem_cons_self).not_gt
    · exact absurd hrank (lt_irrefl _)
    · cases rest with
      | nil => exact absurd hc' List.not_mem_nil
      | cons next rest =>
        rcases List.mem_cons.1 hc' with rfl | hc'
        · exact le_rfl
        · exact ((List.pairwise_cons.1 hrest).1 c' hc').le
  · cases rest with
    | nil => exact .inl rfl
    | cons next rest =>
      exact .inr ⟨next, by simp [hclauses], hlaterRank next List.mem_cons_self, rfl⟩

end Orderly

end Statement

/-! ## Outlines -/

/-- A statement in parts: the tokens before its condition, the keyword of the condition with the
condition, and the clauses after it. -/
structure Outline where
  before : List Token
  condition? : Option (Token × List Token)
  after : List Token

namespace Outline

open Token Statement

/-- The tokens of the condition with its keyword. -/
def whereTokens (o : Outline) : List Token :=
  match o.condition? with
  | some (keyword, condition) => keyword :: condition
  | none => []

/-- The tokens of all parts. -/
def tokens (o : Outline) : List Token :=
  o.before ++ (o.whereTokens ++ o.after)

/-- The outline of a SELECT: its condition comes after a FROM clause and before the clauses that
follow a condition, all of it outside of parentheses. -/
structure Proper (o : Outline) : Prop where
  select : (firstSignificant? o.before).any (·.isKeyword "SELECT") = true
  source : ∃ first t rest, o.before = first ++ t :: rest ∧ Balanced first ∧ t.isKeyword "FROM" = true
  before : Balanced o.before
  condition : ∀ keyword condition, o.condition? = some (keyword, condition) →
    keyword.isKeyword "WHERE" = true ∧ namesNext o.before = false ∧ Balanced condition
  after : Balanced o.after
  later : o.after = [] ∨ ∃ t rest, o.after = t :: rest ∧
    namesNext (o.before ++ o.whereTokens) = false ∧
      ∃ kind : ClauseKind, ClauseKind.condition.rank < kind.rank ∧
        ∃ word ∈ kind.words, t.isKeyword word = true

/-- The outline of the tokens of a statement up to a position. -/
structure Fits (o : Outline) (s : Statement) (stop : Nat) : Prop where
  tokens_eq : o.tokens = s.tokens.take stop
  span : match o.condition? with
    | some (_, condition) =>
      s.clauseSpan? .condition = some (o.before.length, o.before.length + 1 + condition.length)
    | none => s.clauseSpan? .condition = none ∧
      ∃ start, s.clauseSpan? .source = some (start, o.before.length)
  before : Whole o.before (o.whereTokens ++ (o.after ++ s.tokens.drop stop))
  condition : Whole o.whereTokens (o.after ++ s.tokens.drop stop)
  after : Whole o.after (s.tokens.drop stop)

end Outline

namespace Statement

open Token

variable {s : Statement} {sql : String} {d : Dialect}

namespace Orderly

/-- What is left of a statement behind a clause, up to a later clause or to the end. -/
theorem exists_after (ho : s.Orderly) (h : parse sql d = .ok s) {kind : ClauseKind}
    {start place stop : Nat} (hat : At s kind start place)
    (hkinds : ∀ c ∈ s.clauses, kind.rank < c.kind.rank ↔ ClauseKind.condition.rank < c.kind.rank)
    (hstop : stop = s.tokens.length ∨
      ∃ c ∈ s.clauses, ClauseKind.condition.rank < c.kind.rank ∧ c.start = stop) :
    Cuts s.tokens place ∧ ∃ after, s.tokens.take stop = s.tokens.take place ++ after ∧
      s.tokens.drop place = after ++ s.tokens.drop stop ∧ Balanced after ∧
        Whole after (s.tokens.drop stop) ∧
          (after = [] ∨ ∃ t rest, after = t :: rest ∧ namesNext (s.tokens.take place) = false ∧
            ∃ kind : ClauseKind, ClauseKind.condition.rank < kind.rank ∧
              ∃ word ∈ kind.words, t.isKeyword word = true) := by
  have hend := cuts_length (parse_balanced h)
  have hplace : Cuts s.tokens place := by
    rcases hat.closes with rfl | ⟨c, hc, -, rfl⟩
    · exact hend
    · exact (ho.cuts h hc).1
  have hcut : Cuts s.tokens stop := by
    rcases hstop with rfl | ⟨c, hc, -, rfl⟩
    · exact hend
    · exact (ho.cuts h hc).1
  have hle : place ≤ stop := by
    rcases hstop with rfl | ⟨c, hc, hrank, rfl⟩
    · exact hplace.inside
    · exact hat.later c hc ((hkinds c hc).2 hrank)
  obtain ⟨after, htake, hdrop, hbalanced, hwhole⟩ := hplace.between hcut hle
  refine ⟨hplace, after, htake, hdrop, hbalanced, hwhole, ?_⟩
  -- what is left starts with the keyword of the next clause
  cases after with
  | nil => exact .inl rfl
  | cons t rest =>
    refine .inr ⟨t, rest, rfl, ?_⟩
    rcases hat.closes with rfl | ⟨c, hc, hrank, rfl⟩
    · rw [List.drop_length] at hdrop
      exact absurd hdrop.symm (List.cons_ne_nil _ _)
    · obtain ⟨-, t', rest', hclause, hword⟩ := ho.cuts h hc
      rw [hdrop, List.cons_append] at hclause
      obtain ⟨rfl, -⟩ := List.cons.inj hclause
      exact ⟨ho.unnamed c hc, c.kind, (hkinds c hc).1 hrank, hword⟩

/-- A clause stands in the tokens before a later position. -/
theorem exists_clause (ho : s.Orderly) (h : parse sql d = .ok s) {c : Clause} (hc : c ∈ s.clauses)
    {place : Nat} (hplace : Cuts s.tokens place) (hlt : c.start < place) :
    ∃ t rest, s.tokens.take place = s.tokens.take c.start ++ t :: rest ∧
      Balanced (s.tokens.take c.start) ∧ Balanced (t :: rest) ∧
        (∃ word ∈ c.kind.words, t.isKeyword word = true) ∧
          Whole (s.tokens.take c.start) (t :: (rest ++ s.tokens.drop place)) ∧
            Whole (t :: rest) (s.tokens.drop place) := by
  obtain ⟨hcut, t, more, hdrop, hword⟩ := ho.cuts h hc
  obtain ⟨mid, htake, hmid, hbalanced, hwhole⟩ := hcut.between hplace hlt.le
  have hlength := congrArg List.length htake
  rw [List.length_append, List.length_take, List.length_take, min_eq_left hplace.inside,
    min_eq_left hcut.inside] at hlength
  obtain ⟨t', rest, rfl⟩ : ∃ t' rest, mid = t' :: rest := by
    refine List.exists_cons_of_ne_nil ?_
    rintro rfl
    rw [List.length_nil] at hlength
    omega
  have hwholeFirst := hcut.whole
  rw [hmid, List.cons_append] at hdrop hwholeFirst
  obtain ⟨rfl, -⟩ := List.cons.inj hdrop
  exact ⟨t', rest, htake, hcut.balanced, hbalanced, hword, hwholeFirst, hwhole⟩

/-- The tokens before a position behind a FROM clause hold that clause, after the word SELECT. -/
theorem exists_source (ho : s.Orderly) (h : parse sql d = .ok s)
    (hselect : (firstSignificant? s.tokens).any (·.isKeyword "SELECT") = true) {c : Clause}
    (hc : c ∈ s.clauses) (hkind : c.kind = .source) {place : Nat} (hplace : Cuts s.tokens place)
    (hlt : c.start < place) :
    (firstSignificant? (s.tokens.take place)).any (·.isKeyword "SELECT") = true ∧
      ∃ first t rest, s.tokens.take place = first ++ t :: rest ∧ Balanced first ∧
        t.isKeyword "FROM" = true := by
  obtain ⟨t, rest, htake, hbalanced, -, ⟨word, hword, ht⟩, -⟩ := ho.exists_clause h hc hplace hlt
  rw [hkind] at hword
  obtain rfl := List.mem_singleton.1 hword
  refine ⟨?_, _, t, rest, htake, hbalanced, ht⟩
  cases hsig : firstSignificant? (s.tokens.take place) with
  | none =>
    have hmem : t ∈ s.tokens.take place := by
      rw [htake]
      exact List.mem_append_right _ List.mem_cons_self
    have htrivia := List.all_eq_true.1 (firstSignificant?_eq_none.1 hsig) t hmem
    obtain ⟨value, rfl, -⟩ := isKeyword_iff.1 ht
    exact Bool.noConfusion htrivia
  | some first =>
    have happend := firstSignificant?_append hsig (s.tokens.drop place)
    rw [List.take_append_drop] at happend
    rwa [happend] at hselect

variable {start place stop : Nat}

theorem exists_outline_condition (ho : s.Orderly) (h : parse sql d = .ok s)
    (hselect : (firstSignificant? s.tokens).any (·.isKeyword "SELECT") = true)
    (hspan : s.clauseSpan? .condition = some (start, place))
    (hstop : stop = s.tokens.length ∨
      ∃ c ∈ s.clauses, ClauseKind.condition.rank < c.kind.rank ∧ c.start = stop) :
    ∃ o : Outline, o.Fits s stop ∧ o.Proper := by
  obtain ⟨source, hsource⟩ := Option.isSome_iff_exists.1 ho.source
  have hat := ho.clauseSpan? h hspan
  obtain ⟨hplace, after, htake, hdrop, hbalanced, hwhole, hlater⟩ :=
    ho.exists_after h hat (fun _ _ => Iff.rfl) hstop
  obtain ⟨c, hc, hcondition, rfl⟩ := hat.opens
  obtain ⟨t, condition, hclause, hfirst, hrest, ⟨word, hword, ht⟩, hwholeFirst, hwholeClause⟩ :=
    ho.exists_clause h hc hplace hat.nonempty
  have hcut := (ho.cuts h hc).1
  have hkind : source.kind = .source := by simpa using List.find?_some hsource
  have hmem := List.mem_of_find?_eq_some hsource
  obtain ⟨hselect, hfrom⟩ := ho.exists_source h hselect hmem hkind hcut
    (hat.earlier source hmem (by rw [hkind]; decide))
  rw [hcondition] at hword
  obtain rfl := List.mem_singleton.1 hword
  have hlength := congrArg List.length hclause
  rw [List.length_append, List.length_take, List.length_take, min_eq_left hplace.inside,
    min_eq_left hcut.inside, List.length_cons] at hlength
  rw [hdrop] at hwholeFirst hwholeClause
  rw [hclause] at hlater
  refine ⟨⟨s.tokens.take c.start, some (t, condition), after⟩,
    ⟨?_, ?_, hwholeFirst, hwholeClause, hwhole⟩, ⟨hselect, hfrom, hfirst, ?_, hbalanced, hlater⟩⟩
  · rw [htake, hclause, List.append_assoc]
    rfl
  · dsimp only
    rw [List.length_take, min_eq_left hcut.inside, Nat.add_assoc, Nat.add_comm 1, ← hlength]
    exact hspan
  · rintro keyword condition' heq
    obtain ⟨rfl, rfl⟩ := Prod.mk.inj (Option.some.inj heq)
    exact ⟨ht, ho.unnamed c hc, hrest.tail (isKeyword_ne_punctuation ht _)⟩

theorem exists_outline_source (ho : s.Orderly) (h : parse sql d = .ok s)
    (hselect : (firstSignificant? s.tokens).any (·.isKeyword "SELECT") = true)
    (hcondition : s.clauseSpan? .condition = none)
    (hspan : s.clauseSpan? .source = some (start, place))
    (hstop : stop = s.tokens.length ∨
      ∃ c ∈ s.clauses, ClauseKind.condition.rank < c.kind.rank ∧ c.start = stop) :
    ∃ o : Outline, o.Fits s stop ∧ o.Proper := by
  -- without a WHERE clause, the clauses behind FROM are those that would stand behind WHERE
  have hkinds : ∀ c ∈ s.clauses, ClauseKind.source.rank < c.kind.rank ↔
      ClauseKind.condition.rank < c.kind.rank := by
    intro c hc
    have hne : c.kind ≠ .condition := by
      intro hkind
      have hsome := spanIn?_of_mem hc hkind s.tokens.length
      rw [show spanIn? .condition s.tokens.length s.clauses = none from hcondition] at hsome
      exact Bool.noConfusion hsome
    cases hkind : c.kind <;> first | decide | exact absurd hkind hne
  have hat := ho.clauseSpan? h hspan
  obtain ⟨hplace, after, htake, hdrop, hbalanced, hwhole, hlater⟩ :=
    ho.exists_after h hat hkinds hstop
  obtain ⟨c, hc, hkind, rfl⟩ := hat.opens
  obtain ⟨hselect, hfrom⟩ := ho.exists_source h hselect hc hkind hplace hat.nonempty
  have hwholeFirst := hplace.whole
  rw [hdrop] at hwholeFirst
  rw [← List.append_nil (s.tokens.take place)] at hlater
  refine ⟨⟨s.tokens.take place, none, after⟩, ⟨htake.symm, ⟨hcondition, c.start, ?_⟩, hwholeFirst,
    trivial, hwhole⟩, ⟨hselect, hfrom, hplace.balanced, ?_, hbalanced, hlater⟩⟩
  · rw [List.length_take, min_eq_left hplace.inside]
    exact hspan
  · rintro keyword condition heq
    exact absurd heq (by simp)

/-- An orderly statement has an outline, up to a clause after its condition or up to its end. -/
theorem exists_outline (ho : s.Orderly) (h : parse sql d = .ok s)
    (hselect : (firstSignificant? s.tokens).any (·.isKeyword "SELECT") = true)
    (hstop : stop = s.tokens.length ∨
      ∃ c ∈ s.clauses, ClauseKind.condition.rank < c.kind.rank ∧ c.start = stop) :
    ∃ o : Outline, o.Fits s stop ∧ o.Proper := by
  cases hspan : s.clauseSpan? .condition with
  | some span => exact ho.exists_outline_condition h hselect hspan hstop
  | none =>
    obtain ⟨source, hsource⟩ := Option.isSome_iff_exists.1 ho.source
    obtain ⟨span, hsourceSpan⟩ := Option.isSome_iff_exists.1 (spanIn?_of_mem
      (List.mem_of_find?_eq_some hsource) (by simpa using List.find?_some hsource) s.tokens.length)
    exact ho.exists_outline_source h hselect hspan hsourceSpan hstop

end Orderly

end Statement

end ReportSql
