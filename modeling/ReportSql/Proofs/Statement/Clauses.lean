import Mathlib
import ReportSql.Proofs.Token.Balanced
import ReportSql.Proofs.Validation

/-!
# The clauses of a statement

Every clause that was found starts with a keyword of its kind outside all
parentheses, and it ends where the next clause starts or with the statement.

## Main definitions

* `ClauseKind.words` - the words that start a clause
* `Statement.StartsClause` - tokens that start with the keyword of a clause
* `Statement.StandsIn` - a clause outside all parentheses

## Main results

* `Statement.parse_found` - the clauses of a statement, in the order of its tokens
-/

namespace ReportSql

/-- The words that start a kind of clause. -/
def ClauseKind.words : ClauseKind → List String
  | select => ["SELECT"]
  | source => ["FROM"]
  | condition => ["WHERE"]
  | groupBy => ["GROUP"]
  | having => ["HAVING"]
  | orderBy => ["ORDER"]
  | limit => ["LIMIT", "OFFSET", "FETCH"]

namespace Statement

open Token

/-! ## Scanning -/

/-- Tokens that start with a word of some kind of clause. -/
def StartsClause (kind : ClauseKind) (tokens : List Token) : Prop :=
  ∃ t rest word noneFound, tokens = t :: rest ∧ t.unquotedWord? = some word ∧
    clauseOf? noneFound word rest = some kind

/-- A clause outside all parentheses. -/
structure StandsIn (c : Clause) (tokens : List Token) : Prop where
  before : Balanced (tokens.take c.start)
  starts : StartsClause c.kind (tokens.drop c.start)

/-- What a scan has found in the tokens read so far, given the tokens that are left: the latest clause
first, and each of them further back than the one before. -/
structure ClauseScan.Found (scan : ClauseScan) (first rest : List Token) : Prop where
  depth : Open scan.depth first
  stands : ∀ c ∈ scan.found, c.start < first.length ∧ StandsIn c (first ++ rest)
  ordered : scan.found.Pairwise fun later earlier => earlier.start < later.start

variable {scan final : ClauseScan} {first rest : List Token} {t : Token}

theorem ClauseScan.Found.push (h : scan.Found first (t :: rest)) {depth : Nat}
    (hdepth : Open depth (first ++ [t])) {setOperation : Bool} :
    ClauseScan.Found ⟨depth, scan.found, setOperation⟩ (first ++ [t]) rest where
  depth := hdepth
  stands c hc := by
    obtain ⟨hlt, hstands⟩ := h.stands c hc
    refine ⟨by simp; omega, ?_⟩
    rwa [List.append_assoc, List.singleton_append]
  ordered := h.ordered

theorem ClauseScan.Found.noteWord (h : scan.Found first (t :: rest)) (hdepth : scan.depth = 0)
    {word : String} (hword : t.unquotedWord? = some word) (hopen : Open 0 (first ++ [t])) :
    (scan.noteWord first.length word rest).Found (first ++ [t]) rest := by
  unfold ClauseScan.noteWord
  dsimp only
  rw [hdepth]
  split
  · exact h.push hopen
  · rename_i kind hkind
    split
    · exact h.push hopen
    · refine ⟨hopen, fun c hc => ?_, List.pairwise_cons.2 ⟨fun c hc => (h.stands c hc).1, h.ordered⟩⟩
      rcases List.mem_cons.1 hc with rfl | hc
      · refine ⟨by simp, ?_, ?_⟩
        · have hbefore := h.depth
          rw [hdepth, open_zero_iff] at hbefore
          simpa using hbefore
        · exact ⟨t, rest, word, _, by simp, hword, hkind⟩
      · have hpushed : ClauseScan.Found ⟨0, scan.found, false⟩ (first ++ [t]) rest := h.push hopen
        exact hpushed.stands c hc

theorem ClauseScan.Found.step (h : scan.Found first (t :: rest))
    (hstep : scan.step? first.length t rest = some final) :
    final.Found (first ++ [t]) rest := by
  unfold ClauseScan.step? at hstep
  split at hstep
  · obtain rfl := Option.some.inj hstep
    exact h.push h.depth.openParen
  · split at hstep
    · simp at hstep
    · rename_i depth hdepth
      obtain rfl := Option.some.inj hstep
      have hopen := h.depth
      rw [hdepth] at hopen
      exact h.push hopen.closeParen
  · rename_i hnotOpen hnotClose
    have hopen : Open scan.depth (first ++ [t]) :=
      h.depth.append (.other hnotOpen hnotClose .nil)
    split at hstep
    · rename_i word hdepth hword
      obtain rfl := Option.some.inj hstep
      rw [hdepth] at hopen
      exact h.noteWord hdepth hword hopen
    · obtain rfl := Option.some.inj hstep
      exact h.push hopen

theorem ClauseScan.Found.run (h : scan.Found first rest)
    (hrun : scan.run? first.length rest = some final) :
    Balanced (first ++ rest) ∧ final.Found (first ++ rest) [] := by
  induction rest generalizing scan first with
  | nil =>
    unfold ClauseScan.run? at hrun
    split at hrun
    · rename_i hdepth
      obtain rfl := Option.some.inj hrun
      have hopen := h.depth
      rw [hdepth, open_zero_iff] at hopen
      rw [List.append_nil]
      exact ⟨hopen, h⟩
    · simp at hrun
  | cons t rest ih =>
    unfold ClauseScan.run? at hrun
    split at hrun
    · simp at hrun
    · rename_i next hstep
      have hfound := h.step hstep
      rw [← List.singleton_append, ← List.append_assoc]
      refine ih hfound ?_
      rwa [List.length_append, List.length_singleton]

/-! ## Spans -/

theorem spanIn?_eq_some {kind : ClauseKind} {last start stop : Nat} {clauses : List Clause}
    (h : spanIn? kind last clauses = some (start, stop)) : ∃ first c rest,
      clauses = first ++ c :: rest ∧ c.kind = kind ∧ c.start = start ∧
        stop = (rest.head?.map (·.start)).getD last := by
  induction clauses with
  | nil => simp [spanIn?] at h
  | cons clause rest ih =>
    unfold spanIn? at h
    split at h
    · rename_i hkind
      obtain ⟨rfl, rfl⟩ := Prod.mk.inj (Option.some.inj h)
      exact ⟨[], clause, rest, rfl, hkind, rfl, rfl⟩
    · obtain ⟨first, c, more, rfl, hc⟩ := ih h
      exact ⟨clause :: first, c, more, rfl, hc⟩

theorem spanIn?_of_mem {kind : ClauseKind} {clauses : List Clause} {c : Clause} (hc : c ∈ clauses)
    (hkind : c.kind = kind) (last : Nat) : (spanIn? kind last clauses).isSome = true := by
  induction clauses with
  | nil => exact absurd hc List.not_mem_nil
  | cons clause rest ih =>
    unfold spanIn?
    split
    · rfl
    · rename_i hne
      rcases List.mem_cons.1 hc with rfl | hc
      · exact absurd hkind hne
      · exact ih hc

variable {s : Statement} {sql : String} {d : Dialect}

theorem parse_found (h : parse sql d = .ok s) : Balanced s.tokens ∧
    (∀ c ∈ s.clauses, c.start < s.tokens.length ∧ StandsIn c s.tokens) ∧
      s.clauses.Pairwise fun earlier later => earlier.start < later.start := by
  obtain ⟨-, -, -, -, scan, hrun, hclauses, -⟩ := parse_eq_ok h
  have hstart : ClauseScan.Found ⟨0, [], false⟩ [] s.tokens :=
    ⟨.balanced .nil, fun c hc => absurd hc List.not_mem_nil, .nil⟩
  obtain ⟨hbalanced, hfound⟩ := hstart.run hrun
  rw [List.nil_append] at hbalanced hfound
  refine ⟨hbalanced, fun c hc => ?_, ?_⟩
  · rw [hclauses, List.mem_reverse] at hc
    obtain ⟨hlt, hstands⟩ := hfound.stands c hc
    rw [List.append_nil] at hstands
    exact ⟨hlt, hstands⟩
  · rw [hclauses, List.pairwise_reverse]
    exact hfound.ordered

/-- The parentheses of a statement match. -/
theorem parse_balanced (h : parse sql d = .ok s) : Balanced s.tokens :=
  (parse_found h).1

/-- A clause starts with one of its words. -/
theorem isKeyword_of_startsClause {kind : ClauseKind} {tokens : List Token}
    (h : StartsClause kind tokens) :
    ∃ t rest, tokens = t :: rest ∧ ∃ word ∈ kind.words, t.isKeyword word = true := by
  obtain ⟨t, rest, word, noneFound, rfl, hword, hkind⟩ := h
  refine ⟨t, rest, rfl, word, ?_, by rw [isKeyword, hword, beq_self_eq_true]⟩
  unfold clauseOf? at hkind
  dsimp only at hkind
  split at hkind
  case h_1 | h_4 | h_6 =>
    split at hkind
    · obtain rfl := Option.some.inj hkind
      decide
    · simp at hkind
  case h_10 => simp at hkind
  all_goals
    obtain rfl := Option.some.inj hkind
    decide

end Statement

end ReportSql
