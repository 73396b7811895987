import ReportSql.Proofs.Statement.Clauses
import ReportSql.Proofs.Token.Trimmed

/-!
# The sections of a SELECT

A SELECT as its author writes it: sections in their order, each a keyword with what
belongs to it. The scan for clauses looks at the words outside of parentheses only
and at nothing before them. So it finds the sections, WINDOW apart, exactly when
no other word there starts a clause of another kind or combines two SELECTs.

## Main definitions

* `Section`, `AuthorSelect` - the sections of a SELECT
* `AuthorSelect.clauses` - the clauses that the sections stand for
* `AuthorSelect.Clear` - no word inside a section is taken for a clause

## Main results

* `AuthorSelect.exists_run` - when the scan finds the sections and nothing else
-/

namespace ReportSql

open Token

/-! ## Sections -/

/-- The kinds of sections, in the order of a SELECT. -/
inductive SectionKind where
  | select
  | source
  | condition
  | groupBy
  | having
  | window
  | orderBy
  | limit
deriving DecidableEq, Repr

namespace SectionKind

/-- The clause that a section stands for. A WINDOW section is no clause of its own. -/
def clause? : SectionKind → Option ClauseKind
  | select => some .select
  | source => some .source
  | condition => some .condition
  | groupBy => some .groupBy
  | having => some .having
  | window => none
  | orderBy => some .orderBy
  | limit => some .limit

/-- The place of a section in a SELECT. -/
def rank : SectionKind → Nat
  | select => 0
  | source => 1
  | condition => 2
  | groupBy => 3
  | having => 4
  | window => 5
  | orderBy => 6
  | limit => 7

/-- The words that open a section. -/
def words (kind : SectionKind) : List String :=
  match kind.clause? with
  | some clause => clause.words
  | none => ["WINDOW"]

/-- Whether the word BY belongs to the keyword. -/
def takesBy : SectionKind → Bool
  | groupBy | orderBy => true
  | _ => false

/-- Every word of a kind opens a section of that kind. -/
theorem opens_word {kind : SectionKind} {word : String} (h : word ∈ kind.words) :
    ∃ opening ∈ kind.words, (Token.word word none).isKeyword opening = true := by
  have hall : ∀ kind : SectionKind, ∀ word ∈ kind.words,
      (Token.word word none).isKeyword word = true := by
    intro kind
    cases kind <;> decide +kernel
  exact ⟨word, h, hall kind word h⟩

theorem clause?_injective {first second : SectionKind} {clause : ClauseKind}
    (h : first.clause? = some clause) (h' : second.clause? = some clause) : first = second := by
  have hsame := h.trans h'.symm
  cases first <;> cases second <;> first | rfl | cases hsame

theorem clause?_eq_none {kind : SectionKind} : kind.clause? = none ↔ kind = .window := by
  cases kind <;> simp [clause?]

end SectionKind

/-- A keyword with what belongs to it, the word BY included. -/
structure Section where
  kind : SectionKind
  keyword : Token
  body : List Token
  opens : ∃ word ∈ kind.words, keyword.isKeyword word = true
  takesBy : kind.takesBy = true → (firstSignificant? body).any (·.isKeyword "BY") = true
  balanced : Balanced body

/-- The tokens of a section. -/
def Section.tokens (x : Section) : List Token :=
  x.keyword :: x.body

/-- A SELECT with a FROM: blanks and comments, and sections in their order. -/
structure AuthorSelect where
  lead : Gap
  select : Section
  source : Section
  others : List Section
  isSelect : select.kind = .select
  isSource : source.kind = .source
  ordered : (select :: source :: others).Pairwise fun x y => x.kind.rank < y.kind.rank

/-- The tokens of several sections. -/
def sectionTokens (sections : List Section) : List Token :=
  sections.flatMap Section.tokens

/-- The clauses of sections that start at a position. -/
def clausesFrom : Nat → List Section → List Clause
  | _, [] => []
  | start, x :: rest =>
    (x.kind.clause?.map fun kind => ⟨kind, start⟩).toList ++
      clausesFrom (start + x.tokens.length) rest

namespace AuthorSelect

/-- The sections of a SELECT. -/
def sections (q : AuthorSelect) : List Section :=
  q.select :: q.source :: q.others

/-- The tokens of a SELECT. -/
def tokens (q : AuthorSelect) : List Token :=
  q.lead.1 ++ sectionTokens q.sections

/-- The clauses of a SELECT. -/
def clauses (q : AuthorSelect) : List Clause :=
  clausesFrom q.lead.1.length q.sections

/-- The position behind the first sections of a SELECT. -/
def place (q : AuthorSelect) (first : List Section) : Nat :=
  q.lead.1.length + (sectionTokens first).length

end AuthorSelect

/-! ## Words outside of parentheses -/

/-- The unquoted words outside of parentheses, each with the tokens after it. -/
def outerWords : Nat → List Token → List (String × List Token)
  | _, [] => []
  | depth, .punctuation .openParen :: rest => outerWords (depth + 1) rest
  | depth, .punctuation .closeParen :: rest => outerWords (depth - 1) rest
  | 0, t :: rest => (t.unquotedWord?.map fun word => (word, rest)).toList ++ outerWords 0 rest
  | depth + 1, _ :: rest => outerWords (depth + 1) rest

/-- A word that stays in the clause it stands in: it combines no SELECTs and starts no clause of
another kind. -/
def StaysIn (current : ClauseKind) (word : String) (rest : List Token) : Prop :=
  Statement.isSetOperation word = false ∧
    ∀ kind ∈ Statement.clauseOf? false word rest, kind = current

instance (current : ClauseKind) (word : String) (rest : List Token) :
    Decidable (StaysIn current word rest) :=
  inferInstanceAs (Decidable (_ ∧ _))

/-- No word outside of parentheses leaves the clause that the tokens stand in. -/
def Quiet (current : ClauseKind) (tokens : List Token) : Prop :=
  ∀ w ∈ outerWords 0 tokens, StaysIn current w.1 w.2

instance (current : ClauseKind) (tokens : List Token) : Decidable (Quiet current tokens) :=
  inferInstanceAs (Decidable (∀ _ ∈ _, _))

/-- No word inside a section is taken for a clause of another kind than the latest one. -/
def ClearFrom : ClauseKind → List Section → Prop
  | _, [] => True
  | current, x :: rest =>
    Quiet (x.kind.clause?.getD current) x.body ∧ ClearFrom (x.kind.clause?.getD current) rest

instance decidableClearFrom : ∀ current sections, Decidable (ClearFrom current sections)
  | _, [] => isTrue trivial
  | current, x :: rest =>
    haveI := decidableClearFrom (x.kind.clause?.getD current) rest
    inferInstanceAs (Decidable (_ ∧ _))

/-- No word inside a section is taken for a clause. -/
def AuthorSelect.Clear (q : AuthorSelect) : Prop :=
  ClearFrom .select q.sections

instance (q : AuthorSelect) : Decidable q.Clear :=
  decidableClearFrom _ _

theorem outerWords_inside {inner : List Token} (h : Balanced inner) (depth : Nat)
    (rest : List Token) : outerWords (depth + 1) (inner ++ rest) = outerWords (depth + 1) rest := by
  induction h generalizing depth rest with
  | nil => rfl
  | @other t inner opens closes _ ih =>
    rw [List.cons_append, outerWords]
    · exact ih depth rest
    · exact opens
    · exact closes
  | @enclosed inner more _ _ ihinner ihmore =>
    rw [List.cons_append, List.append_assoc, List.cons_append, outerWords, ihinner, outerWords]
    exact ihmore depth rest

theorem quiet_nil (current : ClauseKind) : Quiet current [] :=
  fun _ hw => absurd hw List.not_mem_nil

theorem quiet_cons {current : ClauseKind} {t : Token} {rest : List Token}
    (opens : t ≠ .punctuation .openParen) (closes : t ≠ .punctuation .closeParen) :
    Quiet current (t :: rest) ↔
      (∀ word ∈ t.unquotedWord?, StaysIn current word rest) ∧ Quiet current rest := by
  unfold Quiet
  rw [outerWords]
  · cases t.unquotedWord? <;> simp
  · exact opens
  · exact closes

theorem quiet_enclosed {current : ClauseKind} {inner rest : List Token} (h : Balanced inner) :
    Quiet current (.punctuation .openParen :: (inner ++ .punctuation .closeParen :: rest)) ↔
      Quiet current rest := by
  unfold Quiet
  rw [outerWords, outerWords_inside h, outerWords]

/-! ## The scan for clauses -/

namespace Statement

/-- What a scan has noted stays noted, and behind a set operation no clause is noted. -/
structure ClauseScan.Keeps (scan final : ClauseScan) : Prop where
  depth : final.depth = scan.depth
  found : scan.found ⊆ final.found
  setOperation : scan.setOperation = true → final.setOperation = true
  fixed : scan.setOperation = true → final.found = scan.found

theorem ClauseScan.Keeps.refl (scan : ClauseScan) : scan.Keeps scan :=
  ⟨rfl, List.Subset.refl _, id, fun _ => rfl⟩

theorem ClauseScan.Keeps.trans {first second third : ClauseScan} (h : first.Keeps second)
    (h' : second.Keeps third) : first.Keeps third where
  depth := h'.depth.trans h.depth
  found := List.Subset.trans h.found h'.found
  setOperation := h'.setOperation ∘ h.setOperation
  fixed hset := (h'.fixed (h.setOperation hset)).trans (h.fixed hset)

theorem ClauseScan.keeps_noteWord (scan : ClauseScan) (position : Nat) (word : String)
    (rest : List Token) : scan.Keeps (scan.noteWord position word rest) := by
  unfold ClauseScan.noteWord
  dsimp only
  split
  · exact ⟨rfl, List.Subset.refl _, by simp_all, fun _ => rfl⟩
  · split
    · exact ⟨rfl, List.Subset.refl _, by simp_all, fun _ => rfl⟩
    · exact ⟨rfl, List.subset_cons_self _ _, by simp_all, by simp_all⟩

/-- What is known after a token outside of parentheses, where unquoted words are noted. -/
def ClauseScan.noteToken (scan : ClauseScan) (position : Nat) (t : Token) (rest : List Token) :
    ClauseScan :=
  t.unquotedWord?.elim scan (scan.noteWord position · rest)

theorem ClauseScan.keeps_noteToken (scan : ClauseScan) (position : Nat) (t : Token)
    (rest : List Token) : scan.Keeps (scan.noteToken position t rest) := by
  unfold ClauseScan.noteToken
  cases t.unquotedWord? with
  | none => exact .refl scan
  | some word => exact scan.keeps_noteWord position word rest

theorem ClauseScan.step?_outer {scan : ClauseScan} {t : Token} (hdepth : scan.depth = 0)
    (opens : t ≠ .punctuation .openParen) (closes : t ≠ .punctuation .closeParen)
    (position : Nat) (rest : List Token) :
    scan.step? position t rest = some (scan.noteToken position t rest) := by
  unfold ClauseScan.step? ClauseScan.noteToken
  split
  · exact absurd rfl opens
  · exact absurd rfl closes
  · rw [hdepth]
    cases t.unquotedWord? <;> rfl

theorem ClauseScan.step?_inner {scan : ClauseScan} {t : Token} {depth : Nat}
    (hdepth : scan.depth = depth + 1) (opens : t ≠ .punctuation .openParen)
    (closes : t ≠ .punctuation .closeParen) (position : Nat) (rest : List Token) :
    scan.step? position t rest = some scan := by
  unfold ClauseScan.step?
  split
  · exact absurd rfl opens
  · exact absurd rfl closes
  · rw [hdepth]
    cases t.unquotedWord? <;> rfl

theorem ClauseScan.run?_cons {scan next : ClauseScan} {position : Nat} {t : Token}
    {rest : List Token} (h : scan.step? position t rest = some next) :
    scan.run? position (t :: rest) = next.run? (position + 1) rest := by
  rw [ClauseScan.run?, h]

/-- A token and what stands behind it are read one after the other. -/
theorem ClauseScan.run?_cons_append {scan next final : ClauseScan} {position : Nat} {t : Token}
    {tokens tail : List Token} (hstep : scan.step? position t (tokens ++ tail) = some next)
    (hrest : next.run? (position + 1) (tokens ++ tail) =
      final.run? (position + 1 + tokens.length) tail) :
    scan.run? position (t :: tokens ++ tail) =
      final.run? (position + (t :: tokens).length) tail := by
  rw [List.cons_append, ClauseScan.run?_cons hstep, hrest, List.length_cons, Nat.add_assoc,
    Nat.add_comm 1]

theorem ClauseScan.step?_openParen (scan : ClauseScan) (position : Nat) (rest : List Token) :
    scan.step? position (.punctuation .openParen) rest =
      some ⟨scan.depth + 1, scan.found, scan.setOperation⟩ := rfl

theorem ClauseScan.step?_closeParen (scan : ClauseScan) (position : Nat) (rest : List Token) :
    ClauseScan.step? ⟨scan.depth + 1, scan.found, scan.setOperation⟩ position
      (.punctuation .closeParen) rest = some scan := rfl

/-- Inside a pair of parentheses nothing is noted. -/
theorem ClauseScan.run?_inner {inner : List Token} (h : Balanced inner) {scan : ClauseScan}
    {depth : Nat} (hdepth : scan.depth = depth + 1) (position : Nat) (rest : List Token) :
    scan.run? position (inner ++ rest) = scan.run? (position + inner.length) rest := by
  induction h generalizing scan depth position rest with
  | nil => rfl
  | @other t inner opens closes _ ih =>
    exact ClauseScan.run?_cons_append (ClauseScan.step?_inner hdepth opens closes _ _)
      (ih hdepth _ rest)
  | @enclosed inner more _ _ ihinner ihmore =>
    rw [List.cons_append, List.append_assoc, List.cons_append,
      ClauseScan.run?_cons (scan.step?_openParen _ _), ihinner rfl,
      ClauseScan.run?_cons (scan.step?_closeParen _ _), ihmore hdepth]
    congr 1
    simp only [List.length_cons, List.length_append]
    omega

/-- A pair of parentheses is passed over. -/
theorem ClauseScan.run?_enclosed {inner : List Token} (h : Balanced inner) (scan : ClauseScan)
    (position : Nat) (rest : List Token) :
    scan.run? position (.punctuation .openParen :: (inner ++ .punctuation .closeParen :: rest)) =
      scan.run? (position + inner.length + 2) rest := by
  rw [ClauseScan.run?_cons (scan.step?_openParen _ _), ClauseScan.run?_inner h rfl,
    ClauseScan.run?_cons (scan.step?_closeParen _ _)]
  congr 1
  omega

theorem length_enclosed (position : Nat) (inner more : List Token) :
    position + (Token.punctuation .openParen :: (inner ++ .punctuation .closeParen :: more)).length =
      position + inner.length + 2 + more.length := by
  simp only [List.length_cons, List.length_append]
  omega

/-- A pair of parentheses and what stands behind it are read one after the other. -/
theorem ClauseScan.run?_enclosed_append {inner : List Token} (h : Balanced inner)
    {scan final : ClauseScan} {position : Nat} {more tail : List Token}
    (hrest : scan.run? (position + inner.length + 2) (more ++ tail) =
      final.run? (position + inner.length + 2 + more.length) tail) :
    scan.run? position (.punctuation .openParen :: (inner ++ .punctuation .closeParen :: more) ++ tail) =
      final.run? (position + (Token.punctuation .openParen ::
        (inner ++ .punctuation .closeParen :: more)).length) tail := by
  rw [length_enclosed, List.cons_append, List.append_assoc, List.cons_append,
    ClauseScan.run?_enclosed h, hrest]

/-- Matching parentheses are read to their end, and what was noted stays noted. -/
theorem ClauseScan.run?_keeps {tokens : List Token} (h : Balanced tokens) {scan : ClauseScan}
    (hdepth : scan.depth = 0) (position : Nat) (rest : List Token) :
    ∃ final, scan.run? position (tokens ++ rest) = final.run? (position + tokens.length) rest ∧
      scan.Keeps final := by
  induction h generalizing scan position with
  | nil => exact ⟨scan, rfl, .refl scan⟩
  | @other t tokens opens closes _ ih =>
    have hstep := ClauseScan.step?_outer hdepth opens closes position (tokens ++ rest)
    have hkeeps := scan.keeps_noteToken position t (tokens ++ rest)
    obtain ⟨final, hfinal, hfinalKeeps⟩ := ih (hkeeps.depth.trans hdepth) (position + 1)
    exact ⟨final, ClauseScan.run?_cons_append hstep hfinal, hkeeps.trans hfinalKeeps⟩
  | @enclosed inner more hinner _ _ ih =>
    obtain ⟨final, hfinal, hkeeps⟩ := ih hdepth (position + inner.length + 2)
    exact ⟨final, ClauseScan.run?_enclosed_append hinner hfinal, hkeeps⟩

/-! ## The body of a section -/

/-- Tokens that do not start with the word BY. -/
def EndsBody (tail : List Token) : Prop :=
  (firstSignificant? tail).any (·.isKeyword "BY") = false

theorem clauseOf?_append {tail : List Token} (h : EndsBody tail) (noneFound : Bool) (word : String)
    (rest : List Token) : clauseOf? noneFound word (rest ++ tail) = clauseOf? noneFound word rest := by
  have hby : (firstSignificant? (rest ++ tail)).any (·.isKeyword "BY") =
      (firstSignificant? rest).any (·.isKeyword "BY") := by
    cases hrest : firstSignificant? rest with
    | some t => rw [firstSignificant?_append hrest]
    | none =>
      have htrivia := List.all_eq_true.1 (firstSignificant?_eq_none.1 hrest)
      have hgap := firstSignificant?_gap ⟨rest, htrivia⟩ tail
      rw [hgap, h]
      rfl
  unfold clauseOf?
  rw [hby]

theorem staysIn_append {current : ClauseKind} {tail : List Token} (h : EndsBody tail) (word : String)
    (rest : List Token) : StaysIn current word (rest ++ tail) ↔ StaysIn current word rest := by
  unfold StaysIn
  rw [clauseOf?_append h]

/-- A scan outside of parentheses, behind a keyword of the given clause. -/
structure ClauseScan.Inside (scan : ClauseScan) (current : ClauseKind) : Prop where
  depth : scan.depth = 0
  single : scan.setOperation = false
  latest : scan.found.head?.map (·.kind) = some current

theorem ClauseScan.Inside.nonempty {scan : ClauseScan} {current : ClauseKind}
    (h : scan.Inside current) : scan.found.isEmpty = false := by
  have hlatest := h.latest
  cases hfound : scan.found with
  | nil => rw [hfound] at hlatest; simp at hlatest
  | cons c older => rfl

/-- A word that stays in the clause leaves nothing noted. -/
theorem ClauseScan.Inside.noteToken_stays {scan : ClauseScan} {current : ClauseKind}
    (h : scan.Inside current) {t : Token} {rest : List Token}
    (hstays : ∀ word ∈ t.unquotedWord?, StaysIn current word rest) (position : Nat) :
    scan.noteToken position t rest = scan := by
  unfold ClauseScan.noteToken
  cases hword : t.unquotedWord? with
  | none => rfl
  | some word =>
    obtain ⟨hset, hkind⟩ := hstays word hword
    have hlatest := h.latest
    obtain ⟨depth, found, setOperation⟩ := scan
    rw [Option.elim_some, ClauseScan.noteWord]
    dsimp only
    rw [hset, Bool.or_false, h.nonempty]
    split
    · rfl
    · rename_i kind hclause
      obtain rfl := hkind kind hclause
      have hhead : found.head?.any (·.kind == kind) = true := by
        obtain ⟨c, hc, hkind⟩ := Option.map_eq_some_iff.1 hlatest
        simp [show found.head? = some c from hc, hkind]
      rw [hhead, Bool.true_or, if_pos rfl]

/-- A word that leaves the clause is noted. -/
theorem ClauseScan.Inside.noteToken_leaves {scan : ClauseScan} {current : ClauseKind}
    (h : scan.Inside current) {t : Token} {rest : List Token} {word : String}
    (hword : t.unquotedWord? = some word) (hleaves : ¬ StaysIn current word rest) (position : Nat) :
    (scan.noteToken position t rest).setOperation = true ∨
      ∃ c ∈ (scan.noteToken position t rest).found, c.start = position := by
  have hlatest := h.latest
  rw [ClauseScan.noteToken, hword, Option.elim_some, ClauseScan.noteWord]
  dsimp only
  rw [h.nonempty, h.single, Bool.false_or]
  cases hset : isSetOperation word with
  | true =>
    left
    split <;> simp
  | false =>
    have hkind : ∃ kind, clauseOf? false word rest = some kind ∧ kind ≠ current := by
      by_contra hnone
      exact hleaves ⟨hset, fun kind hclause => by_contra fun hne => hnone ⟨kind, hclause, hne⟩⟩
    obtain ⟨kind, hclause, hne⟩ := hkind
    right
    have hhead : scan.found.head?.any (·.kind == kind) = false := by
      obtain ⟨c, hc, hkind⟩ := Option.map_eq_some_iff.1 hlatest
      simp [hc, hkind, Ne.symm hne]
    rw [hclause]
    dsimp only
    rw [hhead, Bool.false_or, if_neg Bool.false_ne_true]
    exact ⟨_, List.mem_cons_self, rfl⟩

/-- A quiet body is read without a note. -/
theorem ClauseScan.Inside.run?_quiet {current : ClauseKind} {body tail : List Token}
    (hbalanced : Balanced body) (htail : EndsBody tail) (hquiet : Quiet current body)
    {scan : ClauseScan} (h : scan.Inside current) (position : Nat) :
    scan.run? position (body ++ tail) = scan.run? (position + body.length) tail := by
  induction hbalanced generalizing position with
  | nil => rfl
  | @other t body opens closes _ ih =>
    obtain ⟨hstays, hquiet⟩ := (quiet_cons opens closes).1 hquiet
    have hstep := ClauseScan.step?_outer h.depth opens closes position (body ++ tail)
    rw [h.noteToken_stays fun word hword => (staysIn_append htail word body).2 (hstays word hword)]
      at hstep
    exact ClauseScan.run?_cons_append hstep (ih hquiet (position + 1))
  | @enclosed inner more hinner _ _ ih =>
    exact ClauseScan.run?_enclosed_append hinner
      (ih ((quiet_enclosed hinner).1 hquiet) (position + inner.length + 2))

/-- A body with a word that leaves the clause has that word noted. -/
theorem ClauseScan.Inside.run?_stray {current : ClauseKind} {body tail : List Token}
    (hbalanced : Balanced body) (htail : EndsBody tail) (hstray : ¬ Quiet current body)
    {scan : ClauseScan} (h : scan.Inside current) (position : Nat) :
    ∃ final, scan.run? position (body ++ tail) = final.run? (position + body.length) tail ∧
      scan.Keeps final ∧ (final.setOperation = true ∨
        ∃ c ∈ final.found, position ≤ c.start ∧ c.start < position + body.length) := by
  induction hbalanced generalizing position with
  | nil => exact absurd (quiet_nil current) hstray
  | @other t body opens closes hbody ih =>
    have hstep := ClauseScan.step?_outer h.depth opens closes position (body ++ tail)
    by_cases hstays : ∀ word ∈ t.unquotedWord?, StaysIn current word body
    · rw [h.noteToken_stays fun word hword => (staysIn_append htail word body).2 (hstays word hword)]
        at hstep
      obtain ⟨final, hfinal, hkeeps, hnoted⟩ :=
        ih (fun hquiet => hstray ((quiet_cons opens closes).2 ⟨hstays, hquiet⟩)) (position + 1)
      refine ⟨final, ClauseScan.run?_cons_append hstep hfinal, hkeeps,
        hnoted.imp_right fun ⟨c, hc, hle, hlt⟩ => ⟨c, hc, ?_, ?_⟩⟩
      · omega
      · rw [List.length_cons]
        omega
    · -- the word is noted here, and stays noted
      obtain ⟨word, hword, hleaves⟩ : ∃ word ∈ t.unquotedWord?, ¬ StaysIn current word body := by
        simpa using hstays
      rw [← staysIn_append htail] at hleaves
      have hnoted := h.noteToken_leaves hword hleaves position
      have hkeeps := scan.keeps_noteToken position t (body ++ tail)
      obtain ⟨final, hfinal, hfinalKeeps⟩ :=
        ClauseScan.run?_keeps hbody (hkeeps.depth.trans h.depth) (position + 1) tail
      refine ⟨final, ClauseScan.run?_cons_append hstep hfinal, hkeeps.trans hfinalKeeps, ?_⟩
      rcases hnoted with hset | ⟨c, hc, rfl⟩
      · exact Or.inl (hfinalKeeps.setOperation hset)
      · exact Or.inr ⟨c, hfinalKeeps.found hc, le_rfl, by simp⟩
  | @enclosed inner more hinner _ _ ih =>
    obtain ⟨final, hfinal, hkeeps, hnoted⟩ :=
      ih (fun hquiet => hstray ((quiet_enclosed hinner).2 hquiet)) (position + inner.length + 2)
    refine ⟨final, ClauseScan.run?_enclosed_append hinner hfinal, hkeeps,
      hnoted.imp_right fun ⟨c, hc, hle, hlt⟩ => ⟨c, hc, by omega, ?_⟩⟩
    rwa [length_enclosed]

/-! ## The sections of a statement -/

theorem sectionTokens_cons (x : Section) (rest : List Section) :
    sectionTokens (x :: rest) = x.keyword :: (x.body ++ sectionTokens rest) := rfl

theorem balanced_sectionTokens (sections : List Section) : Balanced (sectionTokens sections) := by
  refine .flatMap (fun x => ?_) sections
  obtain ⟨word, -, hword⟩ := x.opens
  exact .keyword hword x.balanced

theorem EndsBody.behind {tail : List Token} (h : EndsBody tail) (sections : List Section) :
    EndsBody (sectionTokens sections ++ tail) := by
  cases sections with
  | nil => exact h
  | cons x rest =>
    obtain ⟨word, hmem, hword⟩ := x.opens
    have hne : ∀ kind : SectionKind, ∀ word ∈ kind.words, word ≠ "BY" := by
      intro kind
      cases kind <;> decide
    unfold EndsBody
    rw [sectionTokens_cons, List.cons_append, firstSignificant?_keyword hword]
    exact isKeyword_unique hword (hne _ _ hmem)

theorem endsBody_sectionTokens (sections : List Section) : EndsBody (sectionTokens sections) := by
  have hnil : EndsBody [] := rfl
  simpa using hnil.behind sections

/-- The keyword of a section starts the clause that the section stands for. -/
theorem clauseOf?_section (x : Section) (hselect : x.kind ≠ .select) (rest : List Token) :
    ∃ word, x.keyword.unquotedWord? = some word ∧ isSetOperation word = false ∧
      clauseOf? false word (x.body ++ rest) = x.kind.clause? := by
  obtain ⟨word, hmem, hword⟩ := x.opens
  refine ⟨word, by simpa [isKeyword] using hword, ?_, ?_⟩
  · have hset : ∀ kind : SectionKind, ∀ word ∈ kind.words, isSetOperation word = false := by
      intro kind
      cases kind <;> decide
    exact hset _ _ hmem
  · -- GROUP and ORDER are keywords of a clause before BY only, which stands in the section itself
    have hby : x.kind.takesBy = true →
        (firstSignificant? (x.body ++ rest)).any (·.isKeyword "BY") = true := by
      intro htakes
      have hbody := x.takesBy htakes
      cases hfirst : firstSignificant? x.body with
      | none => rw [hfirst] at hbody; exact Bool.noConfusion hbody
      | some t => rw [firstSignificant?_append hfirst, ← hfirst]; exact hbody
    have hclause : ∀ kind : SectionKind, ∀ word ∈ kind.words, kind ≠ .select → ∀ tokens,
        (kind.takesBy = true → (firstSignificant? tokens).any (·.isKeyword "BY") = true) →
          clauseOf? false word tokens = kind.clause? := by
      intro kind word hmem hselect tokens hby
      unfold clauseOf?
      cases kind <;> simp_all [SectionKind.words, SectionKind.clause?, ClauseKind.words,
        SectionKind.takesBy]
      rcases hmem with rfl | rfl | rfl <;> rfl
    exact hclause _ _ hmem hselect _ hby

theorem start_of_mem_clausesFrom {position : Nat} {sections : List Section} {c : Clause}
    (h : c ∈ clausesFrom position sections) : position ≤ c.start := by
  induction sections generalizing position with
  | nil => exact absurd h List.not_mem_nil
  | cons x rest ih =>
    rw [clausesFrom] at h
    rcases List.mem_append.1 h with h | h
    · obtain ⟨kind, -, rfl⟩ := Option.map_eq_some_iff.1 (Option.mem_toList.1 h)
      exact le_rfl
    · exact (Nat.le_add_right _ _).trans (ih h)

/-- What is known behind the keyword of a section. -/
def ClauseScan.behind (scan : ClauseScan) (x : Section) (position : Nat) : ClauseScan :=
  ⟨scan.depth, (x.kind.clause?.map fun kind => ⟨kind, position⟩).toList ++ scan.found,
    scan.setOperation⟩

theorem ClauseScan.Inside.behind {scan : ClauseScan} {current : ClauseKind}
    (h : scan.Inside current) (x : Section) (position : Nat) :
    (scan.behind x position).Inside (x.kind.clause?.getD current) := by
  refine ⟨h.depth, h.single, ?_⟩
  unfold ClauseScan.behind
  cases x.kind.clause? with
  | none => exact h.latest
  | some kind => rfl

theorem ClauseScan.Inside.noteToken_keyword {scan : ClauseScan} {current : ClauseKind}
    (h : scan.Inside current) {x : Section} (hselect : x.kind ≠ .select)
    (hother : x.kind.clause? ≠ some current) (position : Nat) (rest : List Token) :
    scan.noteToken position x.keyword (x.body ++ rest) = scan.behind x position := by
  obtain ⟨word, hword, hset, hclause⟩ := clauseOf?_section x hselect rest
  have hlatest := h.latest
  rw [ClauseScan.noteToken, hword, Option.elim_some, ClauseScan.noteWord, ClauseScan.behind]
  dsimp only
  rw [h.nonempty, hclause, hset, Bool.or_false]
  cases hkind : x.kind.clause? with
  | none => rfl
  | some kind =>
    have hhead : scan.found.head?.any (·.kind == kind) = false := by
      obtain ⟨c, hc, hcurrent⟩ := Option.map_eq_some_iff.1 hlatest
      have hne : current ≠ kind := fun heq => hother (heq ▸ hkind)
      simp [hc, hcurrent, hne]
    dsimp only
    rw [hhead, h.single, Bool.false_or, if_neg Bool.false_ne_true]
    rfl

/-- The keyword of a section is read and noted. -/
theorem ClauseScan.Inside.run?_keyword {scan : ClauseScan} {current : ClauseKind}
    (h : scan.Inside current) {x : Section} (hselect : x.kind ≠ .select)
    (hother : x.kind.clause? ≠ some current) (position : Nat) (rest : List Token) :
    scan.run? position (x.keyword :: (x.body ++ rest)) =
      (scan.behind x position).run? (position + 1) (x.body ++ rest) := by
  obtain ⟨word, -, hword⟩ := x.opens
  have hstep := ClauseScan.step?_outer h.depth (isKeyword_ne_punctuation hword _)
    (isKeyword_ne_punctuation hword _) position (x.body ++ rest)
  rw [h.noteToken_keyword hselect hother] at hstep
  exact ClauseScan.run?_cons hstep

/-- The sections after a section are of other kinds than the clause they stand in. -/
theorem clause?_ne_latest {current : ClauseKind} {x : Section} {rest : List Section}
    (hother : ∀ y ∈ rest, y.kind.clause? ≠ some current)
    (hlater : ∀ y ∈ rest, x.kind.rank < y.kind.rank) :
    ∀ y ∈ rest, y.kind.clause? ≠ some (x.kind.clause?.getD current) := by
  intro y hy
  cases hkind : x.kind.clause? with
  | none => exact hother y hy
  | some kind =>
    intro hsame
    have hlt := hlater y hy
    rw [SectionKind.clause?_injective hkind hsame] at hlt
    exact lt_irrefl _ hlt

/-- The scan finds the clauses of sections and no others. -/
def ClauseScan.Finds (scan final : ClauseScan) (position : Nat) (sections : List Section) : Prop :=
  final.found.reverse = scan.found.reverse ++ clausesFrom position sections ∧
    final.setOperation = false

/-- From the sections after a section to the section itself, read from behind its keyword. -/
theorem ClauseScan.Inside.run?_body {scan : ClauseScan} {current : ClauseKind}
    (h : scan.Inside current) (x : Section) (rest : List Section) {position : Nat}
    (hposition : ∀ c ∈ scan.found, c.start < position)
    (hrest : ∃ final, scan.run? (position + x.body.length) (sectionTokens rest) = some final ∧
      (scan.Finds final (position + x.body.length) rest ↔ ClearFrom current rest)) :
    ∃ final, scan.run? position (x.body ++ sectionTokens rest) = some final ∧
      (scan.Finds final (position + x.body.length) rest ↔
        Quiet current x.body ∧ ClearFrom current rest) := by
  have htail := endsBody_sectionTokens rest
  by_cases hquiet : Quiet current x.body
  · obtain ⟨final, hrun, hfinds⟩ := hrest
    refine ⟨final, ?_, hfinds.trans (and_iff_right hquiet).symm⟩
    rw [h.run?_quiet x.balanced htail hquiet, hrun]
  · obtain ⟨next, hnext, hkeeps, hnoted⟩ := h.run?_stray x.balanced htail hquiet position
    have hdepth := hkeeps.depth.trans h.depth
    obtain ⟨final, hfinal, hfinalKeeps⟩ := ClauseScan.run?_keeps (balanced_sectionTokens rest) hdepth
      (position + x.body.length) []
    rw [List.append_nil, ClauseScan.run?, if_pos (hfinalKeeps.depth.trans hdepth)] at hfinal
    refine ⟨final, hnext.trans hfinal, iff_of_false ?_ fun hclear => hquiet hclear.1⟩
    rintro ⟨hfound, hsingle⟩
    rcases hnoted with hset | ⟨c, hc, hle, hlt⟩
    · rw [hfinalKeeps.setOperation hset] at hsingle
      exact Bool.noConfusion hsingle
    · -- the clause noted in the body is none of those found before or after it
      have hmem : c ∈ scan.found.reverse ++ clausesFrom (position + x.body.length) rest := by
        rw [← hfound]
        exact List.mem_reverse.2 (hfinalKeeps.found hc)
      rcases List.mem_append.1 hmem with hmem | hmem
      · exact absurd (hposition c (List.mem_reverse.1 hmem)) (by omega)
      · exact absurd (start_of_mem_clausesFrom hmem) (by omega)

theorem ClauseScan.finds_behind {scan final : ClauseScan} {x : Section} {rest : List Section}
    {position : Nat} :
    (scan.behind x position).Finds final (position + 1 + x.body.length) rest ↔
      scan.Finds final position (x :: rest) := by
  have hlength : position + x.tokens.length = position + 1 + x.body.length := by
    rw [Section.tokens, List.length_cons]
    omega
  unfold ClauseScan.Finds ClauseScan.behind
  rw [clausesFrom, hlength, List.reverse_append, List.append_assoc]
  cases x.kind.clause? <;> rfl

/-- A scan of sections finds their clauses exactly when no word leaves its section. -/
theorem ClauseScan.Inside.run?_sections {scan : ClauseScan} {current : ClauseKind}
    (h : scan.Inside current) {sections : List Section}
    (hselect : ∀ x ∈ sections, x.kind ≠ .select)
    (hother : ∀ x ∈ sections, x.kind.clause? ≠ some current)
    (hordered : sections.Pairwise fun x y => x.kind.rank < y.kind.rank) {position : Nat}
    (hposition : ∀ c ∈ scan.found, c.start < position) :
    ∃ final, scan.run? position (sectionTokens sections) = some final ∧
      (scan.Finds final position sections ↔ ClearFrom current sections) := by
  induction sections generalizing scan current position with
  | nil =>
    have hdone : scan.run? position (sectionTokens []) = some scan := if_pos h.depth
    refine ⟨scan, hdone, iff_of_true ⟨?_, h.single⟩ trivial⟩
    rw [clausesFrom, List.append_nil]
  | cons x rest ih =>
    obtain ⟨hx, hselect⟩ := List.forall_mem_cons.1 hselect
    obtain ⟨hxOther, hother⟩ := List.forall_mem_cons.1 hother
    obtain ⟨hlater, hordered⟩ := List.pairwise_cons.1 hordered
    have hbehind := h.behind x position
    have hnext := clause?_ne_latest hother hlater
    have hfound : ∀ c ∈ (scan.behind x position).found, c.start < position + 1 := by
      intro c hc
      rcases List.mem_append.1 hc with hc | hc
      · obtain ⟨kind, -, rfl⟩ := Option.map_eq_some_iff.1 (Option.mem_toList.1 hc)
        exact Nat.lt_succ_self _
      · exact (hposition c hc).trans (Nat.lt_succ_self _)
    have hrest := ih hbehind hselect hnext hordered
      fun c hc => (hfound c hc).trans_le (Nat.le_add_right _ x.body.length)
    obtain ⟨final, hrun, hfinds⟩ := hbehind.run?_body x rest hfound hrest
    refine ⟨final, ?_, ClauseScan.finds_behind.symm.trans hfinds⟩
    rw [sectionTokens_cons, h.run?_keyword hx hxOther, hrun]

/-- Blanks and comments are read without a note. -/
theorem ClauseScan.run?_gap {gap : List Token} (hgap : ∀ t ∈ gap, t.isTrivia = true)
    {scan : ClauseScan} (hdepth : scan.depth = 0) (position : Nat) (rest : List Token) :
    scan.run? position (gap ++ rest) = scan.run? (position + gap.length) rest := by
  induction gap generalizing position with
  | nil => rfl
  | cons t gap ih =>
    obtain ⟨ht, hgap⟩ := List.forall_mem_cons.1 hgap
    have hplain : t ≠ .punctuation .openParen ∧ t ≠ .punctuation .closeParen ∧
        t.unquotedWord? = none := by
      cases t <;> simp_all [Token.isTrivia, Token.unquotedWord?]
    have hstep := ClauseScan.step?_outer hdepth hplain.1 hplain.2.1 position (gap ++ rest)
    rw [ClauseScan.noteToken, hplain.2.2, Option.elim_none] at hstep
    exact ClauseScan.run?_cons_append hstep (ih hgap (position + 1))

/-- Blanks, comments and the word SELECT are read and noted. -/
theorem ClauseScan.run?_select (lead : Gap) {x : Section} (hkind : x.kind = .select) (rest : List Token) :
    ClauseScan.run? ⟨0, [], false⟩ 0 (lead.1 ++ x.keyword :: (x.body ++ rest)) =
        (ClauseScan.behind ⟨0, [], false⟩ x lead.1.length).run? (lead.1.length + 1) (x.body ++ rest) ∧
      (ClauseScan.behind ⟨0, [], false⟩ x lead.1.length).Inside .select := by
  obtain ⟨word, hmem, hword⟩ := x.opens
  rw [hkind] at hmem
  obtain rfl := List.mem_singleton.1 hmem
  have hunquoted : x.keyword.unquotedWord? = some "SELECT" := by simpa [isKeyword] using hword
  have hstep := @ClauseScan.step?_outer ⟨0, [], false⟩ x.keyword rfl
    (isKeyword_ne_punctuation hword _) (isKeyword_ne_punctuation hword _) lead.1.length (x.body ++ rest)
  have hnoted : ClauseScan.noteToken ⟨0, [], false⟩ lead.1.length x.keyword (x.body ++ rest) =
      ClauseScan.behind ⟨0, [], false⟩ x lead.1.length := by
    rw [ClauseScan.noteToken, hunquoted, ClauseScan.behind, hkind]
    rfl
  have hlead := @ClauseScan.run?_gap _ lead.2 ⟨0, [], false⟩ rfl 0 (x.keyword :: (x.body ++ rest))
  rw [Nat.zero_add] at hlead
  rw [hnoted] at hstep
  refine ⟨by rw [hlead, ClauseScan.run?_cons hstep], ?_⟩
  rw [ClauseScan.behind, hkind]
  exact ⟨rfl, rfl, rfl⟩

end Statement

namespace AuthorSelect

open Statement

variable (q : AuthorSelect)

theorem kind_ne_select : ∀ x ∈ q.source :: q.others, x.kind ≠ .select := by
  intro x hx hkind
  have hlt := (List.pairwise_cons.1 q.ordered).1 x hx
  rw [hkind] at hlt
  exact absurd hlt (Nat.not_lt_zero _)

/-- A scan of a SELECT finds the clauses of its sections exactly when it is clear. -/
theorem exists_run : ∃ final, ClauseScan.run? ⟨0, [], false⟩ 0 q.tokens = some final ∧
    ((final.found.reverse = q.clauses ∧ final.setOperation = false) ↔ q.Clear) := by
  obtain ⟨hselect, hinside⟩ :=
    ClauseScan.run?_select q.lead q.isSelect (sectionTokens (q.source :: q.others))
  have hfound : ∀ c ∈ (ClauseScan.behind ⟨0, [], false⟩ q.select q.lead.1.length).found,
      c.start < q.lead.1.length + 1 := by
    rw [ClauseScan.behind, q.isSelect]
    intro c hc
    obtain rfl := List.mem_singleton.1 hc
    exact Nat.lt_succ_self _
  have hother : ∀ x ∈ q.source :: q.others, x.kind.clause? ≠ some .select :=
    fun x hx hclause => q.kind_ne_select x hx (SectionKind.clause?_injective hclause rfl)
  have hrest := hinside.run?_sections q.kind_ne_select hother (List.pairwise_cons.1 q.ordered).2
    fun c hc => (hfound c hc).trans_le (Nat.le_add_right _ q.select.body.length)
  obtain ⟨final, hrun, hfinds⟩ := hinside.run?_body q.select (q.source :: q.others) hfound hrest
  refine ⟨final, ?_, ?_⟩
  · rw [AuthorSelect.tokens, AuthorSelect.sections, sectionTokens_cons, hselect, hrun]
  · have hclear : q.Clear ↔ Quiet .select q.select.body ∧ ClearFrom .select (q.source :: q.others) := by
      unfold AuthorSelect.Clear AuthorSelect.sections
      rw [ClearFrom, q.isSelect]
      rfl
    exact ClauseScan.finds_behind.symm.trans (hfinds.trans hclear.symm)

end AuthorSelect

end ReportSql
