import ReportSql.Proofs.Statement.Conditioned

/-!
# Added conditions

Adding conditions to a statement adds to its text and takes nothing away: all tokens
are printed in their order, and the conditions stand in a new WHERE between two of
them, or beside the author's condition in parentheses. The author's condition is
printed up to the end of its last piece. Where that piece reaches beyond the WHERE
clause, the tokens it takes from there are printed a second time.

## Main definitions

* `Statement.addPredicates` - the statement with several further conditions
* `Statement.Added` - a text with a condition added to the text of some tokens
* `Statement.Unbroken` - no piece reaches beyond the WHERE clause
* `Text.SameUpToBlanks` - texts with the same visible characters

## Main results

* `Statement.render_addPredicates` - what added conditions do to the text of a statement
-/

namespace ReportSql

open Token

/-! ## Visible characters -/

namespace Text

/-- The characters of a text that are not blank. -/
def visible (s : String) : List Char :=
  s.toList.filter (!isBlank ·)

/-- The texts differ in blanks only. -/
def SameUpToBlanks (s t : String) : Prop :=
  visible s = visible t

@[simp] theorem visible_append (s t : String) : visible (s ++ t) = visible s ++ visible t := by
  simp [visible]

theorem filter_blanks {cs : List Char} (h : Blanks cs) : cs.filter (!isBlank ·) = [] := by
  rw [List.filter_eq_nil_iff]
  intro c hc
  simp [h c hc]

@[simp] theorem visible_trim (s : String) : visible (trim s) = visible s := by
  obtain ⟨lead, trail, hsplit, hlead, htrail, -⟩ := exists_trim s
  rw [visible, visible, hsplit, List.filter_append, List.filter_append, filter_blanks hlead,
    filter_blanks htrail, List.nil_append, List.append_nil]

@[simp] theorem visible_trimEnd (s : String) : visible (trimEnd s) = visible s := by
  obtain ⟨trail, hsplit, htrail, -⟩ := dropTrailingBlanks_spec s.toList
  have hkept : visible s = (dropTrailingBlanks s.toList ++ trail).filter (!isBlank ·) :=
    congrArg (List.filter (!isBlank ·)) hsplit
  rw [hkept, List.filter_append, filter_blanks htrail, List.append_nil, visible, trimEnd,
    String.toList_ofList]

end Text

open Text (visible visible_append visible_trim visible_trimEnd SameUpToBlanks)

theorem ClauseKind.words_visible (kind : ClauseKind) :
    ∀ word ∈ kind.words, word.toList ≠ [] ∧ ∀ c ∈ word.toList, Text.isBlank c = false := by
  cases kind <;> decide

theorem Token.visible_of_keyword {t : Token} {kind : ClauseKind} {word : String}
    (hword : word ∈ kind.words) (h : t.isKeyword word = true) : visible t.text ≠ [] := by
  obtain ⟨hne, hblank⟩ := kind.words_visible word hword
  obtain ⟨hchars, hfree⟩ := blankFree_of_keyword h hne hblank
  have hall : visible t.text = t.chars := List.filter_eq_self.2 fun c hc => by
    rw [hfree c hc]
    rfl
  rwa [hall]

namespace Statement

variable {d : Dialect} {tablePrefix : String}

/-! ## Pieces beyond a range -/

theorem Whole.of_append_right {first next more : List Token} (h : Whole first (next ++ more)) :
    Whole first next := by
  revert h
  fun_induction expand .postgres "" first with
  | case1 name rest ih => exact ih
  | case2 name rest ih => exact ih
  | case3 t rest hbraces hcolon ih =>
    intro h
    rw [Whole] at h
    · obtain ⟨hnoTable, hnoName, hrest⟩ := h
      rw [← List.append_assoc] at hnoTable hnoName
      exact (whole_single (single_of_append ⟨hnoTable, hnoName⟩)).2 (ih hrest)
    · exact hbraces
    · exact hcolon
  | case4 => exact fun _ => trivial

theorem expand_append {first next : List Token} (h : Whole first next) :
    expand d tablePrefix (first ++ next) = expand d tablePrefix first ++ expand d tablePrefix next := by
  revert h
  fun_induction expand d tablePrefix first with
  | case1 name rest ih =>
    intro h
    rw [List.cons_append, List.cons_append, List.cons_append, expand_braces, ih h, List.cons_append]
  | case2 name rest ih =>
    intro h
    rw [List.cons_append, List.cons_append, expand_colon, ih h, List.append_assoc]
  | case3 t rest hbraces hcolon ih =>
    intro h
    rw [Whole] at h
    · obtain ⟨hnoTable, hnoName, hrest⟩ := h
      obtain ⟨htable, hname⟩ := single_iff.1 ⟨hnoTable, hnoName⟩
      rw [List.cons_append, expand, ih hrest, List.cons_append]
      · exact htable
      · exact hname
    · exact hbraces
    · exact hcolon
  | case4 => exact fun _ => rfl

theorem InsidePiece.expand_append {doubled : List Token} (h : InsidePiece doubled) (after : List Token) :
    expand d tablePrefix (doubled ++ after) = doubled ++ expand d tablePrefix after := by
  induction doubled with
  | nil => rfl
  | cons t rest ih =>
    have hsingle : t ≠ .punctuation .openBrace ∧ t ≠ .punctuation .colon := by
      rcases h t List.mem_cons_self with ⟨value, rfl⟩ | rfl <;> simp
    rw [List.cons_append, expand_cons hsingle.1 hsingle.2,
      ih fun u hu => h u (List.mem_cons_of_mem t hu), List.cons_append]

/-- A cut piece is printed whole. -/
theorem plainText_cut {t : Token} {rest piece next : List Token} (htokens : t :: rest = piece ++ next)
    (hwhole : Whole piece next) (hwidth : (pieceText d tablePrefix t rest).2 = piece.length)
    {count : Nat} (hpos : 0 < count) (hcount : count ≤ piece.length) :
    plainText d tablePrefix count 0 (t :: rest) = textOf (expand d tablePrefix piece) := by
  have htext : ∀ n, n + 1 ≤ piece.length → plainText d tablePrefix (n + 1) 0 (t :: rest) =
      (pieceText d tablePrefix t rest).1 := by
    intro n hn
    rw [plainText_cons, hwidth, Nat.sub_eq_zero_of_le hn, plainText_zero, String.append_empty]
  have hpiece := @plainText_whole d tablePrefix _ _ hwhole
  rw [← htokens] at hpiece
  rw [← hpiece]
  obtain ⟨n, rfl⟩ := Nat.exists_eq_add_of_lt hpos
  obtain ⟨m, hm⟩ := Nat.exists_eq_add_of_le hcount
  rw [hm, Nat.zero_add, Nat.add_right_comm, htext n (by omega), htext (n + m) (by omega)]

/-- A range is printed up to the end of its last piece. -/
theorem exists_pieceEnd (d : Dialect) (tablePrefix : String) (first next : List Token) :
    ∃ doubled after, next = doubled ++ after ∧ InsidePiece doubled ∧ Whole (first ++ doubled) after ∧
      plainText d tablePrefix first.length 0 (first ++ next) =
        textOf (expand d tablePrefix (first ++ doubled)) := by
  -- on the number of tokens, because a piece takes up to three of them
  induction hlength : first.length using Nat.strongRecOn generalizing first with
  | ind n ih =>
    cases first with
    | nil =>
      refine ⟨[], next, rfl, fun t ht => absurd ht List.not_mem_nil, trivial, ?_⟩
      rw [← hlength, List.length_nil, plainText_zero]
      rfl
    | cons t rest =>
      obtain ⟨piece, more, htokens, hwhole, hne, hwidth, hnone⟩ :=
        exists_piece d tablePrefix t (rest ++ next)
      have hpos := List.length_pos_iff.2 hne
      rcases List.append_eq_append_iff.1 (show (t :: rest) ++ next = piece ++ more from htokens) with
        ⟨doubled, rfl, rfl⟩ | ⟨left, hfirst, rfl⟩
      · -- the piece reaches beyond the range
        refine ⟨doubled, more, rfl, fun u hu => hnone u (List.mem_append_right rest hu), hwhole, ?_⟩
        rw [← hlength, List.cons_append]
        exact plainText_cut htokens hwhole hwidth (Nat.succ_pos _) (by simp)
      · -- the piece ends within the range
        have hparts := congrArg List.length hfirst
        rw [List.length_append, hlength] at hparts
        obtain ⟨doubled, after, rfl, hopens, hleft, htext⟩ := ih left.length (by omega) left rfl
        refine ⟨doubled, after, rfl, hopens, ?_, ?_⟩
        · rw [hfirst, List.append_assoc]
          exact Whole.append (by rwa [List.append_assoc]) hleft
        · have hinside : Whole piece (left ++ doubled) := by
            rw [← List.append_assoc] at hwhole
            exact hwhole.of_append_right
          rw [hfirst, List.append_assoc, hparts, plainText_append hwhole, htext, ← textOf_append,
            List.append_assoc, ← expand_append hinside]

/-- The tokens that a range takes from behind it, none where no piece reaches beyond it. -/
theorem exists_doubled (d : Dialect) (tablePrefix : String) (first next : List Token) :
    ∃ doubled after, next = doubled ++ after ∧ InsidePiece doubled ∧ Whole (first ++ doubled) after ∧
      plainText d tablePrefix first.length 0 (first ++ next) =
        textOf (expand d tablePrefix (first ++ doubled)) ∧ (doubled = [] ↔ Whole first next) := by
  by_cases hwhole : Whole first next
  · refine ⟨[], next, rfl, fun t ht => absurd ht List.not_mem_nil, ?_, ?_, fun _ => hwhole, fun _ => rfl⟩
    · rwa [List.append_nil]
    · rw [List.append_nil, plainText_whole hwhole]
  · obtain ⟨doubled, after, hnext, hnone, hend, htext⟩ := exists_pieceEnd d tablePrefix first next
    refine ⟨doubled, after, hnext, hnone, hend, htext, ?_, fun h => absurd h hwhole⟩
    rintro rfl
    rw [List.append_nil] at hend
    rwa [hnext]

variable {s : Statement} {sql : String} {predicates : List Expr} {stop : Nat}

/-! ## Added conditions -/

/-- The statement with several further conditions on its outermost WHERE. -/
def addPredicates (s : Statement) (predicates : List Expr) : Statement :=
  predicates.foldl addPredicate s

theorem addPredicates_eq (s : Statement) (predicates : List Expr) :
    s.addPredicates predicates = { s with predicates := s.predicates ++ predicates } := by
  unfold addPredicates
  induction predicates generalizing s with
  | nil => rw [List.foldl_nil, List.append_nil]
  | cons predicate rest ih =>
    rw [List.foldl_cons, ih]
    simp [addPredicate]

/-- A text with a condition added to the text of some tokens, in a new WHERE or beside the author's
condition, the tokens that it prints a second time, and the text without the added parts. -/
inductive Added (d : Dialect) (tablePrefix condition : String) :
    List Token → List Token → String → String → Prop
  | newClause (before after : List Token) (hwhole : Whole before after) :
    Added d tablePrefix condition (before ++ after) []
      (textOf (expand d tablePrefix before) ++ " " ++ textOf (expand d tablePrefix after))
      (textOf (expand d tablePrefix before) ++ "WHERE " ++ condition ++ " " ++
        textOf (expand d tablePrefix after))
  | lastClause (tokens : List Token) :
    Added d tablePrefix condition tokens []
      (Text.trimEnd (textOf (expand d tablePrefix tokens)) ++ "\n")
      (Text.trimEnd (textOf (expand d tablePrefix tokens)) ++ "\n" ++ "WHERE " ++ condition)
  | beside (before : List Token) (keyword : Token) (author doubled after : List Token)
      (body gap : String) (hkeyword : keyword.isKeyword "WHERE" = true)
      (hbefore : Whole before (keyword :: (author ++ (doubled ++ after))))
      (hauthor : Whole (author ++ doubled) after)
      (hbody : SameUpToBlanks body (textOf (expand d tablePrefix (author ++ doubled))))
      (hgap : gap = "" ∨ gap = " ") :
    Added d tablePrefix condition (before ++ keyword :: (author ++ (doubled ++ after))) doubled
      (textOf (expand d tablePrefix before) ++ keyword.text ++ " " ++ body ++ gap ++
        textOf (doubled ++ expand d tablePrefix after))
      (textOf (expand d tablePrefix before) ++ keyword.text ++ " " ++ "(" ++ body ++ ")" ++ " AND " ++
        condition ++ gap ++ textOf (doubled ++ expand d tablePrefix after))

/-- Without the added parts the text shows the tokens, and the doubled ones twice. -/
theorem Added.visible_stripped {condition stripped text : String} {tokens doubled : List Token}
    (h : Added d tablePrefix condition tokens doubled stripped text) :
    SameUpToBlanks stripped (textOf (expand d tablePrefix tokens)) ↔ visible (textOf doubled) = [] := by
  have hspace : visible " " = [] := by decide
  have hline : visible "\n" = [] := by decide
  have hnothing : visible "" = [] := by decide
  unfold SameUpToBlanks
  cases h with
  | newClause before after hwhole =>
    rw [expand_append hwhole, textOf_append, visible_append, visible_append, visible_append, hspace,
      List.append_nil]
    exact ⟨fun _ => rfl, fun _ => rfl⟩
  | lastClause tokens =>
    rw [visible_append, hline, List.append_nil, visible_trimEnd]
    exact ⟨fun _ => rfl, fun _ => rfl⟩
  | beside before keyword author doubled after body gap hkeyword hbefore hauthor hbody hgap =>
    obtain ⟨value, rfl, -⟩ := isKeyword_iff.1 hkeyword
    have hgap : visible gap = [] := by
      rcases hgap with rfl | rfl
      · exact hnothing
      · exact hspace
    rw [expand_append hbefore, expand_word, ← List.append_assoc author, expand_append hauthor]
    simp only [textOf_append, textOf_cons, visible_append, hspace, hgap, hbody.symm,
      List.append_nil, List.append_assoc]
    rw [List.append_cancel_left_eq, List.append_cancel_left_eq, List.append_cancel_left_eq]
    exact List.append_left_eq_self

/-- No piece of the printer reaches beyond the end of the WHERE clause. -/
def Unbroken (s : Statement) : Prop :=
  ∀ start stop, s.clauseSpan? .condition = some (start, stop) →
    Whole (s.tokens.take stop) (s.tokens.drop stop)

instance : Decidable s.Unbroken :=
  decidable_of_iff (∀ span ∈ s.clauseSpan? .condition,
      Whole (s.tokens.take span.2) (s.tokens.drop span.2))
    ⟨fun h start stop hspan => h (start, stop) hspan, fun h span hspan => h span.1 span.2 hspan⟩

theorem predicateSql?_addPredicates (hnone : s.predicates = []) (hne : predicates ≠ []) :
    (s.addPredicates predicates).predicateSql? =
      some (" AND ".intercalate (predicates.map (·.sql s.dialect))) := by
  rw [addPredicates_eq, predicateSql?, hnone, List.nil_append]
  obtain ⟨predicate, rest, rfl⟩ := List.exists_cons_of_ne_nil hne
  rfl

/-- Conditions are added beside the author's one, where there is one. -/
theorem insertion_beside (hnone : s.predicates = []) (hne : predicates ≠ []) {start stop : Nat}
    (hspan : s.clauseSpan? .condition = some (start, stop)) :
    (s.addPredicates predicates).insertion =
      .beside start stop (" AND ".intercalate (predicates.map (·.sql s.dialect))) := by
  unfold insertion
  rw [predicateSql?_addPredicates hnone hne, addPredicates_eq,
    show clauseSpan? { s with predicates := s.predicates ++ predicates } .condition = _ from hspan]

/-- Otherwise they stand behind FROM. -/
theorem insertion_newCondition (hnone : s.predicates = []) (hne : predicates ≠ [])
    {start place : Nat} (hcondition : s.clauseSpan? .condition = none)
    (hspan : s.clauseSpan? .source = some (start, place)) :
    (s.addPredicates predicates).insertion =
      .newCondition place (" AND ".intercalate (predicates.map (·.sql s.dialect))) := by
  unfold insertion
  rw [predicateSql?_addPredicates hnone hne, addPredicates_eq,
    show clauseSpan? { s with predicates := s.predicates ++ predicates } .condition = _ from hcondition,
    show clauseSpan? { s with predicates := s.predicates ++ predicates } .source = _ from hspan]

/-- The range of the WHERE clause, and the token behind it. -/
theorem parse_condition (h : parse sql d = .ok s) {start stop : Nat}
    (hspan : s.clauseSpan? .condition = some (start, stop)) :
    start < stop ∧ stop ≤ s.tokens.length ∧
      (∃ keyword rest, s.tokens.drop start = keyword :: rest ∧ keyword.isKeyword "WHERE" = true) ∧
      ∀ next more, s.tokens.drop stop = next :: more → visible next.text ≠ [] := by
  obtain ⟨-, hstands, hpositions⟩ := parse_found h
  obtain ⟨first, c, rest, hclauses, hkind, rfl, rfl⟩ := spanIn?_eq_some hspan
  have hc : c ∈ s.clauses := by simp [hclauses]
  rw [hclauses, List.pairwise_append, List.pairwise_cons] at hpositions
  obtain ⟨-, ⟨hlater, -⟩, -⟩ := hpositions
  obtain ⟨hlt, hopen⟩ := hstands c hc
  obtain ⟨keyword, more, hdrop, word, hword, hkeyword⟩ := isKeyword_of_startsClause hopen.starts
  rw [hkind] at hword
  obtain rfl := List.mem_singleton.1 hword
  -- the clause ends with the statement or before the keyword of the next clause
  cases rest with
  | nil =>
    refine ⟨hlt, le_rfl, ⟨keyword, more, hdrop, hkeyword⟩, fun next more hnext => ?_⟩
    rw [List.head?_nil, Option.map_none, Option.getD_none, List.drop_length] at hnext
    exact absurd hnext.symm (List.cons_ne_nil _ _)
  | cons following rest =>
    obtain ⟨hfollowing, hstarts⟩ := hstands following (by simp [hclauses])
    refine ⟨hlater following List.mem_cons_self, hfollowing.le, ⟨keyword, more, hdrop, hkeyword⟩,
      fun next more hnext => ?_⟩
    obtain ⟨t, more', hdrop', word, hword, ht⟩ := isKeyword_of_startsClause hstarts.starts
    have hsame : t :: more' = next :: more := hdrop'.symm.trans hnext
    obtain ⟨rfl, -⟩ := List.cons.inj hsame
    exact visible_of_keyword hword ht

/-- A condition in parentheses, as far as it is visible. -/
theorem exists_body (d : Dialect) (tablePrefix : String) (count : Nat) (tokens : List Token) :
    ∃ body, enclosedCondition d tablePrefix count tokens = "(" ++ body ++ ")" ∧
      SameUpToBlanks body (plainText d tablePrefix count 0 tokens) := by
  have hline : visible "\n" = [] := by decide
  have hnothing : visible "" = [] := by decide
  refine ⟨Text.trim (plainText d tablePrefix count 0 tokens) ++
    (if ((tokens.take count).reverse.find? (!·.isBlank)).any isLineComment then "\n" else ""), ?_, ?_⟩
  · unfold enclosedCondition
    dsimp only
    simp only [String.append_assoc]
  · unfold SameUpToBlanks
    rw [visible_append, visible_trim]
    split
    · rw [hline, List.append_nil]
    · rw [hnothing, List.append_nil]

/-- The tokens before a WHERE clause, in it and behind it. -/
theorem exists_condition_parts (h : parse sql d = .ok s) {start stop : Nat}
    (hspan : s.clauseSpan? .condition = some (start, stop)) : ∃ before keyword author next,
      s.tokens = before ++ keyword :: (author ++ next) ∧ before.length = start ∧
        before.length + 1 + author.length = stop ∧ keyword.isKeyword "WHERE" = true ∧
          ∀ t more, next = t :: more → visible t.text ≠ [] := by
  obtain ⟨hlt, hle, ⟨keyword, rest, hdrop, hkeyword⟩, hnext⟩ := parse_condition h hspan
  have hrest : s.tokens.drop stop = rest.drop (stop - start - 1) := by
    rw [show stop = start + (stop - start - 1 + 1) by omega, ← List.drop_drop, hdrop,
      List.drop_succ_cons, show start + (stop - start - 1 + 1) - start - 1 = stop - start - 1 by omega]
  have hlength := congrArg List.length hdrop
  rw [List.length_drop, List.length_cons] at hlength
  have hbefore : (s.tokens.take start).length = start := by
    rw [List.length_take]
    omega
  refine ⟨s.tokens.take start, keyword, rest.take (stop - start - 1), rest.drop (stop - start - 1),
    ?_, hbefore, ?_, hkeyword, ?_⟩
  · rw [List.take_append_drop, ← hdrop, List.take_append_drop]
  · rw [hbefore, List.length_take]
    omega
  · rw [← hrest]
    exact hnext

/-- The text of a statement with a condition beside the author's one. -/
theorem render_beside {before author next : List Token} {keyword : Token} {text : String}
    (htokens : s.tokens = before ++ keyword :: (author ++ next))
    (hinsertion : s.insertion = .beside before.length (before.length + 1 + author.length) text)
    (hbefore : Whole before (keyword :: (author ++ next))) :
    s.render tablePrefix = textOf (expand s.dialect tablePrefix before) ++ (keyword.text ++ " " ++
      enclosedCondition s.dialect tablePrefix author.length (author ++ next) ++ " AND " ++ text ++
        (if next = [] then "" else " ") ++ textOf (expand s.dialect tablePrefix next)) := by
  have hstop : s.tokens.length = before.length + 1 + author.length + next.length := by
    rw [htokens]
    simp only [List.length_append, List.length_cons]
    omega
  have hopen := @renderFrom_open s.dialect tablePrefix text before author next [] keyword
    s.tokens.length (by rwa [List.append_nil]) (whole_nil_right next) hstop
  rw [List.append_nil] at hopen
  unfold render renderUntil
  rw [hinsertion]
  dsimp only
  rw [htokens] at hopen ⊢
  exact hopen

theorem exists_added_condition (h : parse sql d = .ok s) (hne : predicates ≠ []) {start stop : Nat}
    (hspan : s.clauseSpan? .condition = some (start, stop))
    (hbefore : Whole (s.tokens.take start) (s.tokens.drop start)) :
    ∃ doubled stripped, Added s.dialect tablePrefix
        (" AND ".intercalate (predicates.map (·.sql s.dialect))) s.tokens doubled stripped
        ((s.addPredicates predicates).render tablePrefix) ∧
      (doubled = [] ↔ Whole (s.tokens.take stop) (s.tokens.drop stop)) ∧
      (visible (textOf doubled) = [] → doubled = []) := by
  obtain ⟨-, hnone, -⟩ := parse_eq_ok h
  obtain ⟨before, keyword, author, next, htokens, rfl, rfl, hkeyword, hvisible⟩ :=
    exists_condition_parts h hspan
  obtain ⟨doubled, after, rfl, hopens, hwhole, htext, hiff⟩ :=
    exists_doubled s.dialect tablePrefix author next
  obtain ⟨body, henclosed, hbody⟩ := exists_body s.dialect tablePrefix author.length
    (author ++ (doubled ++ after))
  rw [htext] at hbody
  rw [htokens, List.take_left, List.drop_left] at hbefore
  have hinsertion := insertion_beside hnone hne hspan
  have hrender := @render_beside tablePrefix (s.addPredicates predicates) before author
    (doubled ++ after) keyword _ (by rw [addPredicates_eq]; exact htokens) hinsertion hbefore
  have hcut : s.tokens = (before ++ keyword :: author) ++ (doubled ++ after) := by
    rw [htokens, List.append_assoc, List.cons_append]
  have hlength : before.length + 1 + author.length = (before ++ keyword :: author).length := by
    rw [List.length_append, List.length_cons]
    omega
  -- the stripped text lacks the parentheses, the AND and the added conditions
  refine ⟨doubled, textOf (expand s.dialect tablePrefix before) ++ keyword.text ++ " " ++ body ++
    (if doubled ++ after = [] then "" else " ") ++
      textOf (doubled ++ expand s.dialect tablePrefix after), ?_, ?_, ?_⟩
  · have htext : (s.addPredicates predicates).render tablePrefix =
        textOf (expand s.dialect tablePrefix before) ++ keyword.text ++ " " ++ "(" ++ body ++ ")" ++
          " AND " ++ " AND ".intercalate (predicates.map (·.sql s.dialect)) ++
            (if doubled ++ after = [] then "" else " ") ++
              textOf (doubled ++ expand s.dialect tablePrefix after) := by
      rw [hrender, addPredicates_eq, henclosed, hopens.expand_append]
      simp only [String.append_assoc]
    rw [htext, htokens]
    exact .beside before keyword author doubled after body _ hkeyword hbefore hwhole hbody
      (by split <;> simp)
  · rw [hlength, hcut, List.take_left, List.drop_left, hiff]
    obtain ⟨value, rfl, -⟩ := isKeyword_iff.1 hkeyword
    exact ⟨fun h => hbefore.append ((whole_single ⟨rfl, rfl⟩).2 h), fun h => h.of_append.tail⟩
  · intro hinvisible
    cases doubled with
    | nil => rfl
    | cons t rest =>
      rw [textOf_cons, visible_append, List.append_eq_nil_iff] at hinvisible
      exact absurd hinvisible.1 (hvisible t (rest ++ after) rfl)

/-- The text of a statement with a condition in a new WHERE. -/
theorem render_newCondition {before after : List Token} {text : String}
    (htokens : s.tokens = before ++ after) (hinsertion : s.insertion = .newCondition before.length text)
    (hbefore : Whole before after) :
    s.render tablePrefix = if after = [] then
        Text.trimEnd (textOf (expand s.dialect tablePrefix before)) ++ "\n" ++ "WHERE " ++ text
      else textOf (expand s.dialect tablePrefix before) ++ "WHERE " ++ text ++ " " ++
        textOf (expand s.dialect tablePrefix after) := by
  have hstop : s.tokens.length = before.length + after.length := by
    rw [htokens, List.length_append]
  have hbody := @renderFrom_newCondition s.dialect tablePrefix text before after [] s.tokens.length
    (by rwa [List.append_nil]) (whole_nil_right after) hstop
  rw [List.append_nil, ← htokens] at hbody
  unfold render renderUntil
  rw [hinsertion]
  dsimp only
  rw [hbody]
  -- at the end of the statement the clause starts a line of its own
  cases after with
  | nil =>
    have hline : "\nWHERE " = "\n" ++ "WHERE " := rfl
    have hempty : textOf (expand s.dialect tablePrefix []) = "" := rfl
    have hend : before.length = s.tokens.length := hstop.symm
    rw [if_pos hend, if_pos rfl, if_pos rfl, hempty, String.append_empty, String.append_empty,
      hline]
    simp only [String.append_assoc]
  | cons t rest =>
    have hinside : before.length ≠ s.tokens.length := by
      rw [hstop, List.length_cons]
      omega
    rw [if_neg hinside, if_neg (List.cons_ne_nil _ _), if_neg (List.cons_ne_nil _ _)]
    simp only [String.append_assoc]

theorem exists_added_source (h : parse sql d = .ok s) (hne : predicates ≠ []) {start place : Nat}
    (hcondition : s.clauseSpan? .condition = none) (hspan : s.clauseSpan? .source = some (start, place))
    (hplace : place = s.tokens.length ∨
      place < s.tokens.length ∧ Whole (s.tokens.take place) (s.tokens.drop place)) :
    ∃ stripped, Added s.dialect tablePrefix (" AND ".intercalate (predicates.map (·.sql s.dialect)))
      s.tokens [] stripped ((s.addPredicates predicates).render tablePrefix) := by
  obtain ⟨-, hnone, -⟩ := parse_eq_ok h
  have hinsertion := insertion_newCondition hnone hne hcondition hspan
  have htokens : (s.addPredicates predicates).tokens = s.tokens := by rw [addPredicates_eq]
  have hdialect : (s.addPredicates predicates).dialect = s.dialect := by rw [addPredicates_eq]
  -- the new clause stands at the end or before the next clause
  rcases hplace with rfl | ⟨hlt, hwhole⟩
  · have hrender := @render_newCondition tablePrefix (s.addPredicates predicates) s.tokens [] _
      (by rw [htokens, List.append_nil]) hinsertion (whole_nil_right _)
    rw [if_pos rfl, hdialect] at hrender
    rw [hrender]
    exact ⟨_, .lastClause s.tokens⟩
  · have hlength : (s.tokens.take place).length = place := by
      rw [List.length_take]
      omega
    have hafter : s.tokens.drop place ≠ [] := by
      rw [Ne, List.drop_eq_nil_iff]
      omega
    have hrender := @render_newCondition tablePrefix (s.addPredicates predicates) (s.tokens.take place)
      (s.tokens.drop place) _ (by rw [htokens, List.take_append_drop]) (by rw [hlength, hinsertion])
        hwhole
    rw [if_neg hafter, hdialect] at hrender
    have hadded : Added s.dialect tablePrefix (" AND ".intercalate (predicates.map (·.sql s.dialect)))
        (s.tokens.take place ++ s.tokens.drop place) [] _ _ :=
      .newClause (s.tokens.take place) (s.tokens.drop place) hwhole
    rw [← hrender, List.take_append_drop] at hadded
    exact ⟨_, hadded⟩

/-- Conditions that are added to a statement. Where the printer does not come to their place, nothing
is added. Elsewhere all tokens are printed in order with one WHERE, or one AND and a pair of
parentheses, between them, and they are printed once exactly if no piece reaches beyond the WHERE
clause. -/
theorem render_addPredicates (h : parse sql d = .ok s) (hne : predicates ≠ []) (tablePrefix : String) :
    (¬ s.Reaches s.tokens.length →
      (s.addPredicates predicates).render tablePrefix = s.render tablePrefix) ∧
    (s.Reaches s.tokens.length → ∃ doubled stripped,
      Added s.dialect tablePrefix (" AND ".intercalate (predicates.map (·.sql s.dialect))) s.tokens
        doubled stripped ((s.addPredicates predicates).render tablePrefix) ∧
      (doubled = [] ↔ s.Unbroken) ∧
      (SameUpToBlanks stripped (s.render tablePrefix) ↔ s.Unbroken)) := by
  obtain ⟨-, hnone, -⟩ := parse_eq_ok h
  refine ⟨fun hmissed => ?_, fun hreaches => ?_⟩
  · rw [addPredicates_eq]
    exact renderUntil_missed hnone hmissed _
  rw [render_eq hnone]
  unfold Reaches at hreaches
  -- the conditions stand beside the author's one or in a clause of their own
  cases hcondition : s.clauseSpan? .condition with
  | some span =>
    obtain ⟨start, stop⟩ := span
    rw [hcondition] at hreaches
    obtain ⟨doubled, stripped, hadded, hiff, hvisible⟩ :=
      @exists_added_condition d tablePrefix s sql predicates h hne start stop hcondition hreaches.2
    have hunbroken : doubled = [] ↔ s.Unbroken := by
      rw [hiff]
      refine ⟨fun hwhole start' stop' hspan => ?_, fun hunbroken => hunbroken start stop hcondition⟩
      obtain ⟨-, rfl⟩ := Prod.mk.inj (Option.some.inj (hcondition.symm.trans hspan))
      exact hwhole
    refine ⟨doubled, stripped, hadded, hunbroken, ?_⟩
    rw [hadded.visible_stripped, ← hunbroken]
    exact ⟨hvisible, fun hnil => by rw [hnil]; rfl⟩
  | none =>
    have hunbroken : s.Unbroken := fun start stop hspan => by simp [hcondition] at hspan
    cases hsource : s.clauseSpan? .source with
    | none => simp [hcondition, hsource] at hreaches
    | some span =>
      obtain ⟨start, place⟩ := span
      rw [hcondition, hsource] at hreaches
      obtain ⟨stripped, hadded⟩ :=
        @exists_added_source d tablePrefix s sql predicates h hne start place hcondition hsource hreaches
      refine ⟨[], stripped, hadded, iff_of_true rfl hunbroken, ?_⟩
      rw [hadded.visible_stripped]
      exact iff_of_true rfl hunbroken

/-- Two conditions beside an author's one that holds a placeholder. -/
theorem render_addPredicates_both : ∃ s,
    parse "SELECT u.id FROM \x7buser\x7d u WHERE u.city = :city OR u.id = 1 -- both\nORDER BY u.id"
      .sqlite = .ok s ∧
    ∃ doubled stripped, Added s.dialect "app_" "u.id = :first AND u.id <> :second" s.tokens doubled stripped
        ((s.addPredicates [.binary .eq (.column (some "u") "id") (.placeholder "first"),
          .binary .ne (.column (some "u") "id") (.placeholder "second")]).render "app_") ∧
      doubled = [] ∧ SameUpToBlanks stripped (s.render "app_") := by
  obtain ⟨s, hparse, hdialect, hreaches, hunbroken⟩ : ∃ s, parse
      "SELECT u.id FROM \x7buser\x7d u WHERE u.city = :city OR u.id = 1 -- both\nORDER BY u.id" .sqlite =
        .ok s ∧
      s.dialect = .sqlite ∧ s.Reaches s.tokens.length ∧ s.Unbroken := by
    decide +kernel
  obtain ⟨doubled, stripped, hadded, hdoubled, hsame⟩ :=
    (render_addPredicates hparse (List.cons_ne_nil
      (.binary .eq (.column (some "u") "id") (.placeholder "first"))
        [.binary .ne (.column (some "u") "id") (.placeholder "second")]) "app_").2 hreaches
  refine ⟨s, hparse, doubled, stripped, ?_, hdoubled.2 hunbroken, hsame.2 hunbroken⟩
  have htext : " AND ".intercalate ([Expr.binary .eq (.column (some "u") "id") (.placeholder "first"),
      .binary .ne (.column (some "u") "id") (.placeholder "second")].map (·.sql .sqlite)) =
        "u.id = :first AND u.id <> :second" := by decide +kernel
  rw [hdialect] at hadded ⊢
  rwa [← htext]

/-- A placeholder named like a keyword ends the WHERE clause within its last piece. -/
theorem render_addPredicates_straddled : ∃ s,
    parse "SELECT u.id FROM \x7buser\x7d u WHERE u.a >= :from AND u.a < :to" .sqlite = .ok s ∧
    s.setOperation = false ∧
    (s.addPredicates [.binary .eq (.column (some "u") "id") (.placeholder "scope")]).render "" =
      "SELECT u.id FROM \"user\" u WHERE (u.a >= :from) AND u.id = :scope from AND u.a < :to" := by
  decide +kernel

end Statement

end ReportSql
