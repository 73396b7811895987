import ReportSql.Proofs.Statement.SourceLists

/-!
# Where tables are named

The readers of table lists come to an end, and for each table they keep the depth of
parentheses that was passed down to them. This depth is the number of parentheses
that are open where the name stands, counted from the start of the statement. What a
reader passes over opens no parenthesis that it does not close, so a reader inside
parentheses stops before the closing one.

## Main definitions

* `TableSite` - a table and the place of its name
* `Statement.ListSites`, `Statement.ReferenceSites` - a run of a reader and the tables on its way
* `Token.Leaves` - the tokens behind a part that leaves parentheses open

## Main results

* `Statement.ListSites.mentions_eq` - the run that the reader of a list makes
* `Statement.mentions_depth` - the tables of a statement and their depths
-/

namespace ReportSql

/-- A table, and the tokens from its name on. -/
structure TableSite where
  place : List Token
  mention : TableMention

namespace Token

/-! ## Tokens behind others -/

theorem Open.trans {depth depth' : Nat} {first second : List Token} (h : Open depth first)
    (h' : Open depth' second) : Open (depth + depth') (first ++ second) := by
  induction h' with
  | balanced h' => exact h.append h'
  | opened _ hrest ih =>
    rw [← List.append_assoc]
    exact .opened ih hrest

/-- Closing parentheses for all that are open. -/
theorem Open.closed {depth : Nat} {tokens : List Token} (h : Open depth tokens) :
    Balanced (tokens ++ List.replicate depth (.punctuation .closeParen)) := by
  induction depth generalizing tokens with
  | zero =>
    rw [List.replicate_zero, List.append_nil]
    exact open_zero_iff.1 h
  | succ depth ih =>
    have hclosed := ih h.closeParen
    rwa [List.append_assoc, List.singleton_append] at hclosed

/-- A parenthesis that was not opened is never closed. -/
theorem Open.not_closed {depth : Nat} {first rest : List Token} (hfirst : Balanced first) :
    ¬ Open depth (first ++ .punctuation .closeParen :: rest) := by
  intro h
  have hclosed := h.closed
  rw [List.append_assoc] at hclosed
  cases hfirst.of_append hclosed with
  | other _ closes => exact closes rfl

/-- Tokens that are left behind a part of others, which leaves a number of parentheses open. -/
def Leaves (depth : Nat) (tokens rest : List Token) : Prop :=
  ∃ first, tokens = first ++ rest ∧ Open depth first

variable {depth depth' : Nat} {tokens middle rest : List Token} {t : Token}

theorem leaves_refl (tokens : List Token) : Leaves 0 tokens tokens :=
  ⟨[], rfl, .balanced .nil⟩

theorem Leaves.trans (h : Leaves depth tokens middle) (h' : Leaves depth' middle rest) :
    Leaves (depth + depth') tokens rest := by
  obtain ⟨first, rfl, hfirst⟩ := h
  obtain ⟨second, rfl, hsecond⟩ := h'
  exact ⟨first ++ second, by rw [List.append_assoc], hfirst.trans hsecond⟩

/-- Behind matching parentheses as many are open as before. -/
theorem Leaves.zero_trans (h : Leaves 0 tokens middle) (h' : Leaves depth middle rest) :
    Leaves depth tokens rest := by
  have htrans := h.trans h'
  rwa [Nat.zero_add] at htrans

theorem leaves_cons (ht : t.isParen = false) (rest : List Token) : Leaves 0 (t :: rest) rest := by
  obtain ⟨opens, closes⟩ := isParen_eq_false.1 ht
  exact ⟨[t], rfl, .balanced (.other opens closes .nil)⟩

theorem leaves_openParen (rest : List Token) :
    Leaves 1 (.punctuation .openParen :: rest) rest :=
  ⟨[.punctuation .openParen], rfl, .opened (.balanced .nil) .nil⟩

theorem leaves_skipTrivia (tokens : List Token) : Leaves 0 tokens (skipTrivia tokens) := by
  have hgap : ∀ t ∈ tokens.takeWhile isTrivia, t.isTrivia = true := fun _ => List.mem_takeWhile_imp
  exact ⟨tokens.takeWhile isTrivia, List.takeWhile_append_dropWhile.symm,
    .balanced (balanced_gap ⟨_, hgap⟩)⟩

/-- Tokens that close a number of parentheses and then the one before these, with what is left of them. -/
def ClosesPair (depth : Nat) (tokens outer : List Token) : Prop :=
  ∃ inner, tokens = inner ++ .punctuation .closeParen :: outer ∧
    ∀ first, Open depth first → Balanced (first ++ inner)

theorem ClosesPair.cons {outer : List Token} (h : ClosesPair depth' rest outer)
    (ht : ∀ first, Open depth first → Open depth' (first ++ [t])) : ClosesPair depth (t :: rest) outer := by
  obtain ⟨inner, rfl, hinner⟩ := h
  refine ⟨_, List.cons_append.symm, fun first hfirst => ?_⟩
  rw [← List.singleton_append, ← List.append_assoc]
  exact hinner _ (ht first hfirst)

/-- The reader of a pair of parentheses stops behind the one that closes it. -/
theorem closesPair_afterClosing? {outer : List Token}
    (h : Statement.afterClosing? depth tokens = some outer) : ClosesPair depth tokens outer := by
  fun_induction Statement.afterClosing? depth tokens with
  | case1 => simp at h
  | case2 depth rest ih => exact (ih h).cons fun _ => Open.openParen
  | case3 rest =>
    obtain rfl := Option.some.inj h
    exact ⟨[], rfl, fun first hfirst => by rw [List.append_nil]; exact open_zero_iff.1 hfirst⟩
  | case4 depth rest ih => exact (ih h).cons fun _ => Open.closeParen
  | case5 depth t rest hopen hclose hclose' ih =>
    have hother : t ≠ .punctuation .closeParen := by
      cases depth with
      | zero => exact hclose rfl
      | succ depth => exact hclose' depth rfl
    exact (ih h).cons fun _ hfirst => hfirst.append (.other hopen hother .nil)

theorem leaves_afterClosing? {inner outer : List Token}
    (h : Statement.afterClosing? 0 inner = some outer) :
    Leaves 0 (.punctuation .openParen :: inner) outer := by
  obtain ⟨content, rfl, hcontent⟩ := closesPair_afterClosing? h
  refine ⟨.punctuation .openParen :: (content ++ [.punctuation .closeParen]), by simp, .balanced ?_⟩
  exact .enclosed (hcontent [] (.balanced .nil)) .nil

end Token

namespace Statement

open Token

/-! ## What the readers pass over -/

theorem isParen_of_isKeyword {keyword : String} {t : Token} (h : t.isKeyword keyword = true) :
    t.isParen = false :=
  isParen_eq_false.2 ⟨isKeyword_ne_punctuation h _, isKeyword_ne_punctuation h _⟩

theorem isParen_of_aliasName? {t : Token} {name : String} (h : aliasName? t = some name) :
    t.isParen = false := by
  unfold aliasName? at h
  split at h
  · rfl
  · rfl
  · simp at h

theorem leaves_aliasCandidates {tokens rest : List Token} {candidate : Token}
    (h : aliasCandidates tokens = candidate :: rest) : Leaves 0 tokens (candidate :: rest) := by
  have hskip := leaves_skipTrivia tokens
  unfold aliasCandidates at h
  split at h
  · simp at h
  · rename_i first more hfirst
    rw [hfirst] at hskip
    split at h
    · rename_i has
      rw [← h]
      exact hskip.zero_trans ((leaves_cons (isParen_of_isKeyword has) more).zero_trans (leaves_skipTrivia more))
    · rwa [← h]

theorem leaves_readAlias (tokens : List Token) : Leaves 0 tokens (readAlias tokens).2 := by
  rw [readAlias_eq]
  split
  · exact leaves_refl tokens
  · rename_i candidate rest hcandidates
    split
    · rename_i name hname
      exact (leaves_aliasCandidates hcandidates).zero_trans (leaves_cons (isParen_of_aliasName? hname) rest)
    · exact leaves_refl tokens

theorem leaves_readNameParts (tokens : List Token) : Leaves 0 tokens (readNameParts tokens).2 := by
  fun_induction readNameParts tokens with
  | case1 part quote rest more left heq ih =>
    rw [heq] at ih
    exact (leaves_cons rfl _).zero_trans ((leaves_cons rfl rest).zero_trans ih)
  | case2 => exact leaves_refl _

theorem leaves_readName? {tokens left : List Token} {name : String} {braced : Bool}
    (h : readName? tokens = some (name, braced, left)) : Leaves 0 tokens left := by
  unfold readName? at h
  split at h
  · rename_i table htable
    obtain ⟨rest, rfl⟩ := bracedTable?_eq_some.1 htable
    obtain ⟨-, -, rfl⟩ : table = name ∧ true = braced ∧ rest = left := by simpa using h
    exact (leaves_cons rfl _).zero_trans ((leaves_cons rfl _).zero_trans (leaves_cons rfl rest))
  · split at h
    · rename_i first quote rest _
      obtain ⟨-, -, rfl⟩ : _ = name ∧ false = braced ∧ (readNameParts rest).2 = left := by
        simpa using h
      exact (leaves_cons rfl _).zero_trans (leaves_readNameParts rest)
    · simp at h

/-! ## Runs of the readers -/

mutual

/-- A run of the reader of a list, given its depth, and the tables on its way. -/
inductive ListSites : Nat → List Token → List TableSite → Prop
  | last {depth : Nat} {tokens : List Token} {sites : List TableSite} {left? : Option (List Token)}
      (reference : ReferenceSites depth tokens sites left?) (ends : afterComma? left? = none) :
      ListSites depth tokens sites
  | more {depth : Nat} {tokens rest : List Token} {sites others : List TableSite}
      {left? : Option (List Token)} (reference : ReferenceSites depth tokens sites left?)
      (comma : afterComma? left? = some rest) (following : ListSites depth rest others) :
      ListSites depth tokens (sites ++ others)

/-- A run of the reader of one reference, the tables on its way, and the tokens it leaves. -/
inductive ReferenceSites : Nat → List Token → List TableSite → Option (List Token) → Prop
  | nothing {depth : Nat} {tokens : List Token} (ends : skipTrivia tokens = []) :
      ReferenceSites depth tokens [] none
  | unclosed {depth : Nat} {tokens inner : List Token}
      (opened : skipTrivia tokens = .punctuation .openParen :: inner)
      (notClosed : afterClosing? 0 inner = none) : ReferenceSites depth tokens [] none
  | derived {depth : Nat} {tokens inner outer : List Token}
      (opened : skipTrivia tokens = .punctuation .openParen :: inner)
      (closed : afterClosing? 0 inner = some outer)
      (select : (firstSignificant? inner).any (·.isKeyword "SELECT") = true) :
      ReferenceSites depth tokens [] (some (readAlias outer).2)
  | enclosed {depth : Nat} {tokens inner outer : List Token} {sites : List TableSite}
      (opened : skipTrivia tokens = .punctuation .openParen :: inner)
      (closed : afterClosing? 0 inner = some outer)
      (noSelect : (firstSignificant? inner).any (·.isKeyword "SELECT") = false)
      (list : ListSites (depth + 1) inner sites) :
      ReferenceSites depth tokens sites (some (readAlias outer).2)
  | unreadable {depth : Nat} {tokens : List Token} (starts : skipTrivia tokens ≠ [])
      (notOpened : ∀ inner, skipTrivia tokens ≠ .punctuation .openParen :: inner)
      (noName : readName? (skipTrivia tokens) = none) : ReferenceSites depth tokens [] none
  | call {depth : Nat} {tokens left : List Token} {name : String} {braced : Bool}
      (named : readName? (skipTrivia tokens) = some (name, braced, left))
      (opened : firstSignificant? left = some (.punctuation .openParen)) :
      ReferenceSites depth tokens [] none
  | table {depth : Nat} {tokens left : List Token} {name : String} {braced : Bool}
      (named : readName? (skipTrivia tokens) = some (name, braced, left))
      (notOpened : firstSignificant? left ≠ some (.punctuation .openParen)) :
      ReferenceSites depth tokens [⟨skipTrivia tokens, ⟨name, (readAlias left).1, depth, braced⟩⟩]
        (some (readAlias left).2)

end

mutual

/-- The reader of a list makes the run. -/
theorem ListSites.mentions_eq : ∀ {depth : Nat} {tokens : List Token} {sites : List TableSite},
    ListSites depth tokens sites → (tableList depth tokens).mentions = sites.map (·.mention)
  | _, _, _, .last reference ends => by
    obtain ⟨hmentions, hleft⟩ := reference.tableRef_eq
    rw [tableList_eq, hleft, ends]
    exact hmentions
  | _, _, _, .more reference comma following => by
    obtain ⟨hmentions, hleft⟩ := reference.tableRef_eq
    rw [tableList_eq, hleft, comma, List.map_append, ← hmentions, ← following.mentions_eq]
    rfl

/-- The reader of a reference makes the run. -/
theorem ReferenceSites.tableRef_eq : ∀ {depth : Nat} {tokens : List Token} {sites : List TableSite}
    {left? : Option (List Token)}, ReferenceSites depth tokens sites left? →
      (tableRef depth tokens).1.mentions = sites.map (·.mention) ∧
        (tableRef depth tokens).2 = left?
  | _, _, _, _, .nothing ends => by
    rw [Statement.tableRef_eq, ends]
    exact ⟨rfl, rfl⟩
  | _, _, _, _, .unclosed opened notClosed => by
    rw [Statement.tableRef_eq, opened]
    dsimp only
    rw [notClosed]
    exact ⟨rfl, rfl⟩
  | _, _, _, _, .derived opened closed select => by
    rw [tableRef_of_openParen opened closed, if_pos select]
    exact ⟨rfl, rfl⟩
  | _, _, _, _, .enclosed opened closed noSelect list => by
    rw [tableRef_of_openParen opened closed, if_neg (Bool.eq_false_iff.1 noSelect)]
    exact ⟨list.mentions_eq, rfl⟩
  | _, _, _, _, .unreadable starts notOpened noName => by
    rw [tableRef_of_noName noName starts notOpened]
    exact ⟨rfl, rfl⟩
  | _, _, _, _, .call named opened => by
    rw [tableRef_of_name named, if_pos opened]
    exact ⟨rfl, rfl⟩
  | _, _, _, _, .table named notOpened => by
    rw [tableRef_of_name named, if_neg notOpened]
    exact ⟨rfl, rfl⟩

end

/-- The reader of a reference comes to an end if the readers of shorter lists do. -/
theorem exists_referenceSites (depth : Nat) (tokens : List Token)
    (hshorter : ∀ inner : List Token, inner.length < tokens.length →
      ∃ sites, ListSites (depth + 1) inner sites) :
    ∃ sites left?, ReferenceSites depth tokens sites left? := by
  by_cases hnothing : skipTrivia tokens = []
  · exact ⟨_, _, .nothing hnothing⟩
  by_cases hopened : ∃ inner, skipTrivia tokens = .punctuation .openParen :: inner
  · obtain ⟨inner, hopened⟩ := hopened
    cases hclosed : afterClosing? 0 inner with
    | none => exact ⟨_, _, .unclosed hopened hclosed⟩
    | some outer =>
      cases hselect : (firstSignificant? inner).any (·.isKeyword "SELECT") with
      | true => exact ⟨_, _, .derived hopened hclosed hselect⟩
      | false =>
        have hlength := (skipTrivia_isSuffix tokens).length_le
        rw [hopened, List.length_cons] at hlength
        obtain ⟨sites, hsites⟩ := hshorter inner hlength
        exact ⟨_, _, .enclosed hopened hclosed hselect hsites⟩
  · cases hname : readName? (skipTrivia tokens) with
    | none => exact ⟨_, _, .unreadable hnothing (not_exists.1 hopened) hname⟩
    | some named =>
      obtain ⟨name, braced, left⟩ := named
      by_cases hcall : firstSignificant? left = some (.punctuation .openParen)
      · exact ⟨_, _, .call hname hcall⟩
      · exact ⟨_, _, .table hname hcall⟩

/-- The reader of a list comes to an end, wherever it starts. -/
theorem exists_listSites (depth : Nat) (tokens : List Token) : ∃ sites, ListSites depth tokens sites := by
  -- on the number of tokens, because every part of a run starts behind its first token
  induction hlength : tokens.length using Nat.strongRecOn generalizing depth tokens with
  | ind n ih =>
    subst hlength
    obtain ⟨sites, left?, href⟩ := exists_referenceSites depth tokens
      fun inner hinner => ih inner.length hinner _ inner rfl
    cases hcomma : afterComma? left? with
    | none => exact ⟨sites, .last href hcomma⟩
    | some rest =>
      have hlt : rest.length < tokens.length := by
        rw [← href.tableRef_eq.2] at hcomma
        exact afterComma?_length hcomma
      obtain ⟨others, hothers⟩ := ih rest.length hlt depth rest rfl
      exact ⟨sites ++ others, .more href hcomma hothers⟩

/-! ## Depths -/

end Statement

namespace TableSite

open Token

/-- The name of the table and its alias are read at its place. -/
def Named (site : TableSite) : Prop :=
  ∃ left, Statement.readName? site.place = some (site.mention.name, site.mention.braced, left) ∧
    site.mention.alias? = (Statement.readAlias left).1

/-- The table is named behind the start of a list, and it is deeper than the list by the parentheses that
are open in between. -/
structure Below (site : TableSite) (depth : Nat) (tokens : List Token) : Prop where
  named : site.Named
  deeper : ∃ more, Leaves more tokens site.place ∧ site.mention.depth = depth + more

variable {site : TableSite} {depth more : Nat} {tokens rest : List Token}

theorem Below.behind (h : site.Below (depth + more) rest) (hrest : Leaves more tokens rest) :
    site.Below depth tokens := by
  obtain ⟨hnamed, deeper, hplace, hdepth⟩ := h
  exact ⟨hnamed, more + deeper, hrest.trans hplace, by rw [hdepth, Nat.add_assoc]⟩

theorem Named.place_ne (h : site.Named) (rest : List Token) :
    site.place ≠ .punctuation .closeParen :: rest := by
  intro hplace
  obtain ⟨left, hname, -⟩ := h
  rw [hplace] at hname
  simp [Statement.readName?, Statement.bracedTable?] at hname

end TableSite

namespace Statement

open Token

/-- The reader of a reference leaves as many parentheses open as before. -/
theorem ReferenceSites.leaves {depth : Nat} {tokens left : List Token} {sites : List TableSite}
    (h : ReferenceSites depth tokens sites (some left)) : Leaves 0 tokens left := by
  cases h with
  | derived opened closed | enclosed opened closed =>
    exact (opened ▸ leaves_skipTrivia tokens).zero_trans
      ((leaves_afterClosing? closed).zero_trans (leaves_readAlias _))
  | table named =>
    exact (leaves_skipTrivia tokens).zero_trans ((leaves_readName? named).zero_trans (leaves_readAlias _))

theorem ReferenceSites.leaves_comma {depth : Nat} {tokens rest : List Token} {sites : List TableSite}
    {left? : Option (List Token)} (h : ReferenceSites depth tokens sites left?)
    (hcomma : afterComma? left? = some rest) : Leaves 0 tokens rest := by
  obtain ⟨left, rfl, hskip⟩ := afterComma?_eq_some.1 hcomma
  exact h.leaves.zero_trans ((hskip ▸ leaves_skipTrivia left).zero_trans (leaves_cons rfl rest))

mutual

/-- The tables of a list and their depths. -/
theorem ListSites.sites_below : ∀ {depth : Nat} {tokens : List Token} {sites : List TableSite},
    ListSites depth tokens sites → ∀ site ∈ sites, site.Below depth tokens
  | _, _, _, .last reference _ => reference.sites_below
  | _, _, _, .more reference comma following => by
    intro site hsite
    rcases List.mem_append.1 hsite with hsite | hsite
    · exact reference.sites_below site hsite
    · exact (following.sites_below site hsite).behind (reference.leaves_comma comma)

/-- The tables of a reference and their depths. -/
theorem ReferenceSites.sites_below : ∀ {depth : Nat} {tokens : List Token} {sites : List TableSite}
    {left? : Option (List Token)}, ReferenceSites depth tokens sites left? →
      ∀ site ∈ sites, site.Below depth tokens
  | _, tokens, _, _, .enclosed opened _ _ list => by
    intro site hsite
    have hinner := (leaves_skipTrivia tokens).zero_trans (opened ▸ leaves_openParen _)
    exact (list.sites_below site hsite).behind hinner
  | _, tokens, _, _, .table named _ => by
    intro site hsite
    obtain rfl := List.mem_singleton.1 hsite
    exact ⟨⟨_, named, rfl⟩, 0, leaves_skipTrivia tokens, rfl⟩
  | _, _, _, _, .nothing _ | _, _, _, _, .unclosed _ _ | _, _, _, _, .derived _ _ _
  | _, _, _, _, .unreadable _ _ _ | _, _, _, _, .call _ _ =>
    fun _ hsite => absurd hsite List.not_mem_nil

end

/-- The reader of a list in parentheses stops before the closing one. -/
theorem ListSites.inside {depth : Nat} {inner outer : List Token} {sites : List TableSite}
    (h : ListSites depth inner sites) (hclosed : afterClosing? 0 inner = some outer) :
    ∀ site ∈ sites, ∃ rest, rest ≠ [] ∧ site.place = rest ++ .punctuation .closeParen :: outer := by
  intro site hsite
  obtain ⟨hnamed, more, ⟨first, hfirst, hopen⟩, -⟩ := h.sites_below site hsite
  obtain ⟨content, rfl, hcontent⟩ := closesPair_afterClosing? hclosed
  have hbalanced : Balanced content := hcontent [] (.balanced .nil)
  rcases List.append_eq_append_iff.1 hfirst with ⟨passed, rfl, hplace⟩ | ⟨rest, -, hplace⟩
  · -- the name would stand behind the closing parenthesis
    cases passed with
    | nil => exact absurd hplace.symm (hnamed.place_ne outer)
    | cons t passed =>
      obtain ⟨rfl, -⟩ := List.cons.inj hplace
      exact absurd hopen (Open.not_closed hbalanced)
  · refine ⟨rest, ?_, hplace⟩
    rintro rfl
    exact hnamed.place_ne outer hplace

/-! ## The lists of a statement -/

theorem isParen_of_introduces {selects : List Bool} {previous : Option Token} {t : Token}
    (h : introduces selects previous t = true) : t.isParen = false := by
  unfold introduces at h
  rcases Bool.or_eq_true_iff.1 h with hjoin | hfrom
  · exact isParen_of_isKeyword hjoin
  · exact isParen_of_isKeyword (Bool.and_eq_true_iff.1 (Bool.and_eq_true_iff.1 hfrom).1).1

/-- The depth at which a list is read is the one that the scan has counted to. -/
theorem leaves_of_mem_tableLists {tokens : List Token} (hbalanced : Balanced tokens)
    {list : Nat × List Token} (h : list ∈ tableLists [false] none tokens) :
    Leaves list.1 tokens list.2 := by
  obtain ⟨before, t, rfl⟩ := exists_before_of_mem_tableLists h
  obtain ⟨depth, hopen⟩ := hbalanced.exists_open
  obtain ⟨met, outer, hselects, hlength, -⟩ := selectsAfter_iff hopen
  obtain ⟨hintroduces, hdepth⟩ := mem_tableLists_append.1 h
  rw [hselects, List.length_cons, Nat.add_sub_cancel, hlength] at hdepth
  rw [hdepth]
  exact Leaves.trans ⟨before, rfl, hopen⟩ (leaves_cons (isParen_of_introduces hintroduces) list.2)

variable {s : Statement} {sql : String} {d : Dialect}

/-- The readers of a statement come to an end within their bounds. Each table that they find is named
under as many open parentheses as its depth says, so the top-level ones stand outside all parentheses,
and the reader of a list in parentheses finds no table behind the closing one. -/
theorem mentions_depth (h : parse sql d = .ok s) :
    (∀ fuel depth tokens, 2 * tokens.length + 2 ≤ fuel →
      readTableList fuel depth tokens = tableList depth tokens) ∧
    ∃ sites : Nat × List Token → List TableSite, (∀ list, ListSites list.1 list.2 (sites list)) ∧
      s.mentions = ((tableLists [false] none s.tokens).flatMap sites).map (·.mention) ∧
      (∀ site ∈ (tableLists [false] none s.tokens).flatMap sites, site.Named ∧
        ∃ before, s.tokens = before ++ site.place ∧ Open site.mention.depth before ∧
          before.count (.punctuation .openParen) =
            before.count (.punctuation .closeParen) + site.mention.depth) ∧
      (∀ m ∈ s.topLevelTables, ∃ site ∈ (tableLists [false] none s.tokens).flatMap sites,
        site.mention = m ∧ ∃ before, s.tokens = before ++ site.place ∧ Balanced before) ∧
      ∀ depth inner outer found, ListSites depth inner found → afterClosing? 0 inner = some outer →
        ∀ site ∈ found, ∃ rest, rest ≠ [] ∧
          site.place = rest ++ .punctuation .closeParen :: outer := by
  -- the runs of the reader over all lists, chosen at once
  have hruns : ∀ list : Nat × List Token, ∃ sites, ListSites list.1 list.2 sites :=
    fun list => exists_listSites list.1 list.2
  choose sites hsites using hruns
  have hmentions : s.mentions = ((tableLists [false] none s.tokens).flatMap sites).map (·.mention) := by
    have hlists := (scanTablesIn_lists [false] none s.tokens).1
    rw [List.map_flatMap]
    exact hlists.trans (List.flatMap_congr fun list _ => (hsites list).mentions_eq)
  have hplaces : ∀ site ∈ (tableLists [false] none s.tokens).flatMap sites, site.Named ∧
      ∃ before, s.tokens = before ++ site.place ∧ Open site.mention.depth before := by
    intro site hsite
    obtain ⟨list, hlist, hsite⟩ := List.mem_flatMap.1 hsite
    obtain ⟨hnamed, more, hplace, hdepth⟩ := (hsites list).sites_below site hsite
    rw [hdepth]
    exact ⟨hnamed, (leaves_of_mem_tableLists (parse_balanced h) hlist).trans hplace⟩
  refine ⟨fun fuel depth tokens hfuel => (readTableList_stable fuel).1 _ depth tokens hfuel le_rfl,
    sites, hsites, hmentions, fun site hsite => ?_, fun m hm => ?_,
    fun depth inner outer found hfound => hfound.inside⟩
  · obtain ⟨hnamed, before, htokens, hopen⟩ := hplaces site hsite
    exact ⟨hnamed, before, htokens, hopen, hopen.count⟩
  · obtain ⟨hm, hzero⟩ := List.mem_filter.1 hm
    rw [hmentions] at hm
    obtain ⟨site, hsite, rfl⟩ := List.mem_map.1 hm
    obtain ⟨-, before, htokens, hopen⟩ := hplaces site hsite
    rw [beq_iff_eq.1 hzero, open_zero_iff] at hopen
    exact ⟨site, hsite, rfl, before, htokens, hopen⟩

/-- A list in parentheses with a stray comma, a derived table in it, and a table behind it. -/
theorem mentions_depth_nested : ∃ s,
    parse "SELECT c.id FROM (course c, (SELECT x.id FROM exam x) e,) JOIN unit AS u ON u.id = c.id" .sqlite =
      .ok s ∧
    s.mentions = [⟨"course", some "c", 1, false⟩, ⟨"exam", some "x", 2, false⟩,
      ⟨"unit", some "u", 0, false⟩] ∧
    (∀ m ∈ s.mentions, ∃ before place left, s.tokens = before ++ place ∧ Open m.depth before ∧
      readName? place = some (m.name, m.braced, left)) ∧
    ∃ before place, s.tokens = before ++ place ∧ Balanced before ∧
      (readName? place).map (·.1) = some "unit" := by
  obtain ⟨s, hparse, hmentions⟩ : ∃ s, parse
      "SELECT c.id FROM (course c, (SELECT x.id FROM exam x) e,) JOIN unit AS u ON u.id = c.id" .sqlite =
        .ok s ∧
      s.mentions = [⟨"course", some "c", 1, false⟩, ⟨"exam", some "x", 2, false⟩,
        ⟨"unit", some "u", 0, false⟩] := by
    decide +kernel
  obtain ⟨-, sites, -, hsites, hplaces, htop, -⟩ := mentions_depth hparse
  refine ⟨s, hparse, hmentions, fun m hm => ?_, ?_⟩
  · rw [hsites] at hm
    obtain ⟨site, hsite, rfl⟩ := List.mem_map.1 hm
    obtain ⟨⟨left, hname, -⟩, before, htokens, hopen, -⟩ := hplaces site hsite
    exact ⟨before, site.place, left, htokens, hopen, hname⟩
  · have hunit : ⟨"unit", some "u", 0, false⟩ ∈ s.topLevelTables := by
      unfold topLevelTables
      rw [hmentions]
      decide
    obtain ⟨site, hsite, hmention, before, htokens, hbalanced⟩ := htop _ hunit
    obtain ⟨⟨left, hname, -⟩, -⟩ := hplaces site hsite
    rw [hmention] at hname
    exact ⟨before, site.place, htokens, hbalanced, by rw [hname]; rfl⟩

end Statement

end ReportSql
