import ReportSql.Proofs.Statement.Expansion
import ReportSql.Proofs.Statement.Tables

/-!
# Reading the tables of printed tokens

The scan of the printed tokens goes step by step with the scan of a statement. It
finds the same tables exactly when no piece is printed where it adds to a table:
as a part of its name, as its alias, or in a list that stopped before.

## Main definitions

* `TableMention.expanded` - a table as it is named in print
* `Statement.Visited` - the references to which a reader comes
* `Statement.Undisturbed` - a reference that is read again in print
* `Statement.Unhidden` - no keyword in braces or behind a T-SQL placeholder mark

## Main results

* `Statement.scanTablesIn_expand` - when a scan of printed tokens finds the same tables
-/

namespace ReportSql

open Token

/-- A table as it is named in print: without braces and behind its prefix. -/
def TableMention.expanded (tablePrefix : String) (m : TableMention) : TableMention :=
  if m.braced then { m with name := tablePrefix ++ m.name, braced := false } else m

/-- The findings of a scan as they are named in print. -/
def TableScan.expanded (tablePrefix : String) (scan : TableScan) : TableScan :=
  ⟨scan.mentions.map (·.expanded tablePrefix), scan.unreadable⟩

/-- The names in braces are plain identifiers in print. -/
def TableScan.Nameable (tablePrefix : String) (scan : TableScan) : Prop :=
  ∀ m ∈ scan.mentions, m.braced = true → Dialect.isPlainIdentifier (tablePrefix ++ m.name) = true

/-! ## Findings side by side -/

/-- The findings of a readable scan beside those in print: these are no fewer, and they are the same
exactly under a condition. -/
structure Follows (tablePrefix : String) (scan printed : TableScan) (condition : Prop) : Prop where
  grows : printed.unreadable = [] → scan.mentions.length ≤ printed.mentions.length
  same : printed = scan.expanded tablePrefix ↔ condition

namespace Follows

variable {tablePrefix : String} {scan scan' printed printed' : TableScan} {P Q : Prop}

theorem congr (h : Follows tablePrefix scan printed P) (hPQ : P ↔ Q) :
    Follows tablePrefix scan printed Q :=
  ⟨h.grows, h.same.trans hPQ⟩

theorem nothing (printed : TableScan) : Follows tablePrefix .empty printed (printed = .empty) :=
  ⟨fun _ => Nat.zero_le _, Iff.rfl⟩

/-- Findings that are no fewer part by part are the same part by part. -/
theorem append (h : Follows tablePrefix scan printed P) (h' : Follows tablePrefix scan' printed' Q)
    (hread : scan.unreadable = []) (hread' : scan'.unreadable = []) :
    Follows tablePrefix (scan.append scan') (printed.append printed') (P ∧ Q) := by
  constructor
  · intro hprinted
    obtain ⟨hfirst, hsecond⟩ := List.append_eq_nil_iff.1 hprinted
    have hle := h.grows hfirst
    have hle' := h'.grows hsecond
    simp only [TableScan.append, List.length_append]
    omega
  · rw [← h.same, ← h'.same]
    constructor
    · intro heq
      have hunreadable : printed.unreadable ++ printed'.unreadable = [] := by
        have hcongr := congrArg TableScan.unreadable heq
        simpa [TableScan.append, TableScan.expanded, hread, hread'] using hcongr
      obtain ⟨hfirst, hsecond⟩ := List.append_eq_nil_iff.1 hunreadable
      have hmentions : printed.mentions ++ printed'.mentions =
          scan.mentions.map (·.expanded tablePrefix) ++
            scan'.mentions.map (·.expanded tablePrefix) := by
        have hcongr := congrArg TableScan.mentions heq
        simpa [TableScan.append, TableScan.expanded] using hcongr
      have hlength := congrArg List.length hmentions
      have hle := h.grows hfirst
      have hle' := h'.grows hsecond
      simp only [List.length_append, List.length_map] at hlength
      -- neither part has fewer findings than before, so the lists are cut at the same place
      obtain ⟨hm, hm'⟩ := List.append_inj hmentions (by rw [List.length_map]; omega)
      cases printed
      cases printed'
      simp_all [TableScan.expanded]
    · rintro ⟨rfl, rfl⟩
      simp [TableScan.append, TableScan.expanded]

end Follows

namespace Statement

variable {d : Dialect} {tablePrefix : String}

/-! ## The references of a list -/

/-- A reader that is started at a list of tokens comes to a reference, at its depth. -/
inductive Visited : Nat → List Token → Nat → List Token → Prop
  | here (depth : Nat) (tokens : List Token) : Visited depth tokens depth tokens
  | next {depth depth' : Nat} {tokens rest reference : List Token}
      (comma : afterComma? (tableRef depth tokens).2 = some rest)
      (visited : Visited depth rest depth' reference) : Visited depth tokens depth' reference
  | inner {depth depth' : Nat} {tokens inner reference : List Token}
      (opened : skipTrivia tokens = .punctuation .openParen :: inner)
      (select : (firstSignificant? inner).any (·.isKeyword "SELECT") = false)
      (visited : Visited (depth + 1) inner depth' reference) : Visited depth tokens depth' reference

/-- A reference that is read again in print. After a name no piece becomes a part of it or its alias;
and where a list goes on in print only, it names no further table. -/
def Undisturbed (d : Dialect) (tablePrefix : String) (depth : Nat) (tokens : List Token) : Prop :=
  match skipTrivia tokens with
  | .punctuation .openParen :: _ =>
    afterComma? (tableRef depth tokens).2 = none →
      ∀ rest, afterComma? (tableRef depth (expand d tablePrefix tokens)).2 = some rest →
        tableList depth rest = .empty
  | start =>
    ∀ name braced left, readName? start = some (name, braced, left) →
      growsName d left = false ∧ printsAlias d tablePrefix left = false

/-- Every reference to which a reader comes is read again in print. -/
def AllUndisturbed (d : Dialect) (tablePrefix : String) (depth : Nat) (tokens : List Token) : Prop :=
  ∀ depth' reference, Visited depth tokens depth' reference →
    Undisturbed d tablePrefix depth' reference

theorem allUndisturbed_iff {depth : Nat} {tokens : List Token} :
    AllUndisturbed d tablePrefix depth tokens ↔
      Undisturbed d tablePrefix depth tokens ∧
      (∀ inner, skipTrivia tokens = .punctuation .openParen :: inner →
        (firstSignificant? inner).any (·.isKeyword "SELECT") = false →
          AllUndisturbed d tablePrefix (depth + 1) inner) ∧
      ∀ rest, afterComma? (tableRef depth tokens).2 = some rest →
        AllUndisturbed d tablePrefix depth rest := by
  constructor
  · intro h
    refine ⟨h _ _ (.here depth tokens), fun inner hinner hselect depth' reference hvisited => ?_,
      fun rest hrest depth' reference hvisited => ?_⟩
    · exact h _ _ (.inner hinner hselect hvisited)
    · exact h _ _ (.next hrest hvisited)
  · rintro ⟨hhere, hinner, hnext⟩ depth' reference hvisited
    cases hvisited with
    | here => exact hhere
    | next comma visited => exact hnext _ comma _ _ visited
    | inner opened select visited => exact hinner _ opened select _ _ visited

theorem expand_head_comma {tokens printed : List Token}
    (h : expand d tablePrefix tokens = .punctuation .comma :: printed) :
    ∃ rest, tokens = .punctuation .comma :: rest := by
  revert h
  fun_cases expand d tablePrefix tokens with
  | case1 name rest =>
    obtain ⟨value, quote, hword⟩ := tableToken_eq_word (d := d) (tablePrefix ++ name)
    simp [hword]
  | case2 name rest =>
    unfold placeholderTokens
    split <;> simp
  | case3 t rest =>
    intro h
    exact ⟨rest, congrArg (· :: rest) (List.cons.inj h).1⟩
  | case4 => simp

theorem afterComma?_expand (left : List Token) :
    afterComma? (some (expand d tablePrefix left)) =
      (afterComma? (some left)).map (expand d tablePrefix) := by
  have hskip : ∀ {left rest : List Token}, afterComma? (some left) = some rest ↔
      skipTrivia left = .punctuation .comma :: rest := by
    intro left rest
    rw [afterComma?_eq_some]
    simp
  cases hcomma : afterComma? (some left) with
  | some rest =>
    rw [Option.map_some, hskip, skipTrivia_expand, hskip.1 hcomma]
    exact expand_cons (by simp) (by simp)
  | none =>
    cases hprinted : afterComma? (some (expand d tablePrefix left)) with
    | none => rfl
    | some printed =>
      rw [hskip, skipTrivia_expand] at hprinted
      obtain ⟨rest, hrest⟩ := expand_head_comma hprinted
      rw [hskip.2 hrest] at hcomma
      simp at hcomma

/-! ## Lists of references -/

/-- From the findings of the first references those of the lists. -/
theorem follows_tableList {depth : Nat} {tokens : List Token} {P : Prop} {Q : List Token → Prop}
    (hread : (tableList depth tokens).unreadable = [])
    (hfirst : Follows tablePrefix (tableRef depth tokens).1
      (tableRef depth (expand d tablePrefix tokens)).1 P)
    (hcomma : ∀ rest, afterComma? (tableRef depth tokens).2 = some rest →
      afterComma? (tableRef depth (expand d tablePrefix tokens)).2 =
        some (expand d tablePrefix rest))
    (hrest : ∀ rest, afterComma? (tableRef depth tokens).2 = some rest →
      Follows tablePrefix (tableList depth rest)
        (tableList depth (expand d tablePrefix rest)) (Q rest)) :
    Follows tablePrefix (tableList depth tokens) (tableList depth (expand d tablePrefix tokens))
      (P ∧ (∀ rest, afterComma? (tableRef depth tokens).2 = some rest → Q rest) ∧
        (afterComma? (tableRef depth tokens).2 = none → ∀ rest,
          afterComma? (tableRef depth (expand d tablePrefix tokens)).2 = some rest →
            tableList depth rest = .empty)) := by
  rw [tableList_eq depth tokens] at hread ⊢
  rw [tableList_eq depth (expand d tablePrefix tokens)]
  cases hc : afterComma? (tableRef depth tokens).2 with
  | some rest =>
    rw [hc] at hread
    obtain ⟨hfirstRead, hrestRead⟩ := List.append_eq_nil_iff.1 hread
    rw [hcomma rest hc]
    refine (hfirst.append (hrest rest hc) hfirstRead hrestRead).congr ?_
    simp
  | none =>
    rw [hc] at hread
    cases hp : afterComma? (tableRef depth (expand d tablePrefix tokens)).2 with
    | none => exact hfirst.congr (by simp)
    | some rest =>
      have hempty : (tableRef depth tokens).1.append .empty = (tableRef depth tokens).1 := by
        simp [TableScan.append, TableScan.empty]
      have hmore := hfirst.append (Follows.nothing (tableList depth rest)) hread rfl
      rw [hempty] at hmore
      exact hmore.congr (by simp)

/-! ## References that are names -/

theorem readName?_openParen (inner : List Token) :
    readName? (.punctuation .openParen :: inner) = none := rfl

theorem tableRef_of_name {tokens left : List Token} {name : String} {braced : Bool}
    (h : readName? (skipTrivia tokens) = some (name, braced, left)) (depth : Nat) :
    tableRef depth tokens =
      if firstSignificant? left = some (.punctuation .openParen) then (.unread (name ++ "("), none)
      else (.mention ⟨name, (readAlias left).1, depth, braced⟩, some (readAlias left).2) := by
  rw [tableRef_eq]
  split
  · rename_i heq
    rw [heq] at h
    simp [readName?, bracedTable?] at h
  · rename_i heq
    rw [heq, readName?_openParen] at h
    simp at h
  · rw [h]

theorem tableRef_of_noName {tokens : List Token} (h : readName? (skipTrivia tokens) = none)
    (hne : skipTrivia tokens ≠ [])
    (hopen : ∀ inner, skipTrivia tokens ≠ .punctuation .openParen :: inner) (depth : Nat) :
    tableRef depth tokens = (.unread (unreadableText (skipTrivia tokens)), none) := by
  rw [tableRef_eq]
  split
  · rename_i heq
    exact absurd heq hne
  · rename_i heq
    exact absurd heq (hopen _)
  · rw [h]

theorem undisturbed_of_name {tokens left : List Token} {name : String} {braced : Bool}
    (h : readName? (skipTrivia tokens) = some (name, braced, left)) (depth : Nat) :
    Undisturbed d tablePrefix depth tokens ↔
      growsName d left = false ∧ printsAlias d tablePrefix left = false := by
  unfold Undisturbed
  split
  · rename_i heq
    rw [heq, readName?_openParen] at h
    simp at h
  · rw [h]
    simp

theorem afterComma?_of_growsName {left : List Token} (h : growsName d left = true) :
    afterComma? (some (readAlias left).2) = none := by
  obtain ⟨rest, rfl⟩ : ∃ rest, left = .punctuation .period :: rest := by
    unfold growsName at h
    split at h
    · exact ⟨_, rfl⟩
    · exact ⟨_, rfl⟩
    · simp at h
  have hskip := skipTrivia_cons (t := .punctuation .period) rfl rest
  have hcandidates : aliasCandidates (.punctuation .period :: rest) =
      .punctuation .period :: rest := by
    rw [aliasCandidates, hskip]
    rfl
  rw [readAlias_eq, hcandidates]
  simp [aliasName?, afterComma?, hskip]

/-- What a table is called in print by a reader that went on to `more`. -/
theorem mention_expanded_iff {name more : String} {alias? printed? : Option String} {depth : Nat}
    {braced : Bool} :
    TableScan.mention ⟨(if braced then tablePrefix ++ name else name) ++ more, printed?, depth, false⟩ =
        (TableScan.mention ⟨name, alias?, depth, braced⟩).expanded tablePrefix ↔
      more = "" ∧ printed? = alias? := by
  have hmore : ∀ base : String, base ++ more = base ↔ more = "" := by
    intro base
    constructor
    · intro h
      apply String.toList_injective
      have hlist := congrArg String.toList h
      simpa using hlist
    · rintro rfl
      simp
  cases braced <;> simp [TableScan.mention, TableScan.expanded, TableMention.expanded, hmore]

/-- A reference that can be read and that starts with a name is no call, and its name can be read in
print. -/
theorem readName?_reprinted {depth : Nat} {tokens left : List Token} {name : String} {braced : Bool}
    (h : readName? (skipTrivia tokens) = some (name, braced, left))
    (hread : (tableRef depth tokens).1.unreadable = [])
    (hnames : (tableRef depth tokens).1.Nameable tablePrefix) :
    firstSignificant? left ≠ some (.punctuation .openParen) ∧
      readName? (skipTrivia (expand d tablePrefix tokens)) =
        some ((if braced then tablePrefix ++ name else name) ++
          (readNameParts (expand d tablePrefix left)).1, false,
          (readNameParts (expand d tablePrefix left)).2) := by
  have hopen : firstSignificant? left ≠ some (.punctuation .openParen) := by
    intro hopen
    rw [tableRef_of_name h, if_pos hopen] at hread
    exact List.cons_ne_nil _ _ hread
  rw [tableRef_of_name h, if_neg hopen] at hnames
  have hplain : braced = true → Dialect.isPlainIdentifier (tablePrefix ++ name) = true :=
    hnames ⟨name, (readAlias left).1, depth, braced⟩ List.mem_cons_self
  refine ⟨hopen, ?_⟩
  rw [skipTrivia_expand]
  exact readName?_expand h hplain

/-- The findings of the reader of a reference that is a name. -/
theorem follows_name {depth : Nat} {tokens left : List Token} {name : String} {braced : Bool}
    (h : readName? (skipTrivia tokens) = some (name, braced, left))
    (hread : (tableRef depth tokens).1.unreadable = [])
    (hnames : (tableRef depth tokens).1.Nameable tablePrefix) :
    Follows tablePrefix (tableRef depth tokens).1 (tableRef depth (expand d tablePrefix tokens)).1
      (Undisturbed d tablePrefix depth tokens) := by
  obtain ⟨hopen, hprinted⟩ := readName?_reprinted (d := d) h hread hnames
  rw [tableRef_of_name h, if_neg hopen, tableRef_of_name hprinted]
  generalize hparts : readNameParts (expand d tablePrefix left) = parts
  obtain ⟨more, left'⟩ := parts
  dsimp only
  constructor
  · split
    · intro hunread
      simp [TableScan.unread] at hunread
    · exact fun _ => Nat.le_refl 1
  · rw [undisturbed_of_name h]
    cases hgrows : growsName d left with
    | true =>
      obtain ⟨part, more', left'', hmore⟩ := @growsName_eq_true d tablePrefix left hgrows
      obtain ⟨rfl, rfl⟩ := Prod.mk.inj (hparts.symm.trans hmore)
      have hne : "." ++ part ++ more' ≠ "" := by
        intro hempty
        have hlist := congrArg String.toList hempty
        simp at hlist
      split
      · simp [TableScan.unread, TableScan.expanded, TableScan.mention]
      · rw [mention_expanded_iff]
        simp [hne]
    | false =>
      obtain ⟨rfl, rfl⟩ := Prod.mk.inj (hparts.symm.trans (growsName_eq_false hgrows))
      rw [if_neg (mt firstSignificant?_expand_openParen.1 hopen), mention_expanded_iff]
      cases halias : printsAlias d tablePrefix left with
      | true =>
        obtain ⟨hnone, hsome⟩ := printsAlias_eq_true halias
        rw [hnone]
        simp [Option.isSome_iff_ne_none.1 hsome]
      | false =>
        rw [readAlias_expand halias]
        simp

/-- A list goes on after a name that is read again as it did before, and it did not after one that is
not. -/
theorem afterComma?_name {depth : Nat} {tokens left : List Token} {name : String} {braced : Bool}
    (h : readName? (skipTrivia tokens) = some (name, braced, left))
    (hread : (tableRef depth tokens).1.unreadable = [])
    (hnames : (tableRef depth tokens).1.Nameable tablePrefix) :
    (Undisturbed d tablePrefix depth tokens →
      afterComma? (tableRef depth (expand d tablePrefix tokens)).2 =
        (afterComma? (tableRef depth tokens).2).map (expand d tablePrefix)) ∧
    (¬ Undisturbed d tablePrefix depth tokens → afterComma? (tableRef depth tokens).2 = none) := by
  obtain ⟨hopen, hprinted⟩ := readName?_reprinted (d := d) h hread hnames
  rw [undisturbed_of_name h]
  rw [tableRef_of_name h, if_neg hopen]
  constructor
  · rintro ⟨hgrows, halias⟩
    rw [growsName_eq_false hgrows] at hprinted
    rw [tableRef_of_name hprinted, if_neg (mt firstSignificant?_expand_openParen.1 hopen),
      readAlias_expand halias]
    exact afterComma?_expand _
  · intro hdisturbed
    by_cases hgrows : growsName d left = true
    · exact afterComma?_of_growsName hgrows
    · have halias : printsAlias d tablePrefix left = true := by
        simpa [hgrows] using hdisturbed
      obtain ⟨hnone, -⟩ := printsAlias_eq_true halias
      rw [hnone]
      exact afterComma?_of_printsAlias halias

/-! ## Parentheses -/

theorem tableRef_of_openParen {tokens inner outer : List Token}
    (hskip : skipTrivia tokens = .punctuation .openParen :: inner)
    (hclose : afterClosing? 0 inner = some outer) (depth : Nat) :
    tableRef depth tokens =
      (if (firstSignificant? inner).any (·.isKeyword "SELECT") then .empty
        else tableList (depth + 1) inner, some (readAlias outer).2) := by
  rw [tableRef_eq, hskip]
  dsimp only
  rw [hclose]

theorem tableRef_expand_of_openParen {tokens inner outer : List Token}
    (hskip : skipTrivia tokens = .punctuation .openParen :: inner)
    (hclose : afterClosing? 0 inner = some outer) (depth : Nat) :
    tableRef depth (expand d tablePrefix tokens) =
      (if (firstSignificant? inner).any (·.isKeyword "SELECT") then .empty
        else tableList (depth + 1) (expand d tablePrefix inner),
        some (readAlias (expand d tablePrefix outer)).2) := by
  have hprinted : skipTrivia (expand d tablePrefix tokens) =
      .punctuation .openParen :: expand d tablePrefix inner := by
    rw [skipTrivia_expand, hskip, expand_cons (by simp) (by simp)]
  have hprintedClose : afterClosing? 0 (expand d tablePrefix inner) =
      some (expand d tablePrefix outer) := by
    rw [afterClosing?_expand, hclose, Option.map_some]
  rw [tableRef_of_openParen hprinted hprintedClose, firstSignificant?_expand_select]

theorem afterComma?_readAlias_expand {outer rest : List Token}
    (h : afterComma? (some (readAlias outer).2) = some rest) :
    afterComma? (some (readAlias (expand d tablePrefix outer)).2) =
      some (expand d tablePrefix rest) := by
  cases halias : printsAlias d tablePrefix outer with
  | true =>
    obtain ⟨hnone, -⟩ := printsAlias_eq_true halias
    rw [hnone, afterComma?_of_printsAlias halias] at h
    simp at h
  | false =>
    rw [readAlias_expand halias, afterComma?_expand, h]
    rfl

/-! ## Lists -/

/-- The first reference of a readable list is readable. -/
theorem unreadable_tableRef {depth : Nat} {tokens : List Token}
    (h : (tableList depth tokens).unreadable = []) : (tableRef depth tokens).1.unreadable = [] := by
  rw [tableList_eq] at h
  split at h
  · exact h
  · exact (List.append_eq_nil_iff.1 h).1

theorem nameable_tableRef {depth : Nat} {tokens : List Token}
    (h : (tableList depth tokens).Nameable tablePrefix) :
    (tableRef depth tokens).1.Nameable tablePrefix := by
  rw [tableList_eq] at h
  split at h
  · exact h
  · exact fun m hm => h m (List.mem_append_left _ hm)

/-- A list that ends before its first reference. -/
theorem follows_noReference {depth : Nat} {tokens : List Token} (hskip : skipTrivia tokens = []) :
    Follows tablePrefix (tableList depth tokens) (tableList depth (expand d tablePrefix tokens))
      (AllUndisturbed d tablePrefix depth tokens) := by
  have hempty : ∀ {tokens}, skipTrivia tokens = [] → tableRef depth tokens = (.empty, none) := by
    intro tokens hskip
    rw [tableRef_eq, hskip]
  have hprinted : skipTrivia (expand d tablePrefix tokens) = [] := by
    rw [skipTrivia_expand, hskip, expand]
  rw [allUndisturbed_iff, tableList_eq, tableList_eq depth (expand d tablePrefix tokens),
    hempty hskip, hempty hprinted]
  refine (Follows.nothing .empty).congr ?_
  simp [Undisturbed, hskip, readName?, bracedTable?, afterComma?]

section FirstReference

variable {depth : Nat} {tokens : List Token} (hread : (tableList depth tokens).unreadable = [])
  (hnames : (tableList depth tokens).Nameable tablePrefix)
  (hrest : ∀ rest, afterComma? (tableRef depth tokens).2 = some rest →
    Follows tablePrefix (tableList depth rest) (tableList depth (expand d tablePrefix rest))
      (AllUndisturbed d tablePrefix depth rest))
include hread hnames hrest

/-- A list that starts with parentheses, from the list in them and the rest. -/
theorem follows_parentheses {inner : List Token}
    (hskip : skipTrivia tokens = .punctuation .openParen :: inner)
    (hinner : (tableList (depth + 1) inner).unreadable = [] →
      (tableList (depth + 1) inner).Nameable tablePrefix →
        Follows tablePrefix (tableList (depth + 1) inner)
          (tableList (depth + 1) (expand d tablePrefix inner))
          (AllUndisturbed d tablePrefix (depth + 1) inner)) :
    Follows tablePrefix (tableList depth tokens) (tableList depth (expand d tablePrefix tokens))
      (AllUndisturbed d tablePrefix depth tokens) := by
  have hfirstRead := unreadable_tableRef hread
  have hfirstNames := nameable_tableRef hnames
  rw [allUndisturbed_iff]
  cases hclose : afterClosing? 0 inner with
  | none =>
    rw [tableRef_eq, hskip] at hfirstRead
    simp [hclose, TableScan.unread] at hfirstRead
  | some outer =>
    have href := tableRef_of_openParen hskip hclose depth
    have hprinted := @tableRef_expand_of_openParen d tablePrefix _ _ _ hskip hclose depth
    have hfirst : Follows tablePrefix (tableRef depth tokens).1
        (tableRef depth (expand d tablePrefix tokens)).1
        ((firstSignificant? inner).any (·.isKeyword "SELECT") = false →
          AllUndisturbed d tablePrefix (depth + 1) inner) := by
      rw [href] at hfirstRead hfirstNames
      rw [href, hprinted]
      cases hselect : (firstSignificant? inner).any (·.isKeyword "SELECT") with
      | true => exact (Follows.nothing .empty).congr (by simp)
      | false =>
        rw [hselect] at hfirstRead hfirstNames
        exact (hinner hfirstRead hfirstNames).congr (by simp)
    refine (follows_tableList hread hfirst (fun rest hcomma => ?_) hrest).congr ?_
    · rw [href] at hcomma
      rw [hprinted]
      exact afterComma?_readAlias_expand hcomma
    · have hundisturbed : Undisturbed d tablePrefix depth tokens ↔
          (afterComma? (tableRef depth tokens).2 = none → ∀ rest,
            afterComma? (tableRef depth (expand d tablePrefix tokens)).2 = some rest →
              tableList depth rest = .empty) := by
        unfold Undisturbed
        rw [hskip]
      rw [hundisturbed]
      grind

/-- A list that starts with a name, from the rest. -/
theorem follows_named {left : List Token} {name : String} {braced : Bool}
    (hname : readName? (skipTrivia tokens) = some (name, braced, left)) :
    Follows tablePrefix (tableList depth tokens) (tableList depth (expand d tablePrefix tokens))
      (AllUndisturbed d tablePrefix depth tokens) := by
  have hfirstRead := unreadable_tableRef hread
  have hfirstNames := nameable_tableRef hnames
  have hopen : ∀ inner, skipTrivia tokens ≠ .punctuation .openParen :: inner := by
    intro inner hskip
    rw [hskip, readName?_openParen] at hname
    simp at hname
  have hfirst := follows_name (d := d) hname hfirstRead hfirstNames
  obtain ⟨hagain, hstopped⟩ := afterComma?_name (d := d) hname hfirstRead hfirstNames
  rw [allUndisturbed_iff]
  refine (follows_tableList hread hfirst (fun rest hcomma => ?_) hrest).congr ?_
  · by_cases hundisturbed : Undisturbed d tablePrefix depth tokens
    · rw [hagain hundisturbed, hcomma]
      rfl
    · rw [hstopped hundisturbed] at hcomma
      simp at hcomma
  · grind

end FirstReference

/-- The findings of the reader of a list, which are the same in print exactly when every reference is
read again. -/
theorem tableList_expand {depth : Nat} {tokens : List Token}
    (hread : (tableList depth tokens).unreadable = [])
    (hnames : (tableList depth tokens).Nameable tablePrefix) :
    Follows tablePrefix (tableList depth tokens) (tableList depth (expand d tablePrefix tokens))
      (AllUndisturbed d tablePrefix depth tokens) := by
  -- both the rest behind a comma and the tokens in parentheses are shorter
  induction hlength : tokens.length using Nat.strongRecOn generalizing depth tokens with
  | ind n ih =>
  subst hlength
  have hrest : ∀ rest, afterComma? (tableRef depth tokens).2 = some rest →
      Follows tablePrefix (tableList depth rest) (tableList depth (expand d tablePrefix rest))
        (AllUndisturbed d tablePrefix depth rest) := by
    intro rest hcomma
    rw [tableList_eq, hcomma] at hread hnames
    exact ih rest.length (afterComma?_length hcomma) (List.append_eq_nil_iff.1 hread).2
      (fun m hm => hnames m (List.mem_append_right _ hm)) rfl
  cases hskip : skipTrivia tokens with
  | nil => exact follows_noReference hskip
  | cons t inner =>
    by_cases hopen : t = .punctuation .openParen
    · subst hopen
      have hlength := (skipTrivia_isSuffix tokens).length_le
      rw [hskip, List.length_cons] at hlength
      exact follows_parentheses hread hnames hrest hskip fun hinnerRead hinnerNames =>
        ih inner.length (by omega) hinnerRead hinnerNames rfl
    · cases hname : readName? (skipTrivia tokens) with
      | none =>
        have hfirstRead := unreadable_tableRef hread
        rw [tableRef_of_noName hname (by simp [hskip]) (by simp [hskip, hopen])] at hfirstRead
        simp [TableScan.unread] at hfirstRead
      | some found =>
        obtain ⟨name, braced, left⟩ := found
        exact follows_named hread hnames hrest hname

/-! ## The scan of a statement -/

/-- The keywords that the scan of a statement looks for. -/
def scanKeywords : List String := ["SELECT", "FROM", "JOIN", "DISTINCT"]

/-- No keyword that the scan looks for stands where it is printed as something else. In braces only
SELECT is one, because FROM and JOIN cannot be followed by a brace. -/
def Unhidden (d : Dialect) : List Token → Prop
  | [] => True
  | t :: rest =>
    ((∀ name ∈ bracedTable? (t :: rest), (Token.word name none).isKeyword "SELECT" = false) ∧
      (d = .tsql → ∀ name ∈ namedPlaceholder? (t :: rest),
        ∀ keyword ∈ scanKeywords, (Token.word name none).isKeyword keyword = false)) ∧
      Unhidden d rest

/-- The places where table lists start, with their depths. -/
def tableLists : List Bool → Option Token → List Token → List (Nat × List Token)
  | _, _, [] => []
  | selects, previous, t :: rest =>
    (if introduces selects previous t then [(selects.length - 1, rest)] else []) ++
      tableLists (nextSelects selects t) (FromClause.latest previous [t]) rest

/-- Every reference of every table list is read again in print. -/
def TablesUndisturbed (d : Dialect) (tablePrefix : String) (selects : List Bool)
    (previous : Option Token) (tokens : List Token) : Prop :=
  ∀ list ∈ tableLists selects previous tokens, AllUndisturbed d tablePrefix list.1 list.2

theorem tablesUndisturbed_cons {selects : List Bool} {previous : Option Token} {t : Token}
    {rest : List Token} :
    TablesUndisturbed d tablePrefix selects previous (t :: rest) ↔
      (introduces selects previous t = true →
        AllUndisturbed d tablePrefix (selects.length - 1) rest) ∧
      TablesUndisturbed d tablePrefix (nextSelects selects t) (FromClause.latest previous [t])
        rest := by
  unfold TablesUndisturbed
  rw [tableLists]
  cases introduces selects previous t <;> simp

/-- The last token counts only as far as it may be the word DISTINCT. -/
def SamePrevious (previous printed : Option Token) : Prop :=
  previous.any (·.isKeyword "DISTINCT") = printed.any (·.isKeyword "DISTINCT")

theorem SamePrevious.latest {previous printed : Option Token} (h : SamePrevious previous printed)
    (t : Token) : SamePrevious (FromClause.latest previous [t]) (FromClause.latest printed [t]) := by
  unfold FromClause.latest
  rw [List.foldl_cons, List.foldl_cons]
  cases t.isTrivia with
  | false => rfl
  | true => exact h

theorem SamePrevious.introduces {previous printed : Option Token} (h : SamePrevious previous printed)
    (selects : List Bool) (t : Token) :
    Statement.introduces selects previous t = Statement.introduces selects printed t := by
  unfold Statement.introduces
  rw [h]

/-- A token without meaning for the scan is passed over. -/
theorem scanTablesIn_pass {selects : List Bool} {previous : Option Token} {t : Token}
    (hnext : nextSelects selects t = selects) (hintroduces : introduces selects previous t = false)
    (rest : List Token) :
    scanTablesIn selects previous (t :: rest) =
      scanTablesIn selects (FromClause.latest previous [t]) rest := by
  rw [scanTablesIn_cons, hnext, hintroduces]
  rfl

theorem tablesUndisturbed_pass {selects : List Bool} {previous : Option Token} {t : Token}
    (hnext : nextSelects selects t = selects) (hintroduces : introduces selects previous t = false)
    (rest : List Token) :
    TablesUndisturbed d tablePrefix selects previous (t :: rest) ↔
      TablesUndisturbed d tablePrefix selects (FromClause.latest previous [t]) rest := by
  rw [tablesUndisturbed_cons, hnext, hintroduces]
  simp

theorem nextSelects_word {selects : List Bool} {value : String} {quote : Option Char}
    (h : (Token.word value quote).isKeyword "SELECT" = false) :
    nextSelects selects (.word value quote) = selects := by
  simp [nextSelects, h]

theorem introduces_of_keywords {selects : List Bool} {previous : Option Token} {t : Token}
    (hjoin : t.isKeyword "JOIN" = false) (hfrom : t.isKeyword "FROM" = false) :
    introduces selects previous t = false := by
  simp [introduces, hjoin, hfrom]

/-- A word that is none of the scan's keywords is passed over. -/
theorem scanTablesIn_word {selects : List Bool} {previous : Option Token} {value : String}
    {quote : Option Char}
    (h : ∀ keyword ∈ scanKeywords, (Token.word value quote).isKeyword keyword = false)
    (rest : List Token) :
    scanTablesIn selects previous (.word value quote :: rest) =
      scanTablesIn selects (some (.word value quote)) rest :=
  scanTablesIn_pass (nextSelects_word (h _ (by decide)))
    (introduces_of_keywords (h _ (by decide)) (h _ (by decide))) rest

theorem tablesUndisturbed_word {selects : List Bool} {previous : Option Token} {value : String}
    {quote : Option Char}
    (h : ∀ keyword ∈ scanKeywords, (Token.word value quote).isKeyword keyword = false)
    (rest : List Token) :
    TablesUndisturbed d tablePrefix selects previous (.word value quote :: rest) ↔
      TablesUndisturbed d tablePrefix selects (some (.word value quote)) rest :=
  tablesUndisturbed_pass (nextSelects_word (h _ (by decide)))
    (introduces_of_keywords (h _ (by decide)) (h _ (by decide))) rest

/-- A token that is printed as it is leads to the same table list. -/
theorem follows_scan_cons {selects : List Bool} {previous printed : Option Token} {t : Token}
    {rest : List Token} {P : Prop} (hprevious : SamePrevious previous printed)
    (hread : (scanTablesIn selects previous (t :: rest)).unreadable = [])
    (hnames : (scanTablesIn selects previous (t :: rest)).Nameable tablePrefix)
    (hrest : Follows tablePrefix
      (scanTablesIn (nextSelects selects t) (FromClause.latest previous [t]) rest)
      (scanTablesIn (nextSelects selects t) (FromClause.latest printed [t])
        (expand d tablePrefix rest)) P) :
    Follows tablePrefix (scanTablesIn selects previous (t :: rest))
      (scanTablesIn selects printed (t :: expand d tablePrefix rest))
      ((introduces selects previous t = true →
        AllUndisturbed d tablePrefix (selects.length - 1) rest) ∧ P) := by
  rw [scanTablesIn_cons] at hread hnames
  rw [scanTablesIn_cons, scanTablesIn_cons, ← hprevious.introduces]
  obtain ⟨hlistRead, hrestRead⟩ := List.append_eq_nil_iff.1 hread
  have hlistNames := fun m hm => hnames m (List.mem_append_left _ hm)
  refine Follows.append ?_ hrest hlistRead hrestRead
  cases hintroduces : introduces selects previous t with
  | false => exact (Follows.nothing .empty).congr (by simp)
  | true =>
    rw [hintroduces] at hlistRead hlistNames
    exact (tableList_expand hlistRead hlistNames).congr (by simp)

/-- No table list starts inside braces, because a closing brace names no table. -/
theorem introduces_in_braces {selects : List Bool} {previous : Option Token} {name : String}
    {rest : List Token}
    (hread : (scanTablesIn selects previous
      (.word name none :: .punctuation .closeBrace :: rest)).unreadable = []) :
    introduces selects previous (.word name none) = false := by
  rw [Bool.eq_false_iff]
  intro hintroduces
  rw [scanTablesIn_cons, hintroduces, if_pos rfl] at hread
  have hlist := (List.append_eq_nil_iff.1 hread).1
  have hskip := skipTrivia_cons (t := .punctuation .closeBrace) rfl rest
  have hbrace : tableRef (selects.length - 1) (.punctuation .closeBrace :: rest) =
      (.unread (unreadableText (.punctuation .closeBrace :: rest)), none) := by
    rw [tableRef_of_noName] <;> rw [hskip]
    · rfl
    · simp
    · simp
  rw [tableList_eq, hbrace] at hlist
  simp [afterComma?, TableScan.unread] at hlist

/-- A scan of printed tokens finds the same tables exactly when every reference is read again. -/
theorem scanTablesIn_expand {selects : List Bool} {previous printed : Option Token}
    {tokens : List Token} (hprevious : SamePrevious previous printed)
    (hhidden : Unhidden d tokens) (hread : (scanTablesIn selects previous tokens).unreadable = [])
    (hnames : (scanTablesIn selects previous tokens).Nameable tablePrefix) :
    Follows tablePrefix (scanTablesIn selects previous tokens)
      (scanTablesIn selects printed (expand d tablePrefix tokens))
      (TablesUndisturbed d tablePrefix selects previous tokens) := by
  fun_induction expand d tablePrefix tokens generalizing selects previous printed with
  | case1 name rest ih =>
    -- a name in braces is printed as one word, which is no keyword
    have hrest : Unhidden d rest := hhidden.2.2.2
    have hnext := @nextSelects_word selects _ _ (hhidden.1.1 name rfl)
    rw [scanTablesIn_pass rfl rfl] at hread hnames ⊢
    have hword := introduces_in_braces hread
    rw [scanTablesIn_pass hnext hword, scanTablesIn_pass rfl rfl] at hread hnames ⊢
    rw [tablesUndisturbed_pass rfl rfl, tablesUndisturbed_pass hnext hword, tablesUndisturbed_pass rfl rfl]
    have hkeyword : ∀ keyword ∈ scanKeywords,
        (tableToken d (tablePrefix ++ name)).isKeyword keyword = false := by
      have hreserved : ∀ keyword ∈ scanKeywords, keyword ∈ Dialect.reservedWords := by decide
      exact fun keyword hmem => tableToken_isKeyword (hreserved keyword hmem) _
    obtain ⟨value, quote, htoken⟩ := tableToken_eq_word (d := d) (tablePrefix ++ name)
    rw [htoken] at hkeyword ⊢
    rw [scanTablesIn_word hkeyword]
    exact ih (hkeyword _ (by decide)).symm hrest hread hnames
  | case2 name rest ih =>
    have hrest : Unhidden d rest := hhidden.2.2
    by_cases hd : d = .tsql
    · -- a colon and a name are printed as one word
      have hkeyword := hhidden.1.2 hd name rfl
      have hmark : ∀ keyword ∈ scanKeywords, (Token.word ("@" ++ name) none).isKeyword keyword = false := by
        have hheads : ∀ keyword ∈ scanKeywords, keyword.toList.head? ≠ some '@' := by decide
        exact fun keyword hmem => atWord_isKeyword (hheads keyword hmem) name
      rw [scanTablesIn_pass rfl rfl, scanTablesIn_word hkeyword] at hread hnames ⊢
      rw [placeholderTokens, if_pos hd, List.singleton_append, scanTablesIn_word hmark,
        tablesUndisturbed_pass rfl rfl, tablesUndisturbed_word hkeyword]
      have hsame : SamePrevious (some (.word name none)) (some (.word ("@" ++ name) none)) :=
        (hkeyword _ (by decide)).trans (hmark _ (by decide)).symm
      exact ih hsame hrest hread hnames
    · -- a colon and a name are printed as they are, and the scan meets one after the other
      rw [placeholderTokens, if_neg hd, List.cons_append, List.cons_append, List.nil_append,
        ← expand_word, tablesUndisturbed_cons, tablesUndisturbed_cons]
      refine follows_scan_cons hprevious hread hnames ?_
      rw [scanTablesIn_cons] at hread hnames
      have hread' := (List.append_eq_nil_iff.1 hread).2
      have hnames' : TableScan.Nameable tablePrefix _ :=
        fun m hm => hnames m (List.mem_append_right _ hm)
      have hprevious' := hprevious.latest (.punctuation .colon)
      rw [expand_word]
      refine follows_scan_cons hprevious' hread' hnames' ?_
      rw [scanTablesIn_cons] at hread' hnames'
      exact ih (hprevious'.latest _) hrest (List.append_eq_nil_iff.1 hread').2
        fun m hm => hnames' m (List.mem_append_right _ hm)
  | case3 t rest _ _ ih =>
    have hrest : Unhidden d rest := hhidden.2
    rw [tablesUndisturbed_cons]
    refine follows_scan_cons hprevious hread hnames ?_
    rw [scanTablesIn_cons] at hread hnames
    exact ih (hprevious.latest t) hrest (List.append_eq_nil_iff.1 hread).2
      fun m hm => hnames m (List.mem_append_right _ hm)
  | case4 => exact (Follows.nothing .empty).congr (by simp [TablesUndisturbed, tableLists])

end Statement

end ReportSql
