import ReportSql.Proofs.Token.Balanced

/-!
# The readers of table lists without their bounds

Each reader leaves a part of the tokens it was given, so a bound of twice their
number is never met, and the readers obey equations in which no bound occurs.

## Main definitions

* `Statement.tableRef` - reads one reference

## Main results

* `Statement.tableList_eq`, `Statement.tableRef_eq` - the equations of the readers
-/

namespace ReportSql

open Token

namespace Statement

/-! ## What the readers leave -/

theorem skipTrivia_isSuffix (tokens : List Token) : skipTrivia tokens <:+ tokens :=
  List.dropWhile_suffix _

/-- The tokens from the place of an alias on. -/
def aliasCandidates (tokens : List Token) : List Token :=
  match skipTrivia tokens with
  | [] => []
  | first :: rest => if first.isKeyword "AS" then skipTrivia rest else first :: rest

theorem readAlias_eq (tokens : List Token) :
    readAlias tokens =
      match aliasCandidates tokens with
      | [] => (none, tokens)
      | candidate :: rest =>
        match aliasName? candidate with
        | some name => (some name, rest)
        | none => (none, tokens) := rfl

theorem aliasCandidates_isSuffix (tokens : List Token) : aliasCandidates tokens <:+ tokens := by
  have hskip := skipTrivia_isSuffix tokens
  unfold aliasCandidates
  split
  · exact List.nil_suffix
  · rename_i first rest hfirst
    rw [hfirst] at hskip
    split
    · exact (skipTrivia_isSuffix rest).trans ((List.suffix_cons _ _).trans hskip)
    · exact hskip

theorem readAlias_isSuffix (tokens : List Token) : (readAlias tokens).2 <:+ tokens := by
  have hcandidates := aliasCandidates_isSuffix tokens
  rw [readAlias_eq]
  split
  · exact List.suffix_rfl
  · rename_i candidate rest heq
    rw [heq] at hcandidates
    split
    · exact (List.suffix_cons _ _).trans hcandidates
    · exact List.suffix_rfl

theorem afterClosing?_isSuffix {depth : Nat} {tokens rest : List Token}
    (h : afterClosing? depth tokens = some rest) : rest <:+ tokens := by
  fun_induction afterClosing? depth tokens with
  | case1 => simp at h
  | case2 depth tokens ih => exact (ih h).trans (List.suffix_cons _ _)
  | case3 tokens =>
    obtain rfl := Option.some.inj h
    exact List.suffix_cons _ _
  | case4 depth tokens ih => exact (ih h).trans (List.suffix_cons _ _)
  | case5 depth t tokens _ _ _ ih => exact (ih h).trans (List.suffix_cons _ _)

theorem readNameParts_isSuffix (tokens : List Token) : (readNameParts tokens).2 <:+ tokens := by
  fun_induction readNameParts tokens with
  | case1 part quote rest more left heq ih =>
    rw [heq] at ih
    exact ih.trans ((List.suffix_cons _ _).trans (List.suffix_cons _ _))
  | case2 => exact List.suffix_rfl

theorem readNameParts_of_head? {tokens : List Token}
    (h : tokens.head? ≠ some (.punctuation .period)) : readNameParts tokens = ("", tokens) := by
  unfold readNameParts
  split
  · exact absurd rfl h
  · rfl

theorem bracedTable?_eq_some {tokens : List Token} {name : String} :
    bracedTable? tokens = some name ↔ ∃ rest, tokens =
      .punctuation .openBrace :: .word name none :: .punctuation .closeBrace :: rest := by
  unfold bracedTable?
  constructor
  · intro h
    split at h
    · obtain rfl := Option.some.inj h
      exact ⟨_, rfl⟩
    · simp at h
  · rintro ⟨rest, rfl⟩
    rfl

theorem namedPlaceholder?_eq_some {tokens : List Token} {name : String} :
    namedPlaceholder? tokens = some name ↔
      ∃ rest, tokens = .punctuation .colon :: .word name none :: rest := by
  unfold namedPlaceholder?
  constructor
  · intro h
    split at h
    · obtain rfl := Option.some.inj h
      exact ⟨_, rfl⟩
    · simp at h
  · rintro ⟨rest, rfl⟩
    rfl

theorem readName?_isSuffix {tokens left : List Token} {name : String} {braced : Bool}
    (h : readName? tokens = some (name, braced, left)) : left <:+ tokens := by
  unfold readName? at h
  split at h
  · obtain ⟨-, -, rfl⟩ : _ = name ∧ true = braced ∧ _ = left := by simpa using h
    exact List.drop_suffix _ _
  · split at h
    · rename_i first quote _
      obtain ⟨-, -, rfl⟩ : _ = name ∧ false = braced ∧ _ = left := by simpa using h
      exact (readNameParts_isSuffix _).trans (List.suffix_cons _ _)
    · simp at h

theorem readTableRef_isSuffix {fuel depth : Nat} {tokens left : List Token}
    (h : (readTableRef fuel depth tokens).2 = some left) : left <:+ tokens := by
  cases fuel with
  | zero => simp [readTableRef] at h
  | succ fuel =>
    have hskip := skipTrivia_isSuffix tokens
    rw [readTableRef] at h
    split at h
    · simp at h
    · rename_i inner heq
      rw [heq] at hskip
      split at h
      · simp at h
      · rename_i outer hclose
        obtain rfl := Option.some.inj h
        exact (readAlias_isSuffix outer).trans ((afterClosing?_isSuffix hclose).trans
          ((List.suffix_cons _ _).trans hskip))
    · split at h
      · simp at h
      · rename_i name braced after hname
        dsimp only at h
        split at h
        · simp at h
        · obtain rfl := Option.some.inj h
          exact (readAlias_isSuffix after).trans ((readName?_isSuffix hname).trans hskip)

/-! ## Enough steps -/

theorem readTableList_stable (fuel : Nat) :
    (∀ fuel' depth tokens, 2 * tokens.length + 2 ≤ fuel → 2 * tokens.length + 2 ≤ fuel' →
      readTableList fuel depth tokens = readTableList fuel' depth tokens) ∧
    (∀ fuel' depth tokens, 2 * tokens.length + 1 ≤ fuel → 2 * tokens.length + 1 ≤ fuel' →
      readTableRef fuel depth tokens = readTableRef fuel' depth tokens) := by
  -- for both readers at once, because each calls the other
  induction fuel with
  | zero => exact ⟨fun _ _ _ h => by omega, fun _ _ _ h => by omega⟩
  | succ fuel ih =>
    obtain ⟨ihlist, ihref⟩ := ih
    constructor
    · intro fuel' depth tokens h h'
      obtain ⟨fuel', rfl⟩ : ∃ n, fuel' = n + 1 := ⟨fuel' - 1, by omega⟩
      have href := ihref fuel' depth tokens (by omega) (by omega)
      rw [readTableList, readTableList, href]
      cases hleft : readTableRef fuel' depth tokens with
      | mk scan left? =>
        cases left? with
        | none => rfl
        | some left =>
          dsimp only
          split
          · rename_i rest hskip
            have hle := ((skipTrivia_isSuffix left).trans
              (readTableRef_isSuffix (congrArg Prod.snd hleft))).length_le
            rw [hskip, List.length_cons] at hle
            rw [ihlist fuel' depth rest (by omega) (by omega)]
          · rfl
    · intro fuel' depth tokens h h'
      obtain ⟨fuel', rfl⟩ : ∃ n, fuel' = n + 1 := ⟨fuel' - 1, by omega⟩
      rw [readTableRef, readTableRef]
      split
      · rfl
      · rename_i inner hskip
        have hle := (skipTrivia_isSuffix tokens).length_le
        rw [hskip, List.length_cons] at hle
        rw [ihlist fuel' (depth + 1) inner (by omega) (by omega)]
      · rfl

/-- Reads the table reference at the head of a list of tokens. -/
def tableRef (depth : Nat) (tokens : List Token) : TableScan × Option (List Token) :=
  readTableRef (2 * tokens.length + 1) depth tokens

theorem tableRef_eq (depth : Nat) (tokens : List Token) :
    tableRef depth tokens =
      match skipTrivia tokens with
      | [] => (.empty, none)
      | .punctuation .openParen :: inner =>
        match afterClosing? 0 inner with
        | none => (.unread "(", none)
        | some outer =>
          (if (firstSignificant? inner).any (·.isKeyword "SELECT") then .empty
            else tableList (depth + 1) inner, some (readAlias outer).2)
      | start =>
        match readName? start with
        | none => (.unread (unreadableText start), none)
        | some (name, braced, left) =>
          if firstSignificant? left = some (.punctuation .openParen) then
            (.unread (name ++ "("), none)
          else
            (.mention ⟨name, (readAlias left).1, depth, braced⟩, some (readAlias left).2) := by
  have hle := (skipTrivia_isSuffix tokens).length_le
  unfold tableRef
  rw [readTableRef]
  cases hskip : skipTrivia tokens with
  | nil => rfl
  | cons t inner =>
    rw [hskip, List.length_cons] at hle
    -- fuel for the reference is enough for a list in its parentheses
    have hinner := (readTableList_stable (2 * tokens.length)).1 (2 * inner.length + 2) (depth + 1)
      inner (by omega) (by omega)
    cases t with
    | punctuation mark =>
      cases mark with
      | openParen =>
        dsimp only
        rw [hinner]
        rfl
      | _ => rfl
    | _ => rfl

/-- The tokens after the comma with which a list goes on. -/
def afterComma? (left? : Option (List Token)) : Option (List Token) :=
  match left?.map skipTrivia with
  | some (.punctuation .comma :: rest) => some rest
  | _ => none

theorem afterComma?_eq_some {left? : Option (List Token)} {rest : List Token} :
    afterComma? left? = some rest ↔
      ∃ left, left? = some left ∧ skipTrivia left = .punctuation .comma :: rest := by
  unfold afterComma?
  constructor
  · intro h
    split at h
    · rename_i heq
      obtain rfl := Option.some.inj h
      exact Option.map_eq_some_iff.1 heq
    · simp at h
  · rintro ⟨left, rfl, hskip⟩
    rw [Option.map_some, hskip]

theorem afterComma?_length {depth : Nat} {tokens rest : List Token}
    (h : afterComma? (tableRef depth tokens).2 = some rest) : rest.length < tokens.length := by
  obtain ⟨left, hleft, hskip⟩ := afterComma?_eq_some.1 h
  have hle := ((skipTrivia_isSuffix left).trans (readTableRef_isSuffix hleft)).length_le
  rw [hskip, List.length_cons] at hle
  exact hle

theorem tableList_eq (depth : Nat) (tokens : List Token) :
    tableList depth tokens =
      match afterComma? (tableRef depth tokens).2 with
      | none => (tableRef depth tokens).1
      | some rest => (tableRef depth tokens).1.append (tableList depth rest) := by
  have hstep : tableList depth tokens = readTableList (2 * tokens.length + 2) depth tokens := rfl
  have href : readTableRef (2 * tokens.length + 1) depth tokens = tableRef depth tokens := rfl
  -- fuel for the whole list is enough for what follows its first comma
  cases hcomma : afterComma? (tableRef depth tokens).2 with
  | some rest =>
    have hlt := afterComma?_length hcomma
    obtain ⟨left, hleft, hskip⟩ := afterComma?_eq_some.1 hcomma
    have hrest := (readTableList_stable (2 * tokens.length + 1)).1 (2 * rest.length + 2) depth rest
      (by omega) (by omega)
    rw [hstep, readTableList, href]
    dsimp only
    rw [hleft]
    dsimp only
    rw [hskip]
    dsimp only
    rw [hrest]
    rfl
  | none =>
    rw [hstep, readTableList, href]
    dsimp only
    split
    · rfl
    · rename_i left hleft
      split
      · rename_i rest hskip
        rw [afterComma?_eq_some.2 ⟨left, hleft, hskip⟩] at hcomma
        simp at hcomma
      · rfl

end Statement

end ReportSql
