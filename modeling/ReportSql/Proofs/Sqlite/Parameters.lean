import ReportSql.Proofs.NameMap
import ReportSql.Proofs.Sqlite.Scan
import ReportSql.Sqlite.Constant

/-!
# Parameters in the text of a query

The parameters that an SQLite database finds in a text, and what a part of a text
adds to them: a named parameter adds itself, and words, numbers, quoted names,
literals, comments and symbols add nothing. Parameters that all have a value are bound
without fail.

## Main definitions

* `Sqlite.parameters` - the parameters of a text, as they are spelled
* `Sqlite.slots` - the indices that they take
* `Sqlite.Finds` - the parameters found from a place on, step by step
* `Sqlite.Adds` - the parameters of a part of a text
* `Sqlite.Provided` - the parameters of a text have values

## Main results

* `Sqlite.bind_of_provided` - parameters with values are bound
-/

namespace ReportSql

open Token (Stops stops_nil stops_cons takeWhile_append_stops dropWhile_append_stops)

namespace Sqlite

/-! ## The parameters of a text -/

/-- The text up to a NUL, where the database stops reading. -/
def visible (cs : List Char) : List Char :=
  cs.takeWhile (· ≠ '\x00')

/-- The spellings of the parameters that the database finds in a text. Literals, quoted names and
comments hold none. -/
def parameters (sql : String) : List String :=
  (lexemes sql).filterMap (·.token.spelling?)

/-- The parameters by their indices, or nothing if there is an index out of range. -/
def slots (sql : String) : Option (List (Option String)) :=
  (parameters sql).foldlM (fun slots spelling => (assign slots spelling).map (·.1)) []

/-- The parameters that are found from a place on. Every step reads a character. -/
inductive Finds : List Char → List String → Prop
  | nil : Finds [] []
  | step {c : Char} {cs rest : List Char} {token? : Option Token} {found : List String}
      (hscan : scan (c :: cs) = (token?, rest)) (hlength : rest.length ≤ cs.length)
      (hrest : Finds rest found) : Finds (c :: cs) ((token?.bind Token.spelling?).toList ++ found)

theorem Finds.scanAll {cs : List Char} {found : List String} (h : Finds cs found) :
    ∀ fuel, cs.length ≤ fuel → (scanAll fuel cs).filterMap (·.token.spelling?) = found := by
  induction h with
  | nil =>
    intro fuel _
    cases fuel <;> rfl
  | @step c cs rest token? found hscan hlength _ ih =>
    intro fuel hfuel
    rw [List.length_cons] at hfuel
    obtain ⟨fuel, rfl⟩ : ∃ n, fuel = n + 1 := ⟨fuel - 1, by omega⟩
    have hmore := ih fuel (by omega)
    rw [Sqlite.scanAll.eq_3 _ _ (List.cons_ne_nil c cs), hscan]
    cases token? with
    | none => exact hmore
    | some token =>
      dsimp only
      rw [List.filterMap_cons, hmore]
      cases h : token.spelling? <;> simp [h]

theorem Finds.parameters {sql : String} {found : List String} (h : Finds (visible sql.toList) found) :
    parameters sql = found :=
  h.scanAll _ le_rfl

/-! ## Steps of the database over a text -/

/-- The parameters that a text adds to those of any text after it. -/
def Adds (text next : List Char) (found : List String) : Prop :=
  ∀ more, Finds next more → Finds (text ++ next) (found ++ more)

theorem adds_nil (next : List Char) : Adds [] next [] :=
  fun _ h => h

theorem Adds.append {first second next : List Char} {found found' : List String}
    (hfirst : Adds first (second ++ next) found) (hsecond : Adds second next found') :
    Adds (first ++ second) next (found ++ found') := by
  intro more hmore
  rw [List.append_assoc, List.append_assoc]
  exact hfirst _ (hsecond more hmore)

theorem adds_of_scan {c : Char} {cs next : List Char} {token? : Option Token}
    (h : scan (c :: (cs ++ next)) = (token?, next)) :
    Adds (c :: cs) next (token?.bind Token.spelling?).toList :=
  fun _ hmore => .step h (by simp) hmore

theorem adds_of_scan_none {c : Char} {cs next : List Char} {token : Token}
    (h : scan (c :: (cs ++ next)) = (some token, next)) (hspelling : token.spelling? = none) :
    Adds (c :: cs) next [] := by
  have hadds := adds_of_scan h
  rwa [Option.bind_some, hspelling] at hadds

/-- Leading blanks hold no parameter. -/
theorem Finds.dropSpaces {cs : List Char} {found : List String} (h : Finds cs found) :
    Finds (cs.dropWhile isSpace) found := by
  induction h with
  | nil => exact .nil
  | @step c cs rest token? found hscan hlength hrest ih =>
    cases hspace : isSpace c with
    | false =>
      rw [List.dropWhile_cons_of_neg (by simp [hspace])]
      exact .step hscan hlength hrest
    | true =>
      rw [List.dropWhile_cons_of_pos hspace]
      -- a vertical tab starts no run of blanks and is read alone
      by_cases htab : c = '\x0b'
      · subst htab
        have htab : scan ('\x0b' :: cs) = (some .illegal, cs) := rfl
        obtain ⟨rfl, rfl⟩ := Prod.mk.inj (hscan.symm.trans htab)
        exact ih
      · obtain ⟨rfl, rfl⟩ := Prod.mk.inj
          (hscan.symm.trans (scan_space (isSpace_iff.1 hspace) htab))
        exact hrest

/-! ## What the parts of a text add -/

/-- Characters that are read one by one before a character. -/
def isSymbols : List Char → Option Char → Bool
  | [], _ => true
  | c :: rest, next =>
    isLoose c && !opensWith c (rest.head?.or next) && isSymbols rest next

theorem adds_space {c : Char} {next : List Char} (hc : c ∈ spaces) (htab : c ≠ '\x0b') :
    Adds [c] next [] :=
  fun _ hmore => .step (scan_space hc htab) (List.length_dropWhile_le _ _) hmore.dropSpaces

theorem adds_symbols {cs next : List Char} (h : isSymbols cs next.head? = true) :
    Adds cs next [] := by
  induction cs with
  | nil => exact adds_nil next
  | cons c rest ih =>
    rw [isSymbols, Bool.and_eq_true, Bool.and_eq_true, Bool.not_eq_true', ← List.head?_append] at h
    obtain ⟨⟨hloose, hopens⟩, hrest⟩ := h
    obtain ⟨token, hscan, hspelling⟩ := scan_loose hloose hopens
    have hfirst : Adds [c] (rest ++ next) [] := adds_of_scan_none hscan hspelling
    exact hfirst.append (ih hrest)

theorem adds_word {cs next : List Char} (hword : isBareWord cs = true)
    (hnext : Stops isWordPart next) (hquote : next.head? ≠ some '\'') : Adds cs next [] := by
  cases cs with
  | nil => exact Bool.noConfusion hword
  | cons c cs => exact adds_of_scan_none (scan_word hword hnext hquote) rfl

theorem adds_number {cs next : List Char} (h : isDecimal cs = true) (hnext : Stops isWordPart next)
    (hpoint : next.head? ≠ some '.') : Adds cs next [] := by
  cases cs with
  | nil => exact Bool.noConfusion h
  | cons c cs =>
    obtain ⟨token, hscan, hspelling⟩ := scan_number h hnext hpoint
    exact adds_of_scan_none hscan hspelling

theorem adds_quoted {quote : Char} {content next : List Char} (hquote : quote ∈ ['\'', '"', '\x60'])
    (h : paired quote content = true) (hnext : next.head? ≠ some quote) :
    Adds (quote :: (content ++ [quote])) next [] := by
  obtain ⟨name, hname⟩ := quoted?_paired h hnext
  have hscan : ∃ token : Token, scan (quote :: (content ++ quote :: next)) = (some token, next) ∧
      token.spelling? = none := by
    have htoken : ∀ token : String → Token,
        quotedToken token quote (content ++ quote :: next) = (token (String.ofList name), next) := by
      intro token
      rw [quotedToken, hname]
    fin_cases hquote
    · exact ⟨_, congrArg (fun found => (some found.1, found.2)) (htoken .string), rfl⟩
    · exact ⟨_, congrArg (fun found => (some found.1, found.2)) (htoken (.quotedName '"')), rfl⟩
    · exact ⟨_, congrArg (fun found => (some found.1, found.2)) (htoken (.quotedName '\x60')), rfl⟩
  obtain ⟨token, hscan, hspelling⟩ := hscan
  refine adds_of_scan_none ?_ hspelling
  rwa [List.append_assoc, List.singleton_append]

/-- A quoted name that is not closed takes the rest of the text. -/
theorem finds_unclosed {content : List Char} (h : paired '"' content = true) :
    Finds ('"' :: content) [] := by
  have hscan : scan ('"' :: content) = (some .illegal, []) := by
    have htoken : quotedToken (.quotedName '"') '"' content = (.illegal, []) := by
      rw [quotedToken, quoted?_unclosed h]
    exact congrArg (fun found => (some found.1, found.2)) htoken
  exact .step hscan (Nat.zero_le _) .nil

theorem adds_bracketed {content next : List Char} (h : ']' ∉ content) :
    Adds ('[' :: (content ++ [']'])) next [] := by
  have hscan : scan ('[' :: (content ++ ']' :: next)) =
      (some (.quotedName '[' (String.ofList content)), next) :=
    congrArg (fun found => (some found.1, found.2)) (bracketedToken_eq h)
  have htext : content ++ ']' :: next = content ++ [']'] ++ next := by simp
  exact adds_of_scan_none (htext ▸ hscan) rfl

theorem adds_blob {content next : List Char} (h : '\'' ∉ content) :
    Adds ('X' :: '\'' :: (content ++ ['\''])) next [] := by
  obtain ⟨hrest, hspelling⟩ := @blobToken_rest content next h
  have hscan : scan ('X' :: '\'' :: (content ++ '\'' :: next)) =
      (some (blobToken (content ++ '\'' :: next)).1, next) :=
    congrArg (fun rest => (some (blobToken (content ++ '\'' :: next)).1, rest)) hrest
  have htext : '\'' :: (content ++ '\'' :: next) = '\'' :: (content ++ ['\'']) ++ next := by simp
  exact adds_of_scan_none (htext ▸ hscan) hspelling

theorem adds_lineComment {content next : List Char} (h : '\n' ∉ content)
    (hnext : ∀ c ∈ next.head?, c = '\n') : Adds ('-' :: '-' :: content) next [] := by
  have hcontent : ∀ c ∈ content, (c ≠ '\n' : Bool) = true := by
    intro c hc
    rw [decide_eq_true_eq]
    rintro rfl
    exact h hc
  have hstop : Stops (fun c => (c ≠ '\n' : Bool)) next := by
    intro c hc
    rw [hnext c hc]
    rfl
  have hscan : scan ('-' :: ('-' :: content ++ next)) =
      (none, (content ++ next).dropWhile (· ≠ '\n')) := rfl
  rw [dropWhile_append_stops hcontent hstop] at hscan
  exact adds_of_scan hscan

theorem adds_blockComment {content next : List Char}
    (h : afterComment (content ++ ['*', '/']) = []) :
    Adds ('/' :: '*' :: (content ++ ['*', '/'])) next [] := by
  have hrest := @afterComment_append content next h
  have hscan : scan ('/' :: '*' :: (content ++ '*' :: '/' :: next)) = (none, next) := by
    cases content with
    | nil => exact congrArg (fun rest => ((none : Option Token), rest)) hrest
    | cons c content => exact congrArg (fun rest => ((none : Option Token), rest)) hrest
  have htext : '*' :: (content ++ '*' :: '/' :: next) = '*' :: (content ++ ['*', '/']) ++ next := by
    simp
  exact adds_of_scan (htext ▸ hscan)

theorem adds_parameter {name next : List Char} (hname : isBareWord name = true)
    (hnext : Stops (fun c => isWordPart c || c == '(' || c == ':') next) :
    Adds (':' :: name) next [String.ofList (':' :: name)] :=
  adds_of_scan (scan_parameter hname hnext)

/-! ## Values -/

theorem bindFrom_of_provided {params : Params} {index : Nat} {slots : List (Option String)}
    (h : ∀ slot ∈ slots, ∃ spelling, slot = some spelling ∧ parameterName spelling ∈ params.names)
    (name : String) : bindFrom params index slots ≠ .error (.missingParameter name) := by
  induction slots generalizing index with
  | nil => simp [bindFrom]
  | cons slot rest ih =>
    obtain ⟨⟨spelling, rfl, hname⟩, hrest⟩ := List.forall_mem_cons.1 h
    obtain ⟨value, hvalue⟩ := NameMap.mem_names_iff.1 hname
    have hmore : bindFrom params (index + 1) rest ≠ .error (.missingParameter name) := ih hrest
    rw [bindFrom, bindSlot, hvalue]
    cases hdatum : Datum.ofParam? value with
    | none => simp [hdatum]
    | some datum =>
      cases hrest : bindFrom params (index + 1) rest with
      | error e => simpa [hdatum, Except.map, hrest] using hmore
      | ok values => simp [hdatum, Except.map]

/-- A parameter that is no question mark takes the index of one spelled alike, or the next one. -/
theorem assign_eq_some {slots slots' : List (Option String)} {spelling : String} {index : Nat}
    (hmark : spelling.toList.head? ≠ some '?') (h : assign slots spelling = some (slots', index)) :
    slots' = slots ∨ slots' = slots ++ [some spelling] := by
  have hshare : (share slots spelling).1 = slots ∨
      (share slots spelling).1 = slots ++ [some spelling] := by
    unfold share
    split
    · exact .inl rfl
    · exact .inr rfl
  unfold assign at h
  rw [Option.filter_eq_some_iff] at h
  obtain ⟨h, -⟩ := h
  split at h
  · rename_i heq
    exact absurd (by rw [heq]; rfl) hmark
  · rename_i heq
    exact absurd (by rw [heq]; rfl) hmark
  · split at h
    · simp at h
    · rwa [Option.some.inj h] at hshare
  · rwa [Option.some.inj h] at hshare

/-- Parameters that have values are bound without fail. -/
theorem bind_of_provided {sql : String} {params : Params} {found : List (Option String)}
    (h : ∀ spelling ∈ parameters sql, spelling.toList.head? ≠ some '?' ∧
      parameterName spelling ∈ params.names) (hslots : slots sql = some found) (name : String) :
    bind params found ≠ .error (.missingParameter name) := by
  refine bindFrom_of_provided ?_ name
  -- every slot that is taken on the way has a spelling with a value
  have hfold : ∀ (spellings : List String) (taken found : List (Option String)),
      (∀ spelling ∈ spellings, spelling.toList.head? ≠ some '?' ∧
        parameterName spelling ∈ params.names) →
      (∀ slot ∈ taken, ∃ spelling, slot = some spelling ∧ parameterName spelling ∈ params.names) →
      spellings.foldlM (fun slots spelling => (assign slots spelling).map (·.1)) taken = some found →
      ∀ slot ∈ found, ∃ spelling, slot = some spelling ∧ parameterName spelling ∈ params.names := by
    intro spellings
    induction spellings with
    | nil =>
      intro taken found _ htaken hfound
      obtain rfl : taken = found := Option.some.inj hfound
      exact htaken
    | cons spelling rest ih =>
      intro taken found hspellings htaken hfound
      obtain ⟨⟨hmark, hname⟩, hrest⟩ := List.forall_mem_cons.1 hspellings
      rw [List.foldlM_cons, Option.bind_eq_bind, Option.bind_eq_some_iff] at hfound
      obtain ⟨slots', hassign, hfound⟩ := hfound
      obtain ⟨⟨slots'', index⟩, hassigned, rfl⟩ := Option.map_eq_some_iff.1 hassign
      refine ih slots'' found hrest (fun slot hslot => ?_) hfound
      rcases assign_eq_some hmark hassigned with rfl | rfl
      · exact htaken slot hslot
      · rcases List.mem_append.1 hslot with hslot | hslot
        · exact htaken slot hslot
        · exact ⟨spelling, List.mem_singleton.1 hslot, hname⟩
  exact hfold _ _ _ h (fun slot hslot => absurd hslot List.not_mem_nil) hslots

/-- Every parameter that the database finds in a text has a value under its name without marks, and so
the parameters are bound without fail. -/
structure Provided (params : Params) (sql : String) : Prop where
  named : ∀ spelling ∈ parameters sql, parameterName spelling ∈ params.names
  bound : ∀ found, slots sql = some found → ∀ name, bind params found ≠ .error (.missingParameter name)

theorem provided_of_named {sql : String} {params : Params}
    (h : ∀ spelling ∈ parameters sql, spelling.toList.head? ≠ some '?' ∧
      parameterName spelling ∈ params.names) : Provided params sql :=
  ⟨fun spelling hspelling => (h spelling hspelling).2, fun _ hslots name => bind_of_provided h hslots name⟩

end Sqlite

end ReportSql
