import ReportSql.Proofs.Token.Stream

/-!
# Block comments that do not nest

The tokenizer lets block comments nest. A store whose block comments end at the
first closing mark reads a text by the same rules but for this one. The two
readings are the same list of tokens exactly when no block comment contains the
closing mark.

## Main definitions

* `Token.tokenizeFlat` - the tokens of a text when block comments do not nest
* `Token.Flat` - a token that is no block comment around a closing mark
* `Token.ReadsFlat` - a text that has the given comments and other tokens without nesting

## Main results

* `Token.tokenizeFlat_eq` - when the two readings are the same
* `Token.readsFlat_iff` - when they have the same comments and the same other tokens
-/

namespace ReportSql

namespace Token

variable {d : Dialect}

/-! ## Reading without nesting -/

/-- The content of a block comment up to the first closing mark, which is dropped. -/
def flatContent : List Char → Option (List Char × List Char)
  | [] => none
  | '*' :: '/' :: left => some ([], left)
  | c :: rest => (flatContent rest).map fun (s, left) => (c :: s, left)

/-- The token that starts with the given character, when block comments do not nest. -/
def scanFlat (d : Dialect) (c : Char) (rest : List Char) : Scanned Token :=
  match c, rest with
  | '/', '*' :: cs =>
    match flatContent cs with
    | some (content, left) => .ok (.blockComment (String.ofList content), left)
    | none => .error ⟨.unterminatedComment, []⟩
  | _, _ => scan d c rest

/-- The tokens of a text in at most `fuel` steps, when block comments do not nest. -/
def scanAllFlat (d : Dialect) : Nat → List Char → Except LexFault (List Token)
  | 0, _ => .ok []
  | _, [] => .ok []
  | fuel + 1, c :: rest => do
    let (token, left) ← scanFlat d c rest
    let tokens ← scanAllFlat d fuel left
    .ok (token :: tokens)

/-- The tokens of a text when block comments do not nest. -/
def tokenizeFlat (d : Dialect) (sql : String) : Option (List Token) :=
  (scanAllFlat d sql.toList.length sql.toList).toOption

/-- A token that is no block comment around a closing mark. -/
def Flat : Token → Prop
  | blockComment content => ¬ ['*', '/'] <:+: content.toList
  | _ => True

instance decidableFlat (t : Token) : Decidable t.Flat := by
  cases t <;> unfold Flat <;> infer_instance

/-! ## The content of a comment -/

theorem flatContent_flat {content : List Char} (h : ¬ ['*', '/'] <:+: content) (left : List Char) :
    flatContent (content ++ '*' :: '/' :: left) = some (content, left) := by
  induction content with
  | nil => rfl
  | cons c content ih =>
    have hrest : ¬ ['*', '/'] <:+: content := fun hin => h (List.infix_cons_iff.2 (Or.inr hin))
    rw [List.cons_append, flatContent.eq_3, ih hrest]
    · rfl
    · rintro after rfl hslash
      cases content with
      | nil => exact absurd (List.cons.inj hslash).1 (by decide)
      | cons a content =>
        obtain ⟨rfl, -⟩ := List.cons.inj hslash
        exact h ⟨[], content, rfl⟩

theorem flatContent_eq_some {cs content left : List Char}
    (h : flatContent cs = some (content, left)) :
    cs = content ++ '*' :: '/' :: left ∧ ¬ ['*', '/'] <:+: content := by
  fun_induction flatContent cs generalizing content left with
  | case1 => simp at h
  | case2 =>
    obtain ⟨rfl, rfl⟩ := Prod.mk.inj (Option.some.inj h)
    exact ⟨rfl, by decide⟩
  | case3 c rest hopen ih =>
    obtain ⟨⟨s, l⟩, hs, ⟨⟩⟩ := Option.map_eq_some_iff.1 h
    obtain ⟨rfl, hflat⟩ := ih hs
    refine ⟨rfl, fun hin => ?_⟩
    rcases List.infix_cons_iff.1 hin with ⟨after, hafter⟩ | hin
    · obtain ⟨rfl, rfl⟩ := List.cons.inj hafter
      exact hopen _ rfl rfl
    · exact hflat hin

/-! ## The next token -/

/-- Only a slash before a star is read by another rule. -/
theorem scanFlat_eq {c : Char} {rest : List Char} (h : ∀ cs, c = '/' → rest ≠ '*' :: cs) :
    scanFlat d c rest = scan d c rest := by
  rw [scanFlat.eq_2]
  exact fun cs hc hrest => h cs hc hrest

theorem scan_blockComment {c : Char} {rest left : List Char} {content : String}
    (h : scan d c rest = .ok (.blockComment content, left)) :
    c = '/' ∧ rest = '*' :: (content.toList ++ '*' :: '/' :: left) := by
  have hsource := (scan_outcome h).source
  generalize hcs : c :: rest = cs at hsource
  cases hsource with
  | exact plain apart =>
    rw [chars_blockComment] at hcs
    simpa using hcs

theorem scanFlat_flat {c : Char} {rest left : List Char} {t : Token}
    (h : scanFlat d c rest = .ok (t, left)) : t.Flat := by
  unfold scanFlat at h
  split at h
  · rename_i cs
    split at h
    · rename_i content left' hcontent
      obtain ⟨rfl, -⟩ := Prod.mk.inj (Except.ok.inj h)
      have hflat := (flatContent_eq_some hcontent).2
      simpa [Flat] using hflat
    · simp at h
  · rename_i hopen
    cases t with
    | blockComment content =>
      obtain ⟨rfl, hrest⟩ := scan_blockComment h
      exact (hopen _ rfl hrest).elim
    | _ => trivial

/-- A flat token is read by both rules. -/
theorem scanFlat_of_flat {c : Char} {rest left : List Char} {t : Token}
    (h : scan d c rest = .ok (t, left)) (hflat : t.Flat) : scanFlat d c rest = .ok (t, left) := by
  by_cases hopen : ∃ cs, c = '/' ∧ rest = '*' :: cs
  · obtain ⟨cs, rfl, rfl⟩ := hopen
    have hcomment : ∃ content, t = .blockComment content := by
      have hblock : scanBlockComment cs = .ok (t, left) := h
      unfold scanBlockComment at hblock
      split at hblock
      · exact ⟨_, (Prod.mk.inj (Except.ok.inj hblock)).1.symm⟩
      · simp at hblock
    obtain ⟨content, rfl⟩ := hcomment
    obtain ⟨-, hrest⟩ := scan_blockComment h
    rw [(List.cons.inj hrest).2, scanFlat, flatContent_flat hflat]
    simp
  · rw [scanFlat_eq fun cs hc hrest => hopen ⟨cs, hc, hrest⟩]
    exact h

/-! ## Whole texts -/

theorem scanAllFlat_flat {fuel : Nat} {cs : List Char} {tokens : List Token}
    (h : scanAllFlat d fuel cs = .ok tokens) : ∀ t ∈ tokens, t.Flat := by
  induction fuel generalizing cs tokens with
  | zero =>
    obtain rfl := Except.ok.inj h
    simp
  | succ fuel ih =>
    cases cs with
    | nil =>
      obtain rfl := Except.ok.inj h
      simp
    | cons c rest =>
      rw [scanAllFlat] at h
      obtain ⟨⟨t, left⟩, hscan, h⟩ := bind_eq_ok.1 h
      obtain ⟨more, hmore, h⟩ := bind_eq_ok.1 h
      obtain rfl := Except.ok.inj h
      exact List.forall_mem_cons.2 ⟨scanFlat_flat hscan, ih hmore⟩

theorem scanAllFlat_of_flat {fuel : Nat} {cs : List Char} {tokens : List Token}
    (h : scanAll d fuel cs = .ok tokens) (hflat : ∀ t ∈ tokens, t.Flat) :
    scanAllFlat d fuel cs = .ok tokens := by
  induction fuel generalizing cs tokens with
  | zero => exact h
  | succ fuel ih =>
    cases cs with
    | nil => exact h
    | cons c rest =>
      rw [scanAll] at h
      obtain ⟨⟨t, left⟩, hscan, h⟩ := bind_eq_ok.1 h
      obtain ⟨more, hmore, h⟩ := bind_eq_ok.1 h
      obtain rfl := Except.ok.inj h
      obtain ⟨ht, hflat⟩ := List.forall_mem_cons.1 hflat
      rw [scanAllFlat, scanFlat_of_flat hscan ht]
      simp [bind, Except.bind, ih hmore hflat]

/-- The tokens of a text are its tokens without nesting exactly when they are flat. -/
theorem tokenizeFlat_eq {sql : String} {tokens : List Token} (h : tokenize d sql = .ok tokens) :
    tokenizeFlat d sql = some tokens ↔ ∀ t ∈ tokens, t.Flat := by
  have hall : scanAll d sql.toList.length sql.toList = .ok tokens :=
    (scanAll_eq_ok le_rfl).2 (tokenize_eq_ok.1 h)
  constructor
  · intro hflat
    exact scanAllFlat_flat (toOption_eq_some.1 hflat)
  · intro hflat
    exact toOption_eq_some.2 (scanAllFlat_of_flat hall hflat)

/-- Comments, of a line or of a block. -/
def isComment (t : Token) : Bool :=
  t.isTrivia && !t.isBlank

/-- A text that has the given comments and the given other tokens when block comments do not
nest. -/
def ReadsFlat (d : Dialect) (sql : String) (tokens : List Token) : Prop :=
  ∃ flat, tokenizeFlat d sql = some flat ∧ flat.filter isComment = tokens.filter isComment ∧
    flat.filter (!isComment ·) = tokens.filter (!isComment ·)

theorem readsFlat_iff {sql : String} {tokens : List Token} (h : tokenize d sql = .ok tokens) :
    ReadsFlat d sql tokens ↔ ∀ t ∈ tokens, t.Flat := by
  constructor
  · rintro ⟨flat, hread, hcomments, -⟩ t ht
    have hflat := scanAllFlat_flat (toOption_eq_some.1 hread)
    cases t with
    | blockComment content =>
      -- the comment is one of those that were read without nesting
      have hmem : blockComment content ∈ flat.filter isComment := by
        rw [hcomments]
        exact List.mem_filter.2 ⟨ht, rfl⟩
      exact hflat _ (List.mem_filter.1 hmem).1
    | _ => trivial
  · intro hflat
    exact ⟨tokens, (tokenizeFlat_eq h).2 hflat, rfl, rfl⟩

end Token

end ReportSql
