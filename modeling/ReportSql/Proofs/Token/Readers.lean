import ReportSql.Proofs.Except
import ReportSql.Token.Lexer

/-!
# Readers of the tokenizer

Every reader gives back the characters that it took, and what it reads depends on
the text after them only through the first characters there. Two facts are stated
for a reader: its source, which is what it took together with what it left, and
its answer when another text stands after the characters that it took.
-/

namespace ReportSql

namespace Token

section Decide

/-! Statements about the members of a list or of an option are decided over these members. -/

variable {α : Type} (p : α → Prop) [DecidablePred p]

scoped instance (priority := high) decidableForallMemList (l : List α) : Decidable (∀ a ∈ l, p a) :=
  List.decidableBAll p l

scoped instance (priority := high) decidableExistsMemList (l : List α) : Decidable (∃ a ∈ l, p a) :=
  List.decidableBEx p l

scoped instance (priority := high) decidableForallMemOption (o : Option α) :
    Decidable (∀ a ∈ o, p a) :=
  Option.decidableForallMem o

scoped instance (priority := high) decidableExistsMemOption (o : Option α) :
    Decidable (∃ a ∈ o, p a) :=
  Option.decidableExistsMem o

end Decide

/-- A text that does not go on with a character of a class. -/
def Stops (p : Char → Bool) (next : List Char) : Prop :=
  ∀ c ∈ next.head?, p c = false

theorem stops_nil (p : Char → Bool) : Stops p [] := by
  simp [Stops]

theorem stops_cons {p : Char → Bool} {c : Char} {next : List Char} :
    Stops p (c :: next) ↔ p c = false := by
  simp [Stops]

theorem stops_dropWhile (p : Char → Bool) (cs : List Char) : Stops p (cs.dropWhile p) := by
  induction cs with
  | nil => exact stops_nil p
  | cons c cs ih =>
    by_cases hc : p c = true
    · rw [List.dropWhile_cons_of_pos hc]
      exact ih
    · rw [List.dropWhile_cons_of_neg hc, stops_cons]
      exact Bool.eq_false_iff.2 hc

theorem takeWhile_append_stops {p : Char → Bool} {taken next : List Char}
    (ht : ∀ c ∈ taken, p c = true) (hn : Stops p next) :
    (taken ++ next).takeWhile p = taken := by
  rw [List.takeWhile_append_of_pos ht]
  cases next with
  | nil => simp
  | cons c next => simp [stops_cons.1 hn]

theorem takeWhile_of_stops {p : Char → Bool} {next : List Char} (hn : Stops p next) :
    next.takeWhile p = [] := by
  cases next with
  | nil => rfl
  | cons c next => exact List.takeWhile_cons_of_neg (by simp [stops_cons.1 hn])

theorem dropWhile_append_stops {p : Char → Bool} {taken next : List Char}
    (ht : ∀ c ∈ taken, p c = true) (hn : Stops p next) :
    (taken ++ next).dropWhile p = next := by
  rw [List.dropWhile_append_of_pos ht]
  cases next with
  | nil => simp
  | cons c next => simp [stops_cons.1 hn]

/-! ## Quoted strings and names -/

section Quoted

variable {quote : Char} {escapes : Bool} {c : Char}

theorem quotedContent_closing {next : List Char} (hn : next.head? ≠ some quote) :
    quotedContent quote escapes (quote :: next) = some ([], next) := by
  cases next with
  | nil => simp [quotedContent]
  | cons c next =>
    have hc : c ≠ quote := by simpa using hn
    simp [quotedContent, hc]

theorem quotedContent_pair (rest : List Char) : quotedContent quote escapes (quote :: quote :: rest) =
    (quotedContent quote escapes rest).map fun (s, left) => (quote :: quote :: s, left) := by
  simp [quotedContent]

theorem quotedContent_of_ne (hc : c ≠ quote) (hback : escapes = true → c ≠ '\\') (rest : List Char) :
    quotedContent quote escapes (c :: rest) =
      (quotedContent quote escapes rest).map fun (s, left) => (c :: s, left) := by
  have hplain : (escapes && decide (c = '\\')) = false := by simpa using hback
  rw [quotedContent.eq_def]
  simp [hc, hplain]

end Quoted

theorem quotedContent_source {quote : Char} {escapes : Bool} {cs content left : List Char}
    (h : quotedContent quote escapes cs = some (content, left)) :
    cs = content ++ quote :: left := by
  fun_induction quotedContent quote escapes cs generalizing content left with
  | case1 => simp at h
  | case2 => simp_all
  | case3 after ih =>
    obtain ⟨⟨s, l⟩, hs, ⟨⟩⟩ := Option.map_eq_some_iff.1 h
    simp [ih hs]
  | case4 => simp_all
  | case5 => simp at h
  | case6 c hc hesc next after ih =>
    obtain ⟨⟨s, l⟩, hs, ⟨⟩⟩ := Option.map_eq_some_iff.1 h
    simp [ih hs]
  | case7 c rest hc hesc ih =>
    obtain ⟨⟨s, l⟩, hs, ⟨⟩⟩ := Option.map_eq_some_iff.1 h
    simp [ih hs]

/-- The quote that closes is not doubled. -/
theorem quotedContent_stops {quote : Char} {escapes : Bool} {cs content left : List Char}
    (h : quotedContent quote escapes cs = some (content, left)) : left.head? ≠ some quote := by
  fun_induction quotedContent quote escapes cs generalizing content left with
  | case1 => simp at h
  | case2 => simp_all
  | case3 after ih =>
    obtain ⟨⟨s, l⟩, hs, ⟨⟩⟩ := Option.map_eq_some_iff.1 h
    exact ih hs
  | case4 next after hne =>
    obtain ⟨rfl, rfl⟩ : content = [] ∧ next :: after = left := by simpa using h
    simpa using hne
  | case5 => simp at h
  | case6 c hc hesc next after ih =>
    obtain ⟨⟨s, l⟩, hs, ⟨⟩⟩ := Option.map_eq_some_iff.1 h
    exact ih hs
  | case7 c rest hc hesc ih =>
    obtain ⟨⟨s, l⟩, hs, ⟨⟩⟩ := Option.map_eq_some_iff.1 h
    exact ih hs

theorem quotedContent_change {quote : Char} {escapes : Bool} {cs content left next : List Char}
    (h : quotedContent quote escapes cs = some (content, left)) (hn : next.head? ≠ some quote) :
    quotedContent quote escapes (content ++ quote :: next) = some (content, next) := by
  fun_induction quotedContent quote escapes cs generalizing content left with
  | case1 => simp at h
  | case2 =>
    obtain ⟨rfl, rfl⟩ : content = [] ∧ left = [] := by simpa [eq_comm] using h
    exact quotedContent_closing hn
  | case3 after ih =>
    obtain ⟨⟨s, l⟩, hs, ⟨⟩⟩ := Option.map_eq_some_iff.1 h
    simp [quotedContent, ih hs]
  | case4 c after hne =>
    obtain ⟨rfl, rfl⟩ : content = [] ∧ c :: after = left := by simpa using h
    exact quotedContent_closing hn
  | case5 => simp at h
  | case6 c hc hesc b after ih =>
    obtain ⟨⟨s, l⟩, hs, ⟨⟩⟩ := Option.map_eq_some_iff.1 h
    simp [quotedContent, hc, hesc, ih hs]
  | case7 c rest hc hesc ih =>
    obtain ⟨⟨s, l⟩, hs, ⟨⟩⟩ := Option.map_eq_some_iff.1 h
    rw [List.cons_append, quotedContent_of_ne hc (by simpa using hesc), ih hs]
    rfl

theorem quotedContent_plain {quote : Char} {content next : List Char} (escapes : Bool)
    (hplain : ∀ c ∈ content, c ≠ quote ∧ c ≠ '\\') (hn : next.head? ≠ some quote) :
    quotedContent quote escapes (content ++ quote :: next) = some (content, next) := by
  induction content with
  | nil => exact quotedContent_closing hn
  | cons c content ih =>
    obtain ⟨hc, hplain⟩ := List.forall_mem_cons.1 hplain
    rw [List.cons_append, quotedContent_of_ne hc.1 fun _ => hc.2, ih hplain]
    rfl

/-! ## Escaped and Unicode strings -/

/-- A content that an escaped or Unicode string can hold as it stands. -/
def Literal (content : List Char) : Prop :=
  ∀ c ∈ content, c ≠ '\'' ∧ c ≠ '\\'

theorem readCodePoint?_suffix {count : Nat} {cs left : List Char} {c : Char}
    (h : readCodePoint? count cs = some (c, left)) : left <:+ cs := by
  have decoded : ∀ digits : List Char,
      (if digits.isEmpty || !digits.all Text.isHexDigit then none
        else (charOf? (Text.valueOf 16 digits)).map fun c => (c, cs.drop count)) =
          some (c, left) → left <:+ cs := by
    intro digits hd
    split at hd
    · simp at hd
    · obtain ⟨c', -, ⟨⟩⟩ := Option.map_eq_some_iff.1 hd
      exact List.drop_suffix count cs
  unfold readCodePoint? at h
  dsimp only at h
  split at h
  · simp at h
  · exact decoded _ h

/-- An escape takes at least one character after its backslash. -/
theorem readEscape?_suffix {cs left : List Char} {c : Char}
    (h : readEscape? cs = some (c, left)) : ∃ a after, cs = a :: after ∧ left <:+ after := by
  unfold readEscape? at h
  split at h
  · simp at h
  · rename_i a after
    refine ⟨a, after, rfl, ?_⟩
    split at h
    case h_6 => exact readCodePoint?_suffix h
    case h_7 => exact readCodePoint?_suffix h
    case h_8 =>
      dsimp only at h
      split at h
      · simp_all
      · obtain ⟨c', -, ⟨⟩⟩ := Option.map_eq_some_iff.1 h
        exact List.drop_suffix _ _
    case h_9 =>
      split at h
      · obtain ⟨c', -, ⟨⟩⟩ := Option.map_eq_some_iff.1 h
        exact List.drop_suffix _ _
      · simp_all
    all_goals simp_all

/-- A string content was taken from the head of a text, either as it stands or from more
characters than it has. -/
def TakenAs (cs content left : List Char) : Prop :=
  left.head? ≠ some '\'' ∧ ∃ taken, cs = taken ++ '\'' :: left ∧
    (taken = content ∧ Literal content ∨ content.length < taken.length)

private theorem TakenAs.closed {rest : List Char} (h : rest.head? ≠ some '\'') :
    TakenAs ('\'' :: rest) [] rest :=
  ⟨h, [], rfl, Or.inl ⟨rfl, by simp [Literal]⟩⟩

private theorem TakenAs.plain {cs content left : List Char} {c : Char} (hc : c ≠ '\'' ∧ c ≠ '\\')
    (h : TakenAs cs content left) : TakenAs (c :: cs) (c :: content) left := by
  obtain ⟨hl, taken, rfl, ht⟩ := h
  refine ⟨hl, c :: taken, rfl, ?_⟩
  rcases ht with ⟨rfl, hlit⟩ | ht
  · exact Or.inl ⟨rfl, List.forall_mem_cons.2 ⟨hc, hlit⟩⟩
  · exact Or.inr (by simpa using ht)

private theorem TakenAs.decoded {cs content left : List Char} (c : Char) (h : TakenAs cs content left)
    (written : List Char) (hw : 2 ≤ written.length) :
    TakenAs (written ++ cs) (c :: content) left := by
  obtain ⟨hl, taken, rfl, ht⟩ := h
  refine ⟨hl, written ++ taken, by simp, Or.inr ?_⟩
  have hle : content.length ≤ taken.length := by
    rcases ht with ⟨rfl, -⟩ | ht
    · exact le_rfl
    · exact ht.le
  simp only [List.length_cons, List.length_append]
  omega

theorem escapedContent?_source {fuel : Nat} {cs content left : List Char}
    (h : escapedContent? fuel cs = some (content, left)) : TakenAs cs content left := by
  fun_induction escapedContent? fuel cs generalizing content left with
  | case1 => simp at h
  | case2 => simp at h
  | case3 fuel after ih =>
    obtain ⟨⟨s, l⟩, hs, ⟨⟩⟩ := Option.map_eq_some_iff.1 h
    exact (ih hs).decoded '\'' ['\'', '\''] (by simp)
  | case4 fuel rest hrest =>
    obtain ⟨rfl, rfl⟩ : content = [] ∧ rest = left := by simpa using h
    refine TakenAs.closed fun hl => ?_
    obtain ⟨after, rfl⟩ := List.head?_eq_some_iff.1 hl
    exact hrest after rfl
  | case5 fuel rest hne ih =>
    obtain ⟨⟨decoded, after⟩, hr, hs⟩ := Option.bind_eq_some_iff.1 h
    obtain ⟨a, tail, rfl, skipped, rfl⟩ := readEscape?_suffix hr
    dsimp only at hs
    split at hs
    · simp at hs
    · obtain ⟨⟨s, l⟩, hafter, ⟨⟩⟩ := Option.map_eq_some_iff.1 hs
      exact (ih _ hafter).decoded decoded ('\\' :: a :: skipped) (by simp)
  | case6 fuel c rest hq hb ih =>
    obtain ⟨⟨s, l⟩, hs, ⟨⟩⟩ := Option.map_eq_some_iff.1 h
    exact (ih hs).plain ⟨hq, hb⟩

theorem escapedContent?_literal {fuel : Nat} {content next : List Char}
    (hlit : Literal content) (hn : next.head? ≠ some '\'') (hfuel : content.length < fuel) :
    escapedContent? fuel (content ++ '\'' :: next) = some (content, next) := by
  induction content generalizing fuel with
  | nil =>
    obtain ⟨fuel, rfl⟩ := Nat.exists_eq_succ_of_ne_zero (Nat.ne_of_gt hfuel)
    cases next with
    | nil => rfl
    | cons c next =>
      have hc : c ≠ '\'' := by simpa using hn
      rw [List.nil_append, escapedContent?.eq_def]
      simp [hc]
  | cons c content ih =>
    obtain ⟨fuel, rfl⟩ := Nat.exists_eq_succ_of_ne_zero (Nat.ne_of_gt (Nat.zero_lt_of_lt hfuel))
    obtain ⟨hc, hlit⟩ := List.forall_mem_cons.1 hlit
    rw [List.cons_append, escapedContent?.eq_def]
    simp [hc.1, hc.2, ih hlit (Nat.lt_of_succ_lt_succ hfuel)]

theorem readHexDigits_source {count value : Nat} {cs left : List Char} {c : Char}
    (h : readHexDigits count value cs = .ok (c, left)) :
    ∃ digits, cs = digits ++ left ∧ digits.length = count := by
  fun_induction readHexDigits count value cs with
  | case1 => exact ⟨[], by simp_all⟩
  | case2 => simp at h
  | case3 => simp at h
  | case4 value count c rest digit hd ih =>
    obtain ⟨digits, rfl, hlen⟩ := ih h
    exact ⟨c :: digits, rfl, by simp [hlen]⟩
  | case5 => simp at h

theorem unicodeContent_source {fuel : Nat} {cs content left : List Char}
    (h : unicodeContent fuel cs = .ok (content, left)) : TakenAs cs content left := by
  fun_induction unicodeContent fuel cs generalizing content left with
  | case1 => simp at h
  | case2 => simp at h
  | case3 =>
    rename_i fuel next after ih
    obtain ⟨⟨s, l⟩, hs, ⟨⟩⟩ := map_eq_ok.1 h
    exact (ih _ hs).decoded '\'' ['\'', '\''] (by simp)
  | case4 =>
    rename_i rest hrest _
    obtain ⟨rfl, rfl⟩ : [] = content ∧ rest = left := by simpa using h
    refine TakenAs.closed fun hl => ?_
    obtain ⟨after, rfl⟩ := List.head?_eq_some_iff.1 hl
    exact hrest after rfl
  | case5 =>
    rename_i fuel next after hne ih
    obtain ⟨⟨s, l⟩, hs, ⟨⟩⟩ := map_eq_ok.1 h
    exact (ih _ hs).decoded '\\' ['\\', '\\'] (by simp)
  | case6 =>
    rename_i fuel next after decoded tail hr hne ih
    obtain ⟨⟨s, l⟩, hs, ⟨⟩⟩ := map_eq_ok.1 h
    obtain ⟨digits, rfl, hlen⟩ := readHexDigits_source hr
    exact (ih _ hs).decoded decoded ('\\' :: '+' :: digits) (by simp)
  | case7 => simp at h
  | case8 =>
    rename_i fuel rest next decoded tail hr hb hplus hne ih
    simp only [hr] at h
    obtain ⟨⟨s, l⟩, hs, ⟨⟩⟩ := map_eq_ok.1 h
    obtain ⟨digits, rfl, hlen⟩ := readHexDigits_source hr
    exact (ih _ hs).decoded decoded ('\\' :: digits) (by simp [hlen])
  | case9 fuel rest next fault hr => simp [hr] at h
  | case10 =>
    rename_i fuel c rest next hq hb ih
    obtain ⟨⟨s, l⟩, hs, ⟨⟩⟩ := map_eq_ok.1 h
    exact (ih _ hs).plain ⟨hq, hb⟩

theorem unicodeContent_literal {fuel : Nat} {content next : List Char}
    (hlit : Literal content) (hn : next.head? ≠ some '\'') (hfuel : content.length < fuel) :
    unicodeContent fuel (content ++ '\'' :: next) = .ok (content, next) := by
  induction content generalizing fuel with
  | nil =>
    obtain ⟨fuel, rfl⟩ := Nat.exists_eq_succ_of_ne_zero (Nat.ne_of_gt hfuel)
    cases next with
    | nil => rfl
    | cons c next =>
      have hc : c ≠ '\'' := by simpa using hn
      rw [List.nil_append, unicodeContent.eq_def]
      simp [hc]
  | cons c content ih =>
    obtain ⟨fuel, rfl⟩ := Nat.exists_eq_succ_of_ne_zero (Nat.ne_of_gt (Nat.zero_lt_of_lt hfuel))
    obtain ⟨hc, hlit⟩ := List.forall_mem_cons.1 hlit
    rw [List.cons_append, unicodeContent.eq_def]
    simp [hc.1, hc.2, ih hlit (Nat.lt_of_succ_lt_succ hfuel), Except.map]

/-! ## Comments -/

theorem blockContent_source {depth : Nat} {last : Char} {cs content left : List Char}
    (h : blockContent depth last cs = some (content, left)) :
    cs = content ++ '/' :: left ∧ (last :: content).getLast? = some '*' := by
  fun_induction blockContent depth last cs generalizing content left with
  | case1 => simp at h
  | case2 last c rest hclose =>
    obtain ⟨rfl, rfl⟩ : content = [] ∧ rest = left := by simpa using h
    simp [hclose]
  | case3 last c rest hclose outer ih =>
    obtain ⟨⟨s, l⟩, hs, ⟨⟩⟩ := Option.map_eq_some_iff.1 h
    obtain ⟨rfl, hlast⟩ := ih hs
    exact ⟨rfl, by simpa using hlast⟩
  | case4 =>
    rename_i depth last c rest hclose inner ih
    obtain ⟨⟨s, l⟩, hs, ⟨⟩⟩ := Option.map_eq_some_iff.1 h
    obtain ⟨rfl, hlast⟩ := ih hs
    exact ⟨rfl, by simpa using hlast⟩

theorem blockContent_change {depth : Nat} {last : Char} {cs content left : List Char}
    (h : blockContent depth last cs = some (content, left)) (next : List Char) :
    blockContent depth last (content ++ '/' :: next) = some (content, next) := by
  fun_induction blockContent depth last cs generalizing content left with
  | case1 => simp at h
  | case2 last c rest hclose =>
    obtain ⟨rfl, rfl⟩ : content = [] ∧ rest = left := by simpa using h
    simp [blockContent, hclose.1]
  | case3 last c rest hclose outer ih =>
    obtain ⟨⟨s, l⟩, hs, ⟨⟩⟩ := Option.map_eq_some_iff.1 h
    rw [List.cons_append, blockContent, if_pos hclose]
    simp [ih hs]
  | case4 =>
    rename_i depth last c rest hclose inner ih
    obtain ⟨⟨s, l⟩, hs, ⟨⟩⟩ := Option.map_eq_some_iff.1 h
    rw [List.cons_append, blockContent.eq_def]
    simp [hclose, inner, ih hs]

/-! ## Strings between dollar signs -/

theorem dollarContent_source {pending : Bool} {cs content left : List Char}
    (h : dollarContent pending cs = some (content, left)) :
    (if pending then '$' :: cs else cs) = content ++ '$' :: '$' :: left := by
  fun_induction dollarContent pending cs generalizing content left with
  | case1 => simp at h
  | case2 rest =>
    obtain ⟨rfl, rfl⟩ : content = [] ∧ rest = left := by simpa using h
    simp
  | case3 c rest hc ih =>
    obtain ⟨⟨s, l⟩, hs, ⟨⟩⟩ := Option.map_eq_some_iff.1 h
    simpa using ih hs
  | case4 pending rest hp ih => simpa [hp] using ih h
  | case5 pending c rest hp hc ih =>
    obtain ⟨⟨s, l⟩, hs, ⟨⟩⟩ := Option.map_eq_some_iff.1 h
    simpa [hp] using ih hs

theorem dollarContent_change {pending : Bool} {cs content left : List Char}
    (h : dollarContent pending cs = some (content, left)) (next : List Char) :
    dollarContent pending ((content ++ '$' :: '$' :: next).drop (if pending then 1 else 0)) =
      some (content, next) := by
  -- a pending dollar sign has been read already, so it is not read again
  fun_induction dollarContent pending cs generalizing content left with
  | case1 => simp at h
  | case2 rest =>
    obtain ⟨rfl, rfl⟩ : content = [] ∧ rest = left := by simpa using h
    simp [dollarContent]
  | case3 c rest hc ih =>
    obtain ⟨⟨s, l⟩, hs, ⟨⟩⟩ := Option.map_eq_some_iff.1 h
    have hs := ih hs
    simp only [Bool.false_eq_true, if_false, List.drop_zero] at hs
    simp [dollarContent, hc, hs]
  | case4 pending rest hp ih =>
    obtain rfl : pending = false := by simpa using hp
    have hs := ih h
    have hsource := dollarContent_source h
    cases content with
    | nil => simp [dollarContent]
    | cons c content =>
      obtain ⟨rfl, -⟩ : '$' = c ∧ rest = content ++ '$' :: '$' :: left := by simpa using hsource
      simpa [dollarContent] using hs
  | case5 pending c rest hp hc ih =>
    obtain ⟨⟨s, l⟩, hs, ⟨⟩⟩ := Option.map_eq_some_iff.1 h
    have hs := ih hs
    simp only [Bool.false_eq_true, if_false, List.drop_zero] at hs
    simp [dollarContent, hp, hc, hs]

theorem matchTag?_source {tag cs read left : List Char} {same : Bool}
    (h : matchTag? tag cs = some (read, same, left)) : cs = read ++ left := by
  fun_induction matchTag? tag cs generalizing read same left with
  | case1 => simp_all
  | case2 => simp at h
  | case3 t tag rest ih =>
    obtain ⟨⟨r, e, l⟩, hr, ⟨⟩⟩ := Option.map_eq_some_iff.1 h
    simp [ih hr]
  | case4 t tag c rest hne =>
    obtain ⟨rfl, -, rfl⟩ : [c] = read ∧ false = same ∧ rest = left := by simpa using h
    simp

theorem matchTag?_change {tag cs read left : List Char} {same : Bool}
    (h : matchTag? tag cs = some (read, same, left)) (next : List Char) :
    matchTag? tag (read ++ next) = some (read, same, next) := by
  fun_induction matchTag? tag cs generalizing read same left with
  | case1 => simp_all [matchTag?]
  | case2 => simp at h
  | case3 t tag rest ih =>
    obtain ⟨⟨r, e, l⟩, hr, ⟨⟩⟩ := Option.map_eq_some_iff.1 h
    simp [matchTag?, ih hr]
  | case4 t tag c rest hne =>
    obtain ⟨rfl, rfl, rfl⟩ : [c] = read ∧ false = same ∧ rest = left := by simpa using h
    simp [matchTag?, hne]

theorem matchTag?_same {tag cs read left : List Char}
    (h : matchTag? tag cs = some (read, true, left)) : read = tag := by
  fun_induction matchTag? tag cs generalizing read left with
  | case1 => simp_all
  | case2 => simp at h
  | case3 t tag rest ih =>
    obtain ⟨⟨r, e, l⟩, hr, ⟨⟩⟩ := Option.map_eq_some_iff.1 h
    simp [ih hr]
  | case4 => simp at h

theorem taggedContent?_source {tag cs content left : List Char} {fuel : Nat}
    (h : taggedContent? tag fuel cs = some (content, left)) :
    cs = content ++ '$' :: (tag ++ '$' :: left) := by
  fun_induction taggedContent? tag fuel cs generalizing content left with
  | case1 => simp at h
  | case2 => simp at h
  | case3 fuel rest ih =>
    obtain ⟨⟨read, same, tail⟩, hr, hs⟩ := Option.bind_eq_some_iff.1 h
    obtain rfl := matchTag?_source hr
    dsimp only at hs
    split at hs
    · obtain rfl := matchTag?_same hr
      obtain ⟨rfl, rfl⟩ : [] = content ∧ _ = left := by simpa using hs
      simp
    · obtain ⟨⟨s, l⟩, htail, ⟨⟩⟩ := Option.map_eq_some_iff.1 hs
      simp [ih _ htail]
  | case4 fuel c rest hc ih =>
    obtain ⟨⟨s, l⟩, hs, ⟨⟩⟩ := Option.map_eq_some_iff.1 h
    simp [ih hs]

theorem taggedContent?_change {tag cs content left : List Char} {fuel fuel' : Nat}
    (h : taggedContent? tag fuel cs = some (content, left)) (next : List Char)
    (hfuel : content.length < fuel') :
    taggedContent? tag fuel' (content ++ '$' :: (tag ++ '$' :: next)) = some (content, next) := by
  fun_induction taggedContent? tag fuel cs generalizing content left fuel' with
  | case1 => simp at h
  | case2 => simp at h
  | case3 fuel rest ih =>
    obtain ⟨fuel', rfl⟩ := Nat.exists_eq_succ_of_ne_zero (Nat.ne_of_gt (Nat.zero_lt_of_lt hfuel))
    obtain ⟨⟨read, same, tail⟩, hr, hs⟩ := Option.bind_eq_some_iff.1 h
    dsimp only at hs
    split at hs
    · obtain rfl := matchTag?_same hr
      obtain ⟨rfl, rfl⟩ : [] = content ∧ _ = left := by simpa using hs
      simp [taggedContent?, matchTag?_change hr]
    · rename_i hne
      obtain ⟨⟨s, l⟩, htail, ⟨⟩⟩ := Option.map_eq_some_iff.1 hs
      have hlen : s.length < fuel' := by
        simp only [List.length_cons, List.length_append] at hfuel
        omega
      have hread := matchTag?_change hr (s ++ '$' :: (tag ++ '$' :: next))
      have hnext := ih _ htail hlen
      -- a tag that was read in full is followed by no dollar sign, also in the other text
      have hopen : ∀ after, same = true → s ++ '$' :: (tag ++ '$' :: next) ≠ '$' :: after := by
        intro after hsame heq
        rw [taggedContent?_source htail] at hne
        cases s with
        | nil => exact hne _ hsame rfl
        | cons c s =>
          obtain ⟨rfl, -⟩ := List.cons.inj heq
          exact hne _ hsame rfl
      rw [List.append_assoc, List.cons_append, taggedContent?.eq_def]
      simp [hread, hnext]
  | case4 fuel c rest hc ih =>
    obtain ⟨fuel', rfl⟩ := Nat.exists_eq_succ_of_ne_zero (Nat.ne_of_gt (Nat.zero_lt_of_lt hfuel))
    obtain ⟨⟨s, l⟩, hs, ⟨⟩⟩ := Option.map_eq_some_iff.1 h
    simp [taggedContent?, hc, ih hs (Nat.lt_of_succ_lt_succ hfuel)]

end Token

end ReportSql
