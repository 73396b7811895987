import ReportSql.Proofs.Token.Stream

/-!
# Blanks behind a text

A token that has text after it is read in the same way when that text goes on with
blanks: a reader looks at the first characters after its token, and where it looks
further, a blank is as good as the end of the text.

## Main definitions

* `Token.Blanks` - a text of blanks only

## Main results

* `Token.scan_of_isBlank` - a blank is a token of its own or starts a word
* `Token.begins_append` - a token with text after it is also read before further blanks
-/

namespace ReportSql

namespace Token

variable {d : Dialect}

/-- A text of blanks only. -/
def Blanks (cs : List Char) : Prop :=
  ∀ c ∈ cs, Text.isBlank c = true

/-! ## Blank characters -/

/-- The code points of the blanks. -/
private def blankCodes : List Nat :=
  List.range' 0x9 5 ++ [0x20, 0x85, 0xA0, 0x1680] ++ List.range' 0x2000 11 ++
    [0x2028, 0x2029, 0x202F, 0x205F, 0x3000]

private theorem isBlank_iff {c : Char} : Text.isBlank c = true ↔ c.toNat ∈ blankCodes := by
  simp only [Text.isBlank, blankCodes, List.mem_append, List.mem_range'_1, List.mem_cons,
    List.not_mem_nil, or_false, Bool.or_eq_true, Bool.and_eq_true, decide_eq_true_eq, beq_iff_eq]
  omega

/-- What holds of every blank is decided over their code points. -/
private theorem forall_isBlank {p : Char → Prop} (h : ∀ n ∈ blankCodes, p (Char.ofNat n)) :
    ∀ c, Text.isBlank c = true → p c := by
  intro c hc
  have hcode := h c.toNat (isBlank_iff.1 hc)
  rwa [Char.ofNat_toNat] at hcode

/-- The characters that are neither letters nor digits in the rules of the tokenizer. -/
def asciiMarks : List Char :=
  "'\"\x60[]&.+-*/<>=~!@#%^|?:;,()\x7b\x7d\\$_".toList

/-- A blank belongs to no token but a word, and only above ASCII. -/
theorem isBlank_apart : ∀ c, Text.isBlank c = true →
    c ∉ asciiMarks ∧ c.isAlphanum = false ∧
      isTagPart c = false ∧ Text.isNumeric c = false ∧ Text.isAlphabetic c = false := by
  refine forall_isBlank ?_
  decide +kernel

theorem toUpper_of_isBlank : ∀ c, Text.isBlank c = true → c.toUpper = c := by
  refine forall_isBlank ?_
  decide +kernel

theorem Blanks.stops {p : Char → Bool} {trail : List Char}
    (hp : ∀ c, Text.isBlank c = true → p c = false) (h : Blanks trail) : Stops p trail :=
  fun c hc => hp c (h c (List.mem_of_mem_head? hc))

theorem isBlank_ne {c mark : Char} (hc : Text.isBlank c = true)
    (hmark : mark ∈ asciiMarks) : c ≠ mark := by
  rintro rfl
  exact (isBlank_apart c hc).1 hmark

theorem isDigit_of_isBlank (c : Char) (hc : Text.isBlank c = true) : c.isDigit = false := by
  have halphanum := (isBlank_apart c hc).2.1
  simp only [Char.isAlphanum, Bool.or_eq_false_iff] at halphanum
  exact halphanum.2

/-! ## Texts that do not run into a token -/

section Append

variable {left trail : List Char}

theorem stops_append {p : Char → Bool} (h : Stops p left) (hne : left ≠ []) :
    Stops p (left ++ trail) := by
  unfold Stops
  rwa [List.head?_append_of_ne_nil _ hne]

theorem introducesLiteral_append {letter : Char} (hblanks : Blanks trail) (hne : left ≠ []) :
    introducesLiteral d letter (left ++ trail) = introducesLiteral d letter left := by
  have hpair : ∀ a : Char, introducesLiteral d letter (a :: trail) =
      introducesLiteral d letter [a] := by
    intro a
    cases trail with
    | nil => rfl
    | cons b trail =>
      have hb : b ≠ '\'' := isBlank_ne (hblanks b List.mem_cons_self) (by decide)
      unfold introducesLiteral
      split <;> simp_all
  cases left with
  | nil => exact absurd rfl hne
  | cons a left =>
    cases left with
    | nil => exact hpair a
    | cons b left =>
      unfold introducesLiteral
      split
      case h_7 => split <;> simp_all
      all_goals simp_all

theorem readExponent?_append (hblanks : Blanks trail) (hne : left ≠ [])
    (h : readExponent? left = none) : readExponent? (left ++ trail) = none := by
  cases left with
  | nil => exact absurd rfl hne
  | cons letter more =>
    by_contra hsome
    have hletter : letter = 'e' ∨ letter = 'E' := by
      by_contra hnot
      exact hsome (by simp [readExponent?, hnot])
    -- blanks add no digit
    have hdigits : ∀ {rest : List Char}, ¬ Stops Char.isDigit (rest ++ trail) →
        ¬ Stops Char.isDigit rest := by
      intro rest hnot hstops
      cases rest with
      | nil => exact hnot (hblanks.stops isDigit_of_isBlank)
      | cons c rest => exact hnot (stops_append hstops (List.cons_ne_nil c rest))
    refine (readExponent?_cons_ne_none hletter).2 ?_ h
    rcases (readExponent?_cons_ne_none hletter).1 hsome with hmore | ⟨sign, tail, heq, hsign, htail⟩
    · exact Or.inl (hdigits hmore)
    · cases more with
      | nil =>
        have hmem : sign ∈ trail := by
          rw [show trail = sign :: tail from heq]
          exact List.mem_cons_self
        rcases hsign with rfl | rfl
        · exact absurd rfl (isBlank_ne (hblanks _ hmem) (by decide))
        · exact absurd rfl (isBlank_ne (hblanks _ hmem) (by decide))
      | cons c more =>
        obtain ⟨rfl, rfl⟩ := List.cons.inj heq
        exact Or.inr ⟨c, more, rfl, hsign, hdigits htail⟩

theorem WordApart.append {cs : List Char} (hblanks : Blanks trail) (hne : left ≠ [])
    (h : WordApart d cs left) : WordApart d cs (left ++ trail) := by
  refine ⟨stops_append h.stops hne, fun letter hletter hcs => ?_⟩
  rw [introducesLiteral_append hblanks hne]
  exact h.introduces letter hletter hcs

theorem NumberApart.append {digits : List Char} (hblanks : Blanks trail) (hne : left ≠ [])
    (h : NumberApart d digits left) : NumberApart d digits (left ++ trail) := by
  have hhead : (left ++ trail).head? = left.head? := List.head?_append_of_ne_nil _ hne
  refine ⟨stops_append h.digit hne, by rw [hhead]; exact h.suffix, ?_, ?_, ?_, ?_⟩
  · rw [hhead]
    exact h.fraction
  · exact fun he hE => readExponent?_append hblanks hne (h.exponent he hE)
  · rw [hhead]
    exact h.hexadecimal
  · rw [hhead]
    exact fun he hE hd =>
      (h.word he hE hd).imp_right fun hw => hw.imp_right fun hstops => stops_append hstops hne

theorem OperatorApart.append {text : String} (hne : left ≠ []) (h : OperatorApart d text left) :
    OperatorApart d text (left ++ trail) := by
  have hhead : (left ++ trail).head? = left.head? := List.head?_append_of_ne_nil _ hne
  refine ⟨?_, fun hmark => stops_append (h.stops hmark) hne, fun hlast => absurd (h.last hlast) hne, ?_⟩
  · rw [hhead]
    exact h.unextended
  · rw [hhead]
    exact h.blank

/-- Blanks after a text do not make it run into the token before it. -/
theorem apart_append {t : Token} (hblanks : Blanks trail) (hne : left ≠ []) (h : Apart d t left) :
    Apart d t (left ++ trail) := by
  have hhead : (left ++ trail).head? = left.head? := List.head?_append_of_ne_nil _ hne
  cases t with
  | word value quote =>
    cases quote with
    | none => exact WordApart.append hblanks hne h
    | some quote => exact fun hquote => h (hhead ▸ hquote)
  | number digits long => exact fun hlong => (h hlong).append hblanks hne
  | literal kind content => exact fun hquote => h (hhead ▸ hquote)
  | placeholder text =>
    unfold Apart at h ⊢
    dsimp only at h ⊢
    split
    · rename_i hmark
      rw [if_pos hmark] at h
      exact stops_append h hne
    · rename_i hmark
      rw [if_neg hmark] at h
      exact ⟨stops_append h.1 hne, by rw [hhead]; exact h.2⟩
  | punctuation mark =>
    cases mark with
    | period => exact stops_append h hne
    | colon =>
      unfold Apart at h ⊢
      dsimp only at h ⊢
      rwa [hhead]
    | _ => trivial
  | operator text => exact OperatorApart.append hne h
  | lineComment mark content => exact Or.inr (h.resolve_left hne)
  | dollarQuoted tag content => trivial
  | blank kind => trivial
  | blockComment content => trivial
  | other c => trivial

/-! ## Literals with further text -/

theorem takeWhile_take_append {p : Char → Bool} {count : Nat} {rest : List Char} (more : List Char)
    (h : rest.drop ((rest.take count).takeWhile p).length ≠ []) :
    ((rest ++ more).take count).takeWhile p = (rest.take count).takeWhile p := by
  induction count generalizing rest with
  | zero => rfl
  | succ count ih =>
    cases rest with
    | nil => exact absurd rfl h
    | cons c rest =>
      rw [List.cons_append, List.take_succ_cons, List.take_succ_cons]
      by_cases hc : p c = true
      · rw [List.take_succ_cons, List.takeWhile_cons_of_pos hc] at h
        rw [List.takeWhile_cons_of_pos hc, List.takeWhile_cons_of_pos hc, ih h]
      · rw [List.takeWhile_cons_of_neg hc, List.takeWhile_cons_of_neg hc]

theorem readCodePoint?_append {count : Nat} {cs : List Char} {c : Char} (more : List Char)
    (h : readCodePoint? count cs = some (c, left)) :
    readCodePoint? count (cs ++ more) = some (c, left ++ more) := by
  have hlength : count ≤ cs.length := by
    by_contra hshort
    have hnone : readCodePoint? count cs = none := by
      unfold readCodePoint?
      rw [if_pos (by rw [List.length_take]; omega)]
    exact absurd (hnone.symm.trans h) (by simp)
  have hdecoded : ∀ digits : List Char,
      (if digits.isEmpty || !digits.all Text.isHexDigit then none
        else (charOf? (Text.valueOf 16 digits)).map fun c => (c, cs.drop count)) =
          some (c, left) →
      (if digits.isEmpty || !digits.all Text.isHexDigit then none
        else (charOf? (Text.valueOf 16 digits)).map fun c => (c, cs.drop count ++ more)) =
          some (c, left ++ more) := by
    intro digits h
    split at h
    · simp at h
    · rename_i hdigits
      obtain ⟨decoded, hdecoded, ⟨⟩⟩ := Option.map_eq_some_iff.1 h
      rw [if_neg hdigits, hdecoded]
      rfl
  unfold readCodePoint? at h ⊢
  rw [List.take_append_of_le_length hlength, List.drop_append_of_le_length hlength]
  dsimp only at h ⊢
  split at h
  · simp at h
  · rename_i hcount
    rw [if_neg hcount]
    exact hdecoded _ h

/-- An escape by digits takes the digits that are there, so its text must go on after them. -/
theorem lowByteChar?_append {p : Char → Bool} {code : List Char → Nat} {rest : List Char} {c : Char}
    (more : List Char) (hne : left ≠ [])
    (h : (lowByteChar? (code ((rest.take 2).takeWhile p))).map (fun decoded =>
      (decoded, rest.drop ((rest.take 2).takeWhile p).length)) = some (c, left)) :
    ((rest ++ more).take 2).takeWhile p = (rest.take 2).takeWhile p ∧
      (lowByteChar? (code (((rest ++ more).take 2).takeWhile p))).map (fun decoded =>
        (decoded, (rest ++ more).drop (((rest ++ more).take 2).takeWhile p).length)) =
          some (c, left ++ more) := by
  obtain ⟨decoded, hdecoded, heq⟩ := Option.map_eq_some_iff.1 h
  obtain ⟨rfl, rfl⟩ := Prod.mk.inj heq
  have hlength : ((rest.take 2).takeWhile p).length ≤ rest.length :=
    ((List.takeWhile_prefix p).trans (List.take_prefix 2 rest)).length_le
  have htake := takeWhile_take_append more hne
  refine ⟨htake, ?_⟩
  rw [htake, hdecoded, List.drop_append_of_le_length hlength]
  rfl

theorem readEscape?_append {cs : List Char} {c : Char} (more : List Char)
    (h : readEscape? cs = some (c, left)) (hne : left ≠ []) :
    readEscape? (cs ++ more) = some (c, left ++ more) := by
  unfold readEscape? at h
  split at h
  · simp at h
  · rename_i a rest
    rw [List.cons_append]
    -- six and seven are code points, eight and nine the digits of a byte, and the others single letters
    split at h
    case h_6 => exact readCodePoint?_append more h
    case h_7 => exact readCodePoint?_append more h
    case h_8 =>
      unfold readEscape?
      dsimp only at h ⊢
      split at h
      · rename_i hempty
        obtain ⟨rfl, rfl⟩ := Prod.mk.inj (Option.some.inj h)
        have hlength : ((rest.take 2).takeWhile Text.isHexDigit).length = 0 :=
          List.length_eq_zero_iff.2 (List.isEmpty_iff.1 hempty)
        have htake : ((rest ++ more).take 2).takeWhile Text.isHexDigit = _ :=
          takeWhile_take_append more (by rw [hlength]; exact hne)
        rw [htake, if_pos hempty]
        rfl
      · rename_i hfull
        obtain ⟨htake, hchange⟩ :=
          @lowByteChar?_append left Text.isHexDigit (Text.valueOf 16) rest c more hne h
        rw [htake] at hchange ⊢
        rw [if_neg hfull, hchange]
        rfl
    case h_9 =>
      unfold readEscape?
      dsimp only
      split at h
      · rename_i hoctal
        obtain ⟨-, hchange⟩ :=
          @lowByteChar?_append left isOctalDigit (fun more => Text.valueOf 8 (a :: more)) rest c more hne h
        split
        case h_9 => rw [if_pos hoctal, hchange]
        all_goals exact absurd hoctal (by decide)
      · rename_i hoctal
        obtain ⟨rfl, rfl⟩ := Prod.mk.inj (Option.some.inj h)
        split
        case h_9 => rw [if_neg hoctal]
        all_goals simp_all
    all_goals
      obtain ⟨rfl, rfl⟩ := Prod.mk.inj (Option.some.inj h)
      rfl

private theorem exists_succ_of_succ_le {n m : Nat} (h : n + 1 ≤ m) : ∃ k, m = k + 1 ∧ n ≤ k := by
  obtain ⟨k, rfl⟩ := Nat.exists_eq_add_of_le h
  exact ⟨n + k, Nat.add_right_comm n 1 k, Nat.le_add_right n k⟩

theorem escapedContent?_append {fuel fuel' : Nat} {cs content : List Char}
    (h : escapedContent? fuel cs = some (content, left)) (hquote : (left ++ trail).head? ≠ some '\'')
    (hle : fuel ≤ fuel') :
    escapedContent? fuel' (cs ++ trail) = some (content, left ++ trail) := by
  -- the reader stops at the quote, so more fuel changes nothing
  fun_induction escapedContent? fuel cs generalizing content left fuel' with
  | case1 => simp at h
  | case2 => simp at h
  | case3 fuel after ih =>
    obtain ⟨fuel', rfl, hfuel⟩ := exists_succ_of_succ_le hle
    obtain ⟨⟨s, l⟩, hs, ⟨⟩⟩ := Option.map_eq_some_iff.1 h
    simp [escapedContent?, ih hs hquote hfuel]
  | case4 fuel rest hrest =>
    obtain ⟨fuel', rfl, hfuel⟩ := exists_succ_of_succ_le hle
    obtain ⟨rfl, rfl⟩ : [] = content ∧ rest = left := by simpa using h
    rw [List.cons_append, escapedContent?.eq_def]
    generalize rest ++ trail = tail at hquote
    cases tail with
    | nil => rfl
    | cons c tail =>
      have hc : c ≠ '\'' := by simpa using hquote
      simp [hc]
  | case5 fuel rest hne ih =>
    obtain ⟨fuel', rfl, hfuel⟩ := exists_succ_of_succ_le hle
    obtain ⟨⟨decoded, after⟩, hread, hs⟩ := Option.bind_eq_some_iff.1 h
    dsimp only at hs
    split at hs
    · simp at hs
    · rename_i hnul
      obtain ⟨⟨s, l⟩, hafter, ⟨⟩⟩ := Option.map_eq_some_iff.1 hs
      have hne : after ≠ [] := by
        rintro rfl
        cases fuel <;> simp [escapedContent?] at hafter
      have hmore := ih after hafter hquote hfuel
      simp [escapedContent?, readEscape?_append trail hread hne, hnul, hmore]
  | case6 fuel c rest hq hb ih =>
    obtain ⟨fuel', rfl, hfuel⟩ := exists_succ_of_succ_le hle
    obtain ⟨⟨s, l⟩, hs, ⟨⟩⟩ := Option.map_eq_some_iff.1 h
    simp [escapedContent?, hq, hb, ih hs hquote hfuel]

theorem readHexDigits_append {count value : Nat} {cs : List Char} {c : Char} (more : List Char)
    (h : readHexDigits count value cs = .ok (c, left)) :
    readHexDigits count value (cs ++ more) = .ok (c, left ++ more) := by
  fun_induction readHexDigits count value cs with
  | case1 value cs decoded hdecoded =>
    obtain ⟨rfl, rfl⟩ := Prod.mk.inj (Except.ok.inj h)
    simp [readHexDigits, hdecoded]
  | case2 => simp at h
  | case3 => simp at h
  | case4 value count c rest digit hdigit ih => simp [readHexDigits, hdigit, ih h]
  | case5 => simp at h

theorem unicodeContent_append {fuel fuel' : Nat} {cs content : List Char}
    (h : unicodeContent fuel cs = .ok (content, left)) (hquote : (left ++ trail).head? ≠ some '\'')
    (hle : fuel ≤ fuel') :
    unicodeContent fuel' (cs ++ trail) = .ok (content, left ++ trail) := by
  fun_induction unicodeContent fuel cs generalizing content left fuel' with
  | case1 => simp at h
  | case2 => simp at h
  | case3 =>
    rename_i fuel next after ih
    obtain ⟨fuel', rfl, hfuel⟩ := exists_succ_of_succ_le hle
    obtain ⟨⟨s, l⟩, hs, ⟨⟩⟩ := map_eq_ok.1 h
    simp [unicodeContent, ih _ hs hquote hfuel, Except.map]
  | case4 =>
    rename_i fuel rest hrest _
    obtain ⟨fuel', rfl, hfuel⟩ := exists_succ_of_succ_le hle
    obtain ⟨rfl, rfl⟩ : [] = content ∧ rest = left := by simpa using h
    rw [List.cons_append, unicodeContent.eq_def]
    generalize rest ++ trail = tail at hquote
    cases tail with
    | nil => rfl
    | cons c tail =>
      have hc : c ≠ '\'' := by simpa using hquote
      simp [hc]
  | case5 =>
    rename_i fuel next after hne ih
    obtain ⟨fuel', rfl, hfuel⟩ := exists_succ_of_succ_le hle
    obtain ⟨⟨s, l⟩, hs, ⟨⟩⟩ := map_eq_ok.1 h
    simp [unicodeContent, ih _ hs hquote hfuel, Except.map]
  | case6 =>
    rename_i fuel next after decoded tail hread hne ih
    obtain ⟨fuel', rfl, hfuel⟩ := exists_succ_of_succ_le hle
    obtain ⟨⟨s, l⟩, hs, ⟨⟩⟩ := map_eq_ok.1 h
    simp [unicodeContent, readHexDigits_append trail hread, ih _ hs hquote hfuel, Except.map]
  | case7 => simp at h
  | case8 =>
    rename_i fuel rest next decoded tail hread hb hplus hne ih
    obtain ⟨fuel', rfl, hfuel⟩ := exists_succ_of_succ_le hle
    simp only [hread] at h
    obtain ⟨⟨s, l⟩, hs, ⟨⟩⟩ := map_eq_ok.1 h
    have hmore := ih _ hs hquote hfuel
    have hreadmore := readHexDigits_append trail hread
    -- the first digit is neither a backslash nor a plus sign, so the same rule applies
    cases rest with
    | nil => simp [readHexDigits] at hread
    | cons c rest =>
      rw [List.cons_append, List.cons_append, unicodeContent.eq_def]
      rw [List.cons_append] at hreadmore
      have hc : c ≠ '\\' ∧ c ≠ '+' := ⟨fun h => hb rest (h ▸ rfl), fun h => hplus rest (h ▸ rfl)⟩
      simp [hc.1, hc.2, hreadmore, hmore, Except.map]
  | case9 fuel rest next fault hr => simp [hr] at h
  | case10 =>
    rename_i fuel c rest next hq hb ih
    obtain ⟨fuel', rfl, hfuel⟩ := exists_succ_of_succ_le hle
    obtain ⟨⟨s, l⟩, hs, ⟨⟩⟩ := map_eq_ok.1 h
    simp [unicodeContent, hq, hb, ih _ hs hquote hfuel, Except.map]

theorem scanLiteral_append {kind : LiteralKind} {escapes : Bool} {rest : List Char} {t : Token}
    (h : scanLiteral kind escapes (kind.quote :: rest) = .ok (t, left)) (hne : left ≠ []) :
    scanLiteral kind escapes (kind.quote :: (rest ++ trail)) = .ok (t, left ++ trail) := by
  obtain ⟨content, hread, rfl⟩ := scanLiteral_eq_ok h
  rw [List.drop_one, List.tail_cons] at hread
  have hquote : (left ++ trail).head? ≠ some kind.quote := by
    rw [List.head?_append_of_ne_nil _ hne]
    exact quotedContent_stops hread
  have hchange := quotedContent_change hread hquote
  obtain rfl := quotedContent_source hread
  unfold scanLiteral
  rw [List.drop_one, List.tail_cons, List.append_assoc, List.cons_append, hchange]

/-- A literal behind a letter. -/
theorem scanLetter_append {letter : Char} {whole rest : List Char} {t : Token}
    (hintro : introducesLiteral d letter rest = true)
    (h : scanLetter d letter whole rest = .ok (t, left)) (hne : left ≠ []) (whole' : List Char) :
    scanLetter d letter whole' (rest ++ trail) = .ok (t, left ++ trail) := by
  have hhead : (left ++ trail).head? = left.head? := List.head?_append_of_ne_nil _ hne
  have hlength : ∀ cs : List Char, cs.length + 1 ≤ (cs ++ trail).length + 1 := by
    intro cs
    rw [List.length_append]
    omega
  obtain ⟨kind, escapes, content, hquoted, rfl⟩ | ⟨content, hlower, rfl⟩ |
    ⟨content, hlower, rfl, rfl⟩ := introducesLiteral_iff.1 hintro
  · rw [hquoted.scanLetter] at h
    rw [List.cons_append, hquoted.scanLetter]
    exact scanLiteral_append h hne
  · rw [scanLetter_escaped hlower] at h
    rw [List.cons_append, scanLetter_escaped hlower]
    split at h
    · rename_i decoded left' hread
      obtain ⟨rfl, rfl⟩ := Prod.mk.inj (Except.ok.inj h)
      have hquote := (escapedContent?_source hread).1
      rw [escapedContent?_append hread (hhead ▸ hquote) (hlength content)]
    · simp at h
  · rw [scanLetter_unicode hlower] at h
    rw [List.cons_append, List.cons_append, scanLetter_unicode hlower]
    split at h
    · rename_i decoded left' hread
      obtain ⟨rfl, rfl⟩ := Prod.mk.inj (Except.ok.inj h)
      have hquote := (unicodeContent_source hread).1
      rw [unicodeContent_append hread (hhead ▸ hquote) (hlength content)]
    · simp at h

end Append

/-! ## Blank tokens -/

/-- The text after a blank; a carriage return and a line feed are one blank. -/
def afterBlank (c : Char) (rest : List Char) : List Char :=
  if c = '\r' ∧ rest.head? = some '\n' then rest.tail else rest

theorem afterBlank_append {c : Char} {rest : List Char} (hne : rest ≠ []) (more : List Char) :
    afterBlank c (rest ++ more) = afterBlank c rest ++ more := by
  unfold afterBlank
  rw [List.head?_append_of_ne_nil _ hne, List.tail_append_of_ne_nil hne]
  split <;> rfl

/-- The blanks with rules of their own. -/
private def asciiBlanks : List Char := [' ', '\t', '\n', '\r']

private theorem scan_asciiBlank {c : Char} (hascii : c ∈ asciiBlanks) :
    isWordStart d c = false ∧ ∃ kind, ∀ rest, scan d c rest = .ok (.blank kind, afterBlank c rest) := by
  have hword : ∀ a ∈ asciiBlanks, isWordStart d a = false := by
    cases d <;> decide
  refine ⟨hword c hascii, ?_⟩
  simp only [asciiBlanks, List.mem_cons, List.not_mem_nil, or_false] at hascii
  rcases hascii with rfl | rfl | rfl | rfl
  · exact ⟨.space, fun _ => rfl⟩
  · exact ⟨.tab, fun _ => rfl⟩
  · exact ⟨.newline, fun _ => rfl⟩
  · refine ⟨.newline, fun rest => ?_⟩
    cases rest with
    | nil => rfl
    | cons next rest =>
      by_cases hbreak : next = '\n'
      · rw [hbreak]
        rfl
      · unfold scan afterBlank
        split <;> simp_all

/-- A blank without a rule of its own comes to the last rules. -/
private theorem scan_wideBlank {c : Char} (hc : Text.isBlank c = true) (hascii : c ∉ asciiBlanks)
    (rest : List Char) :
    scan d c rest = if isWordStart d c then .ok (scanWord d [c] rest) else .ok (.blank .space, rest) := by
  obtain ⟨hmarks, halphanum, -⟩ := isBlank_apart c hc
  -- such a blank is no letter, mark or digit, so all rules before the last ones pass it on
  have hletters : c ∉ literalLetters := by
    intro hmem
    have hall : ∀ l ∈ literalLetters, l.isAlphanum = true := by decide
    rw [hall c hmem] at halphanum
    exact Bool.noConfusion halphanum
  have hleading : c ∉ leadingMarks := by
    intro hmem
    have hall : ∀ m ∈ leadingMarks, m ∈ asciiBlanks ∨ m ∈ asciiMarks := by decide
    exact (hall c hmem).elim hascii hmarks
  have hname : opensName d c = false := by
    rw [Bool.eq_false_iff]
    intro hopens
    rcases opensName_cases hopens with rfl | rfl | rfl <;> exact hmarks (by decide)
  have hfind : findOperator? (c :: rest) = none := by
    have hheads : ∀ e ∈ operators, ∀ a ∈ e.1.toList.head?, a ∈ asciiMarks := by decide
    exact findOperator?_eq_none (fun entry hentry hhead => hmarks (hheads entry hentry c hhead)) rest
  have hmark : punctuationOf? c = none := by
    unfold punctuationOf?
    split <;> first | rfl | exact absurd (by decide) hmarks
  have hdollar : c ≠ '$' := isBlank_ne hc (by decide)
  have hlast := scan_last (d := d) hleading hletters hname (isBlank_ne hc (by decide))
    ⟨isDigit_of_isBlank c hc, isBlank_ne hc (by decide)⟩ hfind
  simp only [hmark, if_neg hdollar, if_pos hc] at hlast
  exact hlast

/-- A blank is a token of its own, unless it starts a word. -/
theorem scan_of_isBlank {c : Char} (hc : Text.isBlank c = true) :
    isWordStart d c = true ∧ (∀ rest, scan d c rest = .ok (scanWord d [c] rest)) ∨
      isWordStart d c = false ∧ ∃ kind, ∀ rest, scan d c rest = .ok (.blank kind, afterBlank c rest) := by
  by_cases hascii : c ∈ asciiBlanks
  · exact Or.inr (scan_asciiBlank hascii)
  · have hlast := fun rest => @scan_wideBlank d c hc hascii rest
    cases hword : isWordStart d c with
    | true =>
      simp only [if_pos hword] at hlast
      exact Or.inl ⟨rfl, hlast⟩
    | false =>
      have hafter : ∀ rest, afterBlank c rest = rest := by
        intro rest
        refine if_neg fun hreturn => hascii ?_
        rw [hreturn.1]
        decide
      simp only [if_neg (Bool.eq_false_iff.1 hword)] at hlast
      refine Or.inr ⟨rfl, .space, fun rest => ?_⟩
      rw [hlast, hafter]

/-- Only a blank is read as a blank token. -/
theorem isBlank_of_begins {c : Char} {rest left : List Char} {kind : Blank}
    (h : Begins d (c :: rest) (.blank kind) left) : Text.isBlank c = true := by
  have hsource := (scan_outcome h).source
  generalize hcs : c :: rest = cs at hsource
  cases hsource with
  | exact plain apart =>
    rw [chars_blank] at hcs
    obtain rfl := (List.cons.inj hcs).1
    cases kind <;> decide
  | blank other wide white =>
    obtain rfl := (List.cons.inj hcs).1
    exact white

/-! ## Tokens with further blanks -/

section Append

variable {left trail : List Char}

theorem takeWhile_append {p : Char → Bool} {cs : List Char} (more : List Char)
    (h : cs.dropWhile p ≠ []) :
    (cs ++ more).takeWhile p = cs.takeWhile p ∧ (cs ++ more).dropWhile p = cs.dropWhile p ++ more := by
  have hparts : ∀ c ∈ cs.takeWhile p, p c = true := fun c hc => List.mem_takeWhile_imp hc
  have hstops : Stops p (cs.dropWhile p ++ more) := stops_append (stops_dropWhile p cs) h
  have hsplit : cs ++ more = cs.takeWhile p ++ (cs.dropWhile p ++ more) := by
    rw [← List.append_assoc, List.takeWhile_append_dropWhile]
  rw [hsplit]
  exact ⟨takeWhile_append_stops hparts hstops, dropWhile_append_stops hparts hstops⟩

theorem begins_hexadecimal (rest : List Char) :
    Begins d ('0' :: 'x' :: rest)
      (.literal .hexadecimal (String.ofList (rest.takeWhile Text.isHexDigit)))
      (rest.dropWhile Text.isHexDigit) :=
  begins_number (show '0' ∈ ('0' :: 'x' :: rest).head? from rfl) (Or.inl rfl)

theorem begins_notEqual (next : List Char) : Begins d ('!' :: '=' :: next) (.operator "<>") next := by
  have hlongest := admits_of_longest (d := d) "!=" (by decide) (by decide) next
  exact begins_operator ("!=", false) (by decide) hlongest.unextended

theorem begins_unique {cs left left' : List Char} {t t' : Token} (h : Begins d cs t left)
    (h' : Begins d cs t' left') : t = t' ∧ left = left' := by
  cases cs with
  | nil => exact h.elim
  | cons c rest => exact Prod.mk.inj (Except.ok.inj (h.symm.trans h'))

theorem begins_blank_append {c : Char} {rest : List Char} {kind : Blank} (hc : Text.isBlank c = true)
    (h : Begins d (c :: rest) (.blank kind) left) (hne : left ≠ []) :
    Begins d (c :: (rest ++ trail)) (.blank kind) (left ++ trail) := by
  rcases scan_of_isBlank (d := d) hc with ⟨-, hword⟩ | ⟨-, kind', hblank⟩
  · exact Token.noConfusion (begins_unique h (hword _)).1
  · obtain ⟨hkind, hleft⟩ := begins_unique h (hblank _)
    have hmore : rest ≠ [] := by
      rintro rfl
      refine hne (hleft.trans ?_)
      unfold afterBlank
      split <;> rfl
    have hread := hblank (rest ++ trail)
    rwa [afterBlank_append hmore, ← hleft, ← hkind] at hread

theorem begins_hexadecimal_append {digits : List Char} {t : Token}
    (h : Begins d ('0' :: 'x' :: digits) t left) (hne : left ≠ []) :
    Begins d ('0' :: 'x' :: (digits ++ trail)) t (left ++ trail) := by
  obtain ⟨htoken, hleft⟩ := begins_unique h (begins_hexadecimal digits)
  obtain ⟨htake, hdrop⟩ := takeWhile_append trail (p := Text.isHexDigit) (hleft ▸ hne)
  have hmore := begins_hexadecimal (d := d) (digits ++ trail)
  rwa [htake, hdrop, ← hleft, ← htoken] at hmore

/-- A question mark takes the next character with it, whatever comes after that one. -/
theorem begins_questionMark {c : Char} (h : Begins .postgres ('?' :: c :: left) (.operator "?") left)
    (next : List Char) : Begins .postgres ('?' :: c :: next) (.operator "?") next := by
  have hmark := Except.ok.inj h
  have hbar : c ≠ '|' := by
    rintro rfl
    exact absurd (Token.operator.inj (Prod.mk.inj hmark).1) (by decide)
  have hand : c ≠ '&' := by
    rintro rfl
    exact absurd (Token.operator.inj (Prod.mk.inj hmark).1) (by decide)
  have hread : scanQuestionMark .postgres (c :: next) = (.operator "?", next) := by
    unfold scanQuestionMark
    split <;> simp_all
  exact congrArg Except.ok hread

/-- A token with text after it is also read when that text goes on with blanks. -/
theorem begins_append {cs : List Char} {t : Token} (hblanks : Blanks trail) (h : Begins d cs t left)
    (hne : left ≠ []) : Begins d (cs ++ trail) t (left ++ trail) := by
  cases cs with
  | nil => exact h.elim
  | cons c rest =>
    by_cases hletter : c ∈ literalLetters ∧ introducesLiteral d c rest = true
    · obtain ⟨hl, hintro⟩ := hletter
      have hscan : scan d c rest = .ok (t, left) := h
      rw [scan_letter hl] at hscan
      exact (scan_letter hl _).trans (scanLetter_append hintro hscan hne _)
    have houtcome := scan_outcome h
    have hrereads := houtcome.rereads
    have hsource := houtcome.source
    generalize hcs : c :: rest = cs at hsource
    cases hsource with
    | exact plain apart =>
      rw [List.append_assoc]
      exact hrereads plain _ (apart_append hblanks hne apart)
    | blank other wide white =>
      obtain ⟨rfl, rfl⟩ := List.cons.inj hcs
      exact begins_blank_append white h hne
    | @literal kind letter marks content value left letters known apart printed =>
      obtain ⟨rfl, rfl⟩ := List.cons.inj hcs
      have hnot : introducesLiteral d c (marks ++ kind.quote :: (content ++ kind.quote :: left)) =
          false := Bool.eq_false_iff.2 fun hintro => hletter ⟨known, hintro⟩
      have hword := (scan_letter (d := d) known _).trans (scanLetter_word hnot)
      exact Token.noConfusion (begins_unique h hword).1
    | hexadecimal =>
      rw [hcs] at h
      exact begins_hexadecimal_append h hne
    | notEqual => exact begins_notEqual _
    | dropping dialect =>
      subst dialect
      rw [hcs] at h
      exact begins_questionMark h _

end Append

end Token

end ReportSql
