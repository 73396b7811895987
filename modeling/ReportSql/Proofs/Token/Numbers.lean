import ReportSql.Proofs.Token.Literals

/-!
# Numbers

The outcome of the reader of numbers. A number is read in parts, each of which
stops at the first character that does not belong to it, so it is read back
before a text that goes on with none of the parts.
-/

namespace ReportSql

namespace Token

variable {d : Dialect}

theorem readMantissa_spec {cs digits rest : List Char} (h : readMantissa cs = (digits, rest)) :
    cs = digits ++ rest ∧ Stops Char.isDigit rest ∧ ('.' ∉ digits → rest.head? ≠ some '.') ∧
      ∀ c ∈ digits, c.isDigit = true ∨ c = '.' := by
  have hwhole : ∀ c ∈ cs.takeWhile Char.isDigit, c.isDigit = true :=
    fun c hc => List.mem_takeWhile_imp hc
  have hsplit := List.takeWhile_append_dropWhile (p := Char.isDigit) (l := cs)
  unfold readMantissa at h
  dsimp only at h
  split at h
  · rename_i more hdrop
    obtain ⟨rfl, rfl⟩ := Prod.mk.inj h
    refine ⟨?_, stops_dropWhile _ _, fun hnot => absurd (by simp) hnot, fun c hc => ?_⟩
    · rw [hdrop] at hsplit
      simpa using hsplit.symm
    · rcases List.mem_append.1 hc with hc | hc
      · exact Or.inl (hwhole c hc)
      · rcases List.mem_cons.1 hc with rfl | hc
        · exact Or.inr rfl
        · exact Or.inl (List.mem_takeWhile_imp hc)
  · rename_i hnot
    obtain ⟨rfl, rfl⟩ := Prod.mk.inj h
    refine ⟨hsplit.symm, stops_dropWhile _ _, fun _ hhead => ?_, fun c hc => Or.inl (hwhole c hc)⟩
    obtain ⟨more, hmore⟩ := List.head?_eq_some_iff.1 hhead
    exact hnot more hmore

theorem readMantissa_change {cs digits rest next : List Char}
    (h : readMantissa cs = (digits, rest)) (hdigit : Stops Char.isDigit next)
    (hpoint : '.' ∉ digits → next.head? ≠ some '.') :
    readMantissa (digits ++ next) = (digits, next) := by
  have hwhole : ∀ c ∈ cs.takeWhile Char.isDigit, c.isDigit = true :=
    fun c hc => List.mem_takeWhile_imp hc
  have hperiod : ∀ after, Stops Char.isDigit ('.' :: after) := fun after => stops_cons.2 rfl
  unfold readMantissa at h
  dsimp only at h
  split at h
  · rename_i more hdrop
    obtain ⟨rfl, rfl⟩ := Prod.mk.inj h
    have hfraction : ∀ c ∈ more.takeWhile Char.isDigit, c.isDigit = true :=
      fun c hc => List.mem_takeWhile_imp hc
    unfold readMantissa
    rw [List.append_assoc, List.cons_append, takeWhile_append_stops hwhole (hperiod _),
      dropWhile_append_stops hwhole (hperiod _)]
    simp only [takeWhile_append_stops hfraction hdigit, dropWhile_append_stops hfraction hdigit]
  · obtain ⟨rfl, rfl⟩ := Prod.mk.inj h
    have hnopoint : '.' ∉ cs.takeWhile Char.isDigit :=
      fun hmem => Bool.noConfusion (hwhole '.' hmem)
    unfold readMantissa
    rw [takeWhile_append_stops hwhole hdigit, dropWhile_append_stops hwhole hdigit]
    dsimp only
    split
    · exact absurd rfl (hpoint hnopoint)
    · rfl

/-- The exponent of a number, read off its head. -/
theorem readExponent?_spec {cs exponent rest : List Char}
    (h : readExponent? cs = some (exponent, rest)) :
    cs = exponent ++ rest ∧ Stops Char.isDigit rest ∧
      ∃ letter more, exponent = letter :: more ∧ (letter = 'e' ∨ letter = 'E') := by
  unfold readExponent? at h
  split at h
  · simp at h
  · rename_i letter more
    have hdigits : ∀ sign tail, (if (List.takeWhile Char.isDigit tail).isEmpty = true then none
        else some (letter :: sign ++ tail.takeWhile Char.isDigit, tail.dropWhile Char.isDigit)) =
          some (exponent, rest) → exponent ++ rest = letter :: (sign ++ tail) ∧
            Stops Char.isDigit rest ∧ ∃ more, exponent = letter :: more := by
      intro sign tail hif
      split at hif
      · simp at hif
      · obtain ⟨rfl, rfl⟩ := Prod.mk.inj (Option.some.inj hif)
        exact ⟨by simp, stops_dropWhile _ _, _, rfl⟩
    split at h
    · rename_i hletter
      dsimp only at h
      split at h
      all_goals
        obtain ⟨hcs, hstops, more, rfl⟩ := hdigits _ _ h
        exact ⟨by simp [hcs], hstops, letter, more, rfl, hletter⟩
    · simp at h

theorem readExponent?_change {cs exponent rest next : List Char}
    (h : readExponent? cs = some (exponent, rest)) (hdigit : Stops Char.isDigit next) :
    readExponent? (exponent ++ next) = some (exponent, next) := by
  unfold readExponent? at h
  split at h
  · simp at h
  · rename_i letter more
    split at h
    · rename_i hletter
      have hdigits : ∀ tail : List Char, ∀ c ∈ tail.takeWhile Char.isDigit, c.isDigit = true :=
        fun tail c hc => List.mem_takeWhile_imp hc
      dsimp only at h
      split at h
      · rename_i tail
        split at h
        · simp at h
        · rename_i hsome
          obtain ⟨rfl, rfl⟩ := Prod.mk.inj (Option.some.inj h)
          simp only [List.cons_append, List.nil_append, readExponent?, if_pos hletter,
            takeWhile_append_stops (hdigits tail) hdigit,
            dropWhile_append_stops (hdigits tail) hdigit, if_neg hsome]
      · rename_i tail
        split at h
        · simp at h
        · rename_i hsome
          obtain ⟨rfl, rfl⟩ := Prod.mk.inj (Option.some.inj h)
          simp only [List.cons_append, List.nil_append, readExponent?, if_pos hletter,
            takeWhile_append_stops (hdigits tail) hdigit,
            dropWhile_append_stops (hdigits tail) hdigit, if_neg hsome]
      · rename_i hplus hminus
        split at h
        · simp at h
        · rename_i hsome
          obtain ⟨rfl, rfl⟩ := Prod.mk.inj (Option.some.inj h)
          -- the digits start with no sign
          obtain ⟨c, digits, htake⟩ : ∃ c digits, more.takeWhile Char.isDigit = c :: digits :=
            List.exists_cons_of_ne_nil (by simpa using hsome)
          have hc : c.isDigit = true := hdigits more c (by simp [htake])
          have hchange := takeWhile_append_stops (hdigits more) hdigit
          have hchange' := dropWhile_append_stops (hdigits more) hdigit
          rw [htake] at hchange hchange'
          have hsign : c ≠ '+' ∧ c ≠ '-' := by
            refine ⟨?_, ?_⟩ <;> rintro rfl <;> exact Bool.noConfusion hc
          simp only [htake, List.nil_append, List.cons_append] at hchange hchange' ⊢
          unfold readExponent?
          simp only [if_pos hletter]
          split
          all_goals simp_all
    · simp at h

/-- An exponent is a letter before digits, with or without a sign between them. -/
theorem readExponent?_cons_ne_none {letter : Char} {more : List Char}
    (hletter : letter = 'e' ∨ letter = 'E') :
    readExponent? (letter :: more) ≠ none ↔ ¬ Stops Char.isDigit more ∨
      ∃ sign tail, more = sign :: tail ∧ (sign = '+' ∨ sign = '-') ∧ ¬ Stops Char.isDigit tail := by
  -- with a sign and without one, a digit has to follow
  have hdigits : ∀ sign tail : List Char,
      (if (tail.takeWhile Char.isDigit).isEmpty = true then none
        else some (letter :: sign ++ tail.takeWhile Char.isDigit, tail.dropWhile Char.isDigit)) ≠
          none ↔ ¬ Stops Char.isDigit tail := by
    intro sign tail
    cases tail with
    | nil => simp [stops_nil]
    | cons c tail =>
      rw [stops_cons]
      by_cases hc : c.isDigit = true
      · simp [hc]
      · simp [Bool.eq_false_iff.2 hc]
  have hsigns : ∀ tail : List Char, Stops Char.isDigit ('+' :: tail) ∧
      Stops Char.isDigit ('-' :: tail) := fun tail => ⟨stops_cons.2 rfl, stops_cons.2 rfl⟩
  unfold readExponent?
  simp only [if_pos hletter]
  split
  · rename_i tail
    rw [hdigits]
    constructor
    · exact fun h => Or.inr ⟨_, tail, rfl, by simp, h⟩
    · rintro (h | ⟨sign, tail, heq, -, h⟩)
      · exact absurd (hsigns tail).1 h
      · rwa [(List.cons.inj heq).2]
  · rename_i tail
    rw [hdigits]
    constructor
    · exact fun h => Or.inr ⟨_, tail, rfl, by simp, h⟩
    · rintro (h | ⟨sign, tail, heq, -, h⟩)
      · exact absurd (hsigns tail).2 h
      · rwa [(List.cons.inj heq).2]
  · rename_i hplus hminus
    rw [hdigits]
    refine ⟨Or.inl, fun h => ?_⟩
    rcases h with h | ⟨sign, tail, rfl, rfl | rfl, -⟩
    · exact h
    · exact absurd rfl (hplus tail)
    · exact absurd rfl (hminus tail)

theorem scanSuffix_cases {digits rest left : List Char} {t : Token}
    (h : scanSuffix digits rest = (t, left)) :
    t = .number (String.ofList digits) true ∧ rest = 'L' :: left ∨
      t = .number (String.ofList digits) false ∧ rest = left ∧ left.head? ≠ some 'L' := by
  unfold scanSuffix at h
  split at h
  · obtain ⟨rfl, rfl⟩ := Prod.mk.inj h
    exact Or.inl ⟨rfl, rfl⟩
  · rename_i hnot
    obtain ⟨rfl, rfl⟩ := Prod.mk.inj h
    refine Or.inr ⟨rfl, rfl, fun hhead => ?_⟩
    obtain ⟨more, hmore⟩ := List.head?_eq_some_iff.1 hhead
    exact hnot more hmore

theorem scanSuffix_long (digits next : List Char) :
    scanSuffix digits ('L' :: next) = (.number (String.ofList digits) true, next) := rfl

theorem scanSuffix_short {digits next : List Char} (h : next.head? ≠ some 'L') :
    scanSuffix digits next = (.number (String.ofList digits) false, next) := by
  unfold scanSuffix
  split
  · simp at h
  · rfl

/-! ## The outcome -/

private theorem marks_not_number : ∀ m ∈ leadingMarks ++ literalLetters ++ ['"', '\x60', '['],
    m.isDigit = false ∧ m ≠ '.' := by
  decide

/-- A text that starts like a number is read by the reader of numbers. -/
theorem begins_number {cs : List Char} {c : Char} (hc : c ∈ cs.head?)
    (hnumber : c.isDigit = true ∨ c = '.') :
    Begins d cs (scanNumber d cs).1 (scanNumber d cs).2 := by
  obtain ⟨rest, rfl⟩ := List.head?_eq_some_iff.1 hc
  have hnot : c ∉ leadingMarks ++ literalLetters ++ ['"', '\x60', '['] := by
    intro hm
    obtain ⟨hdigit, hperiod⟩ := marks_not_number c hm
    rcases hnumber with h | h
    · rw [hdigit] at h
      exact Bool.noConfusion h
    · exact hperiod h
  simp only [List.mem_append, not_or] at hnot
  obtain ⟨⟨hmarks, hletters⟩, hquotes⟩ := hnot
  have hletters : ¬ "bBnNeEuUxX".toList.contains c = true := fun hm =>
    hletters (List.contains_iff_mem.1 hm)
  obtain ⟨hname, hdouble⟩ := opens_nothing (d := d) hquotes
  have hnumber : (c.isDigit || c = '.') = true := by simpa using hnumber
  show scan d c rest = .ok (scanNumber d (c :: rest))
  rw [scan_plain hmarks, scanPlain, if_neg hletters, if_neg (Bool.eq_false_iff.1 hname),
    if_neg hdouble, if_pos hnumber]

/-- The reader of numbers, on a text that is not hexadecimal. -/
theorem scanNumber_mantissa {cs digits rest : List Char} (hx : ∀ more, cs ≠ '0' :: 'x' :: more)
    (hm : readMantissa cs = (digits, rest)) :
    scanNumber d cs =
      if digits = ['.'] then (.punctuation .period, rest)
      else
        match readExponent? rest with
        | some (exponent, rest) => scanSuffix (digits ++ exponent) rest
        | none =>
          if d = .mysql && !(rest.head? == some 'e' || rest.head? == some 'E') &&
              !(rest.takeWhile (isWordPart d)).isEmpty then
            (.word (String.ofList (digits ++ rest.takeWhile (isWordPart d))) none,
              rest.dropWhile (isWordPart d))
          else scanSuffix digits rest := by
  unfold scanNumber
  split
  · exact absurd rfl (hx _)
  · generalize readMantissa cs = mantissa at hm ⊢
    subst hm
    rfl

/-- A text is hexadecimal by its first two characters. -/
theorem not_hexadecimal_change {taken left : List Char} (next : List Char)
    (hx : ∀ more, taken ++ left ≠ '0' :: 'x' :: more) (hne : taken ≠ [])
    (h0 : taken = ['0'] → next.head? ≠ some 'x') (more : List Char) :
    taken ++ next ≠ '0' :: 'x' :: more := by
  intro heq
  match taken, hne with
  | [a], _ =>
    obtain ⟨ha, hnext⟩ := List.cons.inj heq
    exact h0 (by rw [ha]) (List.head?_eq_some_iff.2 ⟨more, hnext⟩)
  | a :: b :: taken, _ =>
    obtain ⟨ha, heq⟩ := List.cons.inj heq
    obtain ⟨hb, -⟩ := List.cons.inj heq
    exact hx (taken ++ left) (by rw [ha, hb]; rfl)

private theorem stops_digit_exponent {letter : Char} (more : List Char)
    (h : letter = 'e' ∨ letter = 'E') :
    Stops Char.isDigit (letter :: more) ∧ (letter :: more).head? ≠ some '.' ∧
      (letter :: more).head? ≠ some 'x' := by
  rcases h with rfl | rfl <;> exact ⟨stops_cons.2 rfl, by simp, by simp⟩

/-- A number is read with or without its suffix, given the texts before which its digits are. -/
private theorem suffix_outcome {digits rest : List Char} (admits : List Char → Prop)
    (hread : ∀ next, admits next →
      Begins d (digits ++ next) (scanSuffix digits next).1 (scanSuffix digits next).2)
    (hlong : rest.head? = some 'L' → ∀ next, admits ('L' :: next))
    (hrest : rest.head? ≠ some 'L' → NumberApart d digits rest)
    (hadmits : ∀ next, NumberApart d digits next → admits next) :
    Outcome d (digits ++ rest) (scanSuffix digits rest).1 (scanSuffix digits rest).2 := by
  have happ : ∀ next, Apart d (.number (String.ofList digits) false) next ↔
      NumberApart d digits next := by
    intro next
    simp [Apart]
  generalize hresult : scanSuffix digits rest = result
  obtain ⟨t, left⟩ := result
  rcases scanSuffix_cases hresult with ⟨rfl, rfl⟩ | ⟨rfl, rfl, hL⟩
  · refine Outcome.exact (by simp) trivial (fun h => Bool.noConfusion h) fun next _ => ?_
    have hnext := hread _ (hlong rfl next)
    rw [scanSuffix_long] at hnext
    simpa using hnext
  · refine Outcome.exact (by simp) trivial ((happ _).2 (hrest hL)) fun next hnumber => ?_
    have hnumber := (happ next).1 hnumber
    have hnext := hread next (hadmits next hnumber)
    rw [scanSuffix_short hnumber.suffix] at hnext
    simpa using hnext

/-- Nothing behind the digits of a number goes on with it, the suffix apart. -/
structure EndsDigits (d : Dialect) (digits next : List Char) : Prop where
  digit : Stops Char.isDigit next
  fraction : '.' ∉ digits → next.head? ≠ some '.'
  hexadecimal : digits = ['0'] → next.head? ≠ some 'x'
  exponent : readExponent? next = none
  word : d = .mysql →
    next.head? = some 'e' ∨ next.head? = some 'E' ∨ Stops (isWordPart d) next

theorem NumberApart.endsDigits {digits next : List Char} (h : NumberApart d digits next)
    (he : 'e' ∉ digits) (hE : 'E' ∉ digits) : EndsDigits d digits next :=
  ⟨h.digit, h.fraction he hE, h.hexadecimal, h.exponent he hE, h.word he hE⟩

theorem endsDigits_suffix (hd : d ≠ .mysql) (digits next : List Char) :
    EndsDigits d digits ('L' :: next) :=
  ⟨stops_cons.2 rfl, by simp, by simp, by simp [readExponent?], fun h => absurd h hd⟩

section Mantissa

variable {cs digits rest : List Char} (hm : readMantissa cs = (digits, rest))
  (hx : ∀ more, cs ≠ '0' :: 'x' :: more) (hperiod : digits ≠ ['.'])

include hm in
private theorem no_exponent_letter : 'e' ∉ digits ∧ 'E' ∉ digits := by
  obtain ⟨-, -, -, hdigits⟩ := readMantissa_spec hm
  refine ⟨fun hmem => ?_, fun hmem => ?_⟩ <;> rcases hdigits _ hmem with h | h <;>
    revert h <;> decide

include hm in
private theorem begins_mantissa (hne : digits ≠ []) (more : List Char) :
    Begins d (digits ++ more) (scanNumber d (digits ++ more)).1
      (scanNumber d (digits ++ more)).2 := by
  obtain ⟨-, -, -, hdigits⟩ := readMantissa_spec hm
  obtain ⟨c, tail, rfl⟩ := List.exists_cons_of_ne_nil hne
  exact begins_number (c := c) rfl (hdigits c List.mem_cons_self)

include hm hx hperiod in
private theorem begins_endsDigits (hne : digits ≠ []) {next : List Char}
    (h : EndsDigits d digits next) :
    Begins d (digits ++ next) (scanSuffix digits next).1 (scanSuffix digits next).2 := by
  obtain ⟨rfl, -, -, -⟩ := readMantissa_spec hm
  have hnoword : ¬ (d = .mysql && !(next.head? == some 'e' || next.head? == some 'E') &&
      !(next.takeWhile (isWordPart d)).isEmpty) = true := by
    intro hcond
    simp only [Bool.and_eq_true, decide_eq_true_eq, Bool.not_eq_true', Bool.or_eq_false_iff,
      beq_eq_false_iff_ne] at hcond
    obtain ⟨⟨hd, hne, hnE⟩, hsome⟩ := hcond
    rcases h.word hd with h | h | h
    · exact hne h
    · exact hnE h
    · simp [takeWhile_of_stops h] at hsome
  have hscan := scanNumber_mantissa (d := d) (not_hexadecimal_change next hx hne h.hexadecimal)
    (readMantissa_change hm h.digit h.fraction)
  rw [if_neg hperiod, h.exponent] at hscan
  dsimp only at hscan
  rw [if_neg hnoword] at hscan
  rw [← hscan]
  exact begins_mantissa hm hne next

include hm hx hperiod in
/-- A number without an exponent. -/
private theorem plainNumber_outcome (hne : digits ≠ []) (hexp : readExponent? rest = none)
    (hword : ¬ (d = .mysql && !(rest.head? == some 'e' || rest.head? == some 'E') &&
      !(rest.takeWhile (isWordPart d)).isEmpty) = true) :
    Outcome d cs (scanSuffix digits rest).1 (scanSuffix digits rest).2 := by
  obtain ⟨hcs, hstops, hpoint, -⟩ := readMantissa_spec hm
  obtain ⟨he, hE⟩ := no_exponent_letter hm
  rw [hcs]
  refine suffix_outcome (EndsDigits d digits) (fun next h => begins_endsDigits hm hx hperiod hne h)
    (fun hL next => ?_) (fun hL => ?_) fun next h => h.endsDigits he hE
  · -- where words may start with digits, the suffix would be a part of one
    refine endsDigits_suffix ?_ digits next
    rintro rfl
    obtain ⟨more, rfl⟩ := List.head?_eq_some_iff.1 hL
    exact hword (by simp [isWordPart, isWordStart, Text.isAlphabetic])
  · refine ⟨hstops, hL, fun _ _ => hpoint, fun _ _ => hexp, ?_, fun _ _ hd => ?_⟩
    · rintro rfl hhead
      obtain ⟨more, rfl⟩ := List.head?_eq_some_iff.1 hhead
      exact hx more hcs
    · by_cases he : rest.head? = some 'e'
      · exact Or.inl he
      by_cases hE : rest.head? = some 'E'
      · exact Or.inr (Or.inl hE)
      refine Or.inr (Or.inr ?_)
      have hnone : rest.takeWhile (isWordPart d) = [] := by simpa [hd, he, hE] using hword
      have hrest := List.takeWhile_append_dropWhile (p := isWordPart d) (l := rest)
      rw [hnone, List.nil_append] at hrest
      rw [← hrest]
      exact stops_dropWhile _ _

include hm hx hperiod in
/-- A number with an exponent. -/
private theorem exponentNumber_outcome (hne : digits ≠ []) {exponent left : List Char}
    (hexp : readExponent? rest = some (exponent, left)) :
    Outcome d cs (scanSuffix (digits ++ exponent) left).1
      (scanSuffix (digits ++ exponent) left).2 := by
  obtain ⟨rfl, -, -, -⟩ := readMantissa_spec hm
  obtain ⟨rfl, hstops, letter, more, rfl, hletter⟩ := readExponent?_spec hexp
  have hlong : ∀ c : Char, digits ++ letter :: more ≠ [c] := by
    intro c heq
    have hlength := congrArg List.length heq
    have hpos := List.length_pos_iff.2 hne
    simp only [List.length_append, List.length_cons, List.length_nil] at hlength
    omega
  have hmem : 'e' ∈ digits ++ letter :: more ∨ 'E' ∈ digits ++ letter :: more := by
    rcases hletter with rfl | rfl
    · exact Or.inl (by simp)
    · exact Or.inr (by simp)
  rw [← List.append_assoc] at hx ⊢
  refine suffix_outcome (fun next => Stops Char.isDigit next) ?_ ?_ ?_ ?_
  · intro next hdigit
    have hexp := readExponent?_change hexp hdigit
    have hafter := stops_digit_exponent (more ++ next) hletter
    have hnot := not_hexadecimal_change next hx (List.append_ne_nil_of_left_ne_nil hne _)
      (fun h => absurd h (hlong _))
    rw [List.append_assoc] at hnot ⊢
    have hscan := scanNumber_mantissa (d := d) hnot
      (readMantissa_change hm hafter.1 fun _ => hafter.2.1)
    rw [if_neg hperiod, hexp] at hscan
    dsimp only at hscan
    rw [← hscan]
    exact begins_mantissa hm hne _
  · exact fun _ next => stops_cons.2 rfl
  · intro hL
    refine ⟨hstops, hL, fun he hE => ?_, fun he hE => ?_, fun h => absurd h (hlong _),
      fun he hE => ?_⟩
    all_goals
      rcases hmem with h | h
      · exact absurd h he
      · exact absurd h hE
  · exact fun next h => h.digit

include hm hx hperiod in
/-- Digits that run into a word. -/
private theorem digitWord_outcome (hne : digits ≠ []) (hexp : readExponent? rest = none)
    (hword : (d = .mysql && !(rest.head? == some 'e' || rest.head? == some 'E') &&
      !(rest.takeWhile (isWordPart d)).isEmpty) = true) :
    Outcome d cs (scanWord d digits rest).1 (scanWord d digits rest).2 := by
  obtain ⟨rfl, hstops, hpoint, -⟩ := readMantissa_spec hm
  have hcond := hword
  simp only [Bool.and_eq_true, decide_eq_true_eq, Bool.not_eq_true', Bool.or_eq_false_iff,
    beq_eq_false_iff_ne, List.isEmpty_eq_false_iff] at hcond
  obtain ⟨⟨hd, he, hE⟩, hsome⟩ := hcond
  obtain ⟨c, word, htake⟩ := List.exists_cons_of_ne_nil hsome
  obtain ⟨tail, rfl⟩ : ∃ tail, rest = c :: tail := by
    have hsplit := List.takeWhile_append_dropWhile (p := isWordPart d) (l := rest)
    rw [htake, List.cons_append] at hsplit
    exact ⟨_, hsplit.symm⟩
  have hc : c ≠ 'e' ∧ c ≠ 'E' := ⟨by simpa using he, by simpa using hE⟩
  -- a single letter could be a part of a literal
  have hlong : ∀ a : Char, digits ++ (c :: tail).takeWhile (isWordPart d) ≠ [a] := by
    intro a heq
    have hlength := congrArg List.length heq
    have hpos := List.length_pos_iff.2 hne
    simp only [htake, List.length_append, List.length_cons, List.length_nil] at hlength
    omega
  refine word_outcome (fun letter _ h => absurd h (hlong _)) fun next hnext => ?_
  have hsplit := List.takeWhile_append_dropWhile (p := isWordPart d) (l := c :: tail)
  have hx' : ∀ more, (digits ++ (c :: tail).takeWhile (isWordPart d)) ++
      (c :: tail).dropWhile (isWordPart d) ≠ '0' :: 'x' :: more := by
    rw [List.append_assoc, hsplit]
    exact hx
  have hnot := not_hexadecimal_change next hx'
    (List.append_ne_nil_of_left_ne_nil hne _) (fun h => absurd h (hlong _))
  rw [List.append_assoc] at hnot
  have hparts : ∀ a ∈ (c :: tail).takeWhile (isWordPart d), isWordPart d a = true :=
    fun a ha => List.mem_takeWhile_imp ha
  have hscan := scanNumber_mantissa (d := d) hnot (readMantissa_change hm
    (by rw [htake]; exact stops_cons.2 (stops_cons.1 hstops))
    (by rw [htake]; simpa using hpoint))
  have hnone : readExponent? ((c :: tail).takeWhile (isWordPart d) ++ next) = none := by
    simp [htake, readExponent?, hc.1, hc.2]
  have hword : (d = .mysql &&
      !(((c :: tail).takeWhile (isWordPart d) ++ next).head? == some 'e' ||
        ((c :: tail).takeWhile (isWordPart d) ++ next).head? == some 'E') &&
      !(((c :: tail).takeWhile (isWordPart d) ++ next).takeWhile (isWordPart d)).isEmpty) =
        true := by
    rw [takeWhile_append_stops hparts hnext.stops, htake]
    simp [hd, hc.1, hc.2]
  rw [if_neg hperiod, hnone] at hscan
  dsimp only at hscan
  rw [if_pos hword] at hscan
  unfold scanWord
  rw [← hscan]
  exact begins_mantissa hm hne _

end Mantissa

/-- Digits behind a zero and an x are printed as a literal. -/
private theorem hexadecimal_outcome (cs : List Char) :
    Outcome d ('0' :: 'x' :: cs)
      (.literal .hexadecimal (String.ofList (cs.takeWhile Text.isHexDigit)))
      (cs.dropWhile Text.isHexDigit) := by
  have hdigits : ∀ c ∈ cs.takeWhile Text.isHexDigit, c ≠ '\'' ∧ c ≠ '\\' := by
    intro c hc
    have hhex : Text.isHexDigit c = true := List.mem_takeWhile_imp hc
    refine ⟨?_, ?_⟩ <;> rintro rfl <;> exact Bool.noConfusion hhex
  constructor
  · have hsplit := List.takeWhile_append_dropWhile (p := Text.isHexDigit) (l := cs)
    have hsource : Source d ('0' :: 'x' :: (cs.takeWhile Text.isHexDigit ++
        cs.dropWhile Text.isHexDigit)) _ _ := Source.hexadecimal
    rwa [hsplit] at hsource
  · intro _ next hnext
    have hread := quotedContent_plain true hdigits hnext
    have hscan : scan d 'X' ('\'' :: (cs.takeWhile Text.isHexDigit ++ '\'' :: next)) =
        .ok (.literal .hexadecimal (String.ofList (cs.takeWhile Text.isHexDigit)), next) := by
      rw [scan_letter (by decide)]
      simp only [scanLetter, scanLiteral, LiteralKind.quote, List.drop_one, List.tail_cons, hread]
      rfl
    simpa [Begins, LiteralKind.letters, LiteralKind.quote] using hscan

theorem number_outcome {c : Char} {rest : List Char} (hc : c.isDigit = true ∨ c = '.') :
    Outcome d (c :: rest) (scanNumber d (c :: rest)).1 (scanNumber d (c :: rest)).2 := by
  by_cases hx : ∃ more, c :: rest = '0' :: 'x' :: more
  · obtain ⟨more, heq⟩ := hx
    rw [heq]
    exact hexadecimal_outcome more
  have hx : ∀ more, c :: rest ≠ '0' :: 'x' :: more := fun more heq => hx ⟨more, heq⟩
  generalize hm : readMantissa (c :: rest) = mantissa
  obtain ⟨digits, after⟩ := mantissa
  obtain ⟨hcs, hstops, hpoint, -⟩ := readMantissa_spec hm
  have hne : digits ≠ [] := by
    rintro rfl
    rw [List.nil_append] at hcs
    rw [← hcs] at hstops hpoint
    rcases hc with hdigit | rfl
    · rw [stops_cons.1 hstops] at hdigit
      exact Bool.noConfusion hdigit
    · exact hpoint (by simp) rfl
  rw [scanNumber_mantissa hx hm]
  by_cases hperiod : digits = ['.']
  · subst hperiod
    rw [if_pos rfl]
    refine Outcome.exact (by simpa [Punctuation.char] using hcs) trivial hstops fun next hnext => ?_
    have hscan := scanNumber_mantissa (d := d) (not_hexadecimal_change next (hcs ▸ hx) hne (by simp))
      (readMantissa_change hm hnext (by simp))
    rw [if_pos rfl] at hscan
    have hread := begins_mantissa (d := d) hm hne next
    rw [hscan] at hread
    simpa [Punctuation.char] using hread
  rw [if_neg hperiod]
  -- an exponent follows, in MySQL the rest of a word may follow, or the number ends
  cases hexp : readExponent? after with
  | some pair => exact exponentNumber_outcome hm hx hperiod hne hexp
  | none =>
    dsimp only
    split
    · rename_i hword
      exact digitWord_outcome hm hx hperiod hne hexp hword
    · rename_i hword
      exact plainNumber_outcome hm hx hperiod hne hexp hword

end Token

end ReportSql
