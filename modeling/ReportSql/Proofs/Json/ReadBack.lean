import ReportSql.Json.Parser
import ReportSql.Proofs.Json.Compact

/-!
# Compact JSON is read back

The reader of JSON gives back what was written in compact layout, up to the numbers that are no
integers: these are read in two rounding steps, so a neighbour of the number may come back.

## Main definitions

* `Json.Legible` - a value of a depth whose numbers are read back

## Main results

* `Json.readString?_quote` - a quoted text is read back
* `Json.readNumber?_integer` - an integer of 64 bits is read back
* `Json.parse?_compact` - a legible value is read back
-/

namespace ReportSql

open Token

namespace Json

/-! ## Strings -/

/-- An escaped character is read back in one step. -/
theorem readString?_escape (fuel : Nat) (done : List Char) (c : Char) (rest : List Char) :
    readString? (fuel + 1) done (escape c ++ rest) = readString? fuel (c :: done) rest := by
  by_cases hc : c ∈ escapedChars
  · -- the quote, the backslash, and then the control characters one by one
    rcases List.mem_cons.1 hc with rfl | hc
    · rfl
    rcases List.mem_cons.1 hc with rfl | hc
    · rfl
    obtain ⟨n, hn, rfl⟩ := List.mem_map.1 hc
    replace hn : n < 0x20 := List.mem_range.1 hn
    interval_cases n <;> rfl
  · obtain ⟨hescape, hbackslash, hquote⟩ := escape_of_notMem hc
    rw [hescape, List.singleton_append, readString?.eq_def]
    dsimp only
    rw [if_neg hquote, if_neg hbackslash, if_neg (not_control_of_notMem hc)]

theorem readString?_flatMap_escape {cs : List Char} {fuel : Nat} (hfuel : cs.length < fuel)
    (done rest : List Char) :
    readString? fuel done (cs.flatMap escape ++ '"' :: rest) =
      some (String.ofList (done.reverse ++ cs), rest) := by
  induction cs generalizing fuel done with
  | nil =>
    obtain ⟨fuel, rfl⟩ := Nat.exists_eq_succ_of_ne_zero (Nat.ne_of_gt hfuel)
    simp [readString?]
  | cons c cs ih =>
    obtain ⟨fuel, rfl⟩ := Nat.exists_eq_succ_of_ne_zero (Nat.ne_of_gt (Nat.zero_lt_of_lt hfuel))
    rw [List.flatMap_cons, List.append_assoc, readString?_escape,
      ih (Nat.lt_of_succ_lt_succ hfuel)]
    simp

theorem length_le_flatMap_escape (cs : List Char) : cs.length ≤ (cs.flatMap escape).length := by
  induction cs with
  | nil => rfl
  | cons c cs ih =>
    have hpos : 0 < (escape c).length := by
      by_cases hc : c ∈ escapedChars
      · obtain ⟨rest, hrest⟩ := List.head?_eq_some_iff.1 (escape_of_mem c hc).1
        simp [hrest]
      · simp [(escape_of_notMem hc).1]
    rw [List.flatMap_cons, List.length_append, List.length_cons]
    omega

/-- A quoted text is read back. -/
theorem readString?_quote (s : String) (rest : List Char) :
    readString? ((s.toList.flatMap escape ++ '"' :: rest).length + 1) []
      (s.toList.flatMap escape ++ '"' :: rest) = some (s, rest) := by
  have hlength := length_le_flatMap_escape s.toList
  rw [readString?_flatMap_escape]
  · simp
  · rw [List.length_append]
    omega

/-! ## Numbers before other text -/

/-- A run of characters does not grow when a text follows that does not go on with it. -/
theorem span_append {p : Char → Bool} {rest : List Char} (hrest : Stops p rest) (cs : List Char) :
    (cs ++ rest).takeWhile p = cs.takeWhile p ∧
      (cs ++ rest).dropWhile p = cs.dropWhile p ++ rest := by
  have hparts : ∀ c ∈ cs.takeWhile p, p c = true := fun c hc => List.mem_takeWhile_imp hc
  have hstops : Stops p (cs.dropWhile p ++ rest) := by
    have hleft := stops_dropWhile p cs
    cases hdrop : cs.dropWhile p with
    | nil => exact hrest
    | cons c left =>
      rw [hdrop] at hleft
      exact stops_cons.2 (stops_cons.1 hleft)
  have hsplit : cs ++ rest = cs.takeWhile p ++ (cs.dropWhile p ++ rest) := by
    rw [← List.append_assoc, List.takeWhile_append_dropWhile]
  constructor
  · rw [hsplit, takeWhile_append_stops hparts hstops]
  · rw [hsplit, dropWhile_append_stops hparts hstops]

variable {rest : List Char}

theorem stops_isDigit (hrest : Stops isInside rest) : Stops Char.isDigit rest := by
  intro c hc
  by_contra hnot
  have hdigit := Bool.eq_true_of_not_eq_false hnot
  have hinside : isInside c = true :=
    isInside_of_isNumeralChar (by simp [Binary64.isNumeralChar, hdigit])
  rw [hrest c hc] at hinside
  exact Bool.noConfusion hinside

theorem ne_of_stops {c d : Char} (hrest : Stops isInside (c :: rest)) (hd : isInside d = true) :
    c ≠ d := by
  rintro rfl
  rw [stops_cons.1 hrest] at hd
  exact Bool.noConfusion hd

theorem readSign_of_ne {c : Char} (h : c ≠ '-') (cs : List Char) :
    readSign (c :: cs) = (false, c :: cs) := by
  unfold readSign
  split
  · simp_all
  · rfl

theorem readSign_append (hrest : Stops isInside rest) (cs : List Char) :
    readSign (cs ++ rest) = ((readSign cs).1, (readSign cs).2 ++ rest) := by
  rcases cs with _ | ⟨c, cs⟩
  · rcases rest with _ | ⟨c, rest⟩
    · rfl
    · exact readSign_of_ne (ne_of_stops hrest (by decide)) rest
  · by_cases hc : c = '-'
    · subst hc
      rfl
    · rw [List.cons_append, readSign_of_ne hc, readSign_of_ne hc]
      rfl

theorem readWhole?_append (hrest : Stops isInside rest) (cs : List Char) :
    readWhole? (cs ++ rest) = (readWhole? cs).map fun (whole, left) => (whole, left ++ rest) := by
  obtain ⟨htake, hdrop⟩ := span_append (stops_isDigit hrest) cs
  unfold readWhole?
  rw [htake, hdrop]
  dsimp only
  split <;> rfl

theorem readFraction?_of_ne {c : Char} (h : c ≠ '.') (cs : List Char) :
    readFraction? (c :: cs) = some ([], c :: cs) := by
  unfold readFraction?
  split
  · simp_all
  · rfl

theorem readFraction?_append (hrest : Stops isInside rest) (cs : List Char) :
    readFraction? (cs ++ rest) =
      (readFraction? cs).map fun (fraction, left) => (fraction, left ++ rest) := by
  rcases cs with _ | ⟨c, cs⟩
  · rcases rest with _ | ⟨c, rest⟩
    · rfl
    · exact readFraction?_of_ne (ne_of_stops hrest (by decide)) rest
  · by_cases hc : c = '.'
    · subst hc
      obtain ⟨htake, hdrop⟩ := span_append (stops_isDigit hrest) cs
      rw [List.cons_append, readFraction?, readFraction?, htake, hdrop]
      dsimp only
      split <;> rfl
    · rw [List.cons_append, readFraction?_of_ne hc, readFraction?_of_ne hc]
      rfl

theorem readExponentSign_of_ne {c : Char} (hplus : c ≠ '+') (hminus : c ≠ '-') (cs : List Char) :
    readExponentSign (c :: cs) = (false, c :: cs) := by
  unfold readExponentSign
  split
  · simp_all
  · simp_all
  · rfl

theorem readExponentSign_append (hrest : Stops isInside rest) (cs : List Char) :
    readExponentSign (cs ++ rest) = ((readExponentSign cs).1, (readExponentSign cs).2 ++ rest) := by
  rcases cs with _ | ⟨c, cs⟩
  · rcases rest with _ | ⟨c, rest⟩
    · rfl
    · exact readExponentSign_of_ne (ne_of_stops hrest (by decide))
        (ne_of_stops hrest (by decide)) rest
  · by_cases hplus : c = '+'
    · subst hplus
      rfl
    · by_cases hminus : c = '-'
      · subst hminus
        rfl
      · rw [List.cons_append, readExponentSign_of_ne hplus hminus,
          readExponentSign_of_ne hplus hminus]
        rfl

theorem readExponent?_append (hrest : Stops isInside rest) (cs : List Char) :
    readExponent? (cs ++ rest) =
      (readExponent? cs).map fun (exponent, left) => (exponent, left ++ rest) := by
  obtain ⟨htake, hdrop⟩ := span_append (stops_isDigit hrest) (readExponentSign cs).2
  unfold readExponent?
  rw [readExponentSign_append hrest]
  dsimp only
  rw [htake, hdrop]
  split <;> rfl

theorem readPower?_of_ne {c : Char} (hlower : c ≠ 'e') (hupper : c ≠ 'E') (cs : List Char) :
    readPower? (c :: cs) = some (none, c :: cs) := by
  unfold readPower?
  split
  · simp_all
  · simp_all
  · rfl

theorem readPower?_append (hrest : Stops isInside rest) (cs : List Char) :
    readPower? (cs ++ rest) =
      (readPower? cs).map fun (exponent, left) => (exponent, left ++ rest) := by
  rcases cs with _ | ⟨c, cs⟩
  · rcases rest with _ | ⟨c, rest⟩
    · rfl
    · exact readPower?_of_ne (ne_of_stops hrest (by decide)) (ne_of_stops hrest (by decide)) rest
  · have hletter :
        ((readExponent? (cs ++ rest)).map fun (exponent, left) => (some exponent, left)) =
          ((readExponent? cs).map fun (exponent, left) => (some exponent, left)).map
            fun (exponent, left) => (exponent, left ++ rest) := by
      rw [readExponent?_append hrest, Option.map_map, Option.map_map]
      rfl
    by_cases hlower : c = 'e'
    · subst hlower
      exact hletter
    · by_cases hupper : c = 'E'
      · subst hupper
        exact hletter
      · rw [List.cons_append, readPower?_of_ne hlower hupper, readPower?_of_ne hlower hupper]
        rfl

/-- A number ends where a comma or a closing bracket follows. -/
theorem readLiteral?_append (hrest : Stops isInside rest) (cs : List Char) :
    readLiteral? (cs ++ rest) = (readLiteral? cs).map fun (l, left) => (l, left ++ rest) := by
  unfold readLiteral?
  rw [readSign_append hrest]
  dsimp only
  rw [readWhole?_append hrest]
  cases readWhole? (readSign cs).2 with
  | none => rfl
  | some whole =>
    simp only [Option.map_some, Option.bind_eq_bind, Option.bind_some, readFraction?_append hrest]
    cases readFraction? whole.2 with
    | none => rfl
    | some fraction =>
      simp only [Option.map_some, Option.bind_some, readPower?_append hrest]
      cases readPower? fraction.2 <;> rfl

theorem readNumber?_append (hrest : Stops isInside rest) (cs : List Char) :
    readNumber? (cs ++ rest) = (readNumber? cs).map fun (value, left) => (value, left ++ rest) := by
  unfold readNumber?
  rw [readLiteral?_append hrest]
  cases readLiteral? cs with
  | none => rfl
  | some literal =>
    simp only [Option.map_some, Option.bind_eq_bind, Option.bind_some]
    cases literal.1.value? <;> rfl

/-! ## Integers -/

/-- Digits whose number fits 64 bits are all taken. -/
theorem takeDigits_of_le {cs : List Char} (hdigits : ∀ c ∈ cs, c.isDigit = true) {significand : Nat}
    (h : Nat.ofDigitChars 10 cs significand ≤ greatestWord) :
    takeDigits significand cs = (Nat.ofDigitChars 10 cs significand, cs.length, []) := by
  induction cs generalizing significand with
  | nil => rfl
  | cons c cs ih =>
    obtain ⟨hc, hrest⟩ := List.forall_mem_cons.1 hdigits
    have hvalue : Text.valueOf 10 [c] = c.toNat - '0'.toNat := by
      simp [Text.valueOf, Text.hexValue?, hc]
    rw [Nat.ofDigitChars_cons, Nat.mul_comm 10] at h ⊢
    have hnext : significand * 10 + (c.toNat - '0'.toNat) ≤ greatestWord := by
      refine le_trans ?_ h
      rw [Nat.ofDigitChars_eq_ofDigitChars_zero]
      exact (Nat.le_mul_of_pos_left _ (by positivity)).trans (Nat.le_add_right _ _)
    rw [takeDigits, hvalue]
    dsimp only
    rw [if_pos hnext, ih hrest h]
    rfl

/-- Only zero is written with a leading zero. -/
theorem head?_toDigits {n : Nat} (h : n ≠ 0) : (Nat.toDigits 10 n).head? ≠ some '0' := by
  induction n using Nat.strongRecOn with
  | ind n ih =>
    rcases Nat.lt_or_ge n 10 with hlt | hge
    · rw [Nat.toDigits_of_lt_base hlt]
      interval_cases n <;> first | exact absurd rfl h | decide
    · -- the induction drops the last digit, so the first one stays
      have hne : Nat.toDigits 10 (n / 10) ≠ [] := Nat.toDigits_ne_nil
      rw [Nat.toDigits_of_base_le (by omega) hge, List.head?_append_of_ne_nil _ hne]
      exact ih (n / 10) (by omega) (by omega)

theorem readWhole?_toDigits (n : Nat) :
    readWhole? (Nat.toDigits 10 n) = some (Nat.toDigits 10 n, []) := by
  have hdigits : ∀ c ∈ Nat.toDigits 10 n, c.isDigit = true := fun c => Binary64.toDigits_isDigit
  have hnonempty : (Nat.toDigits 10 n).isEmpty = false := by simp [Nat.toDigits_ne_nil]
  have hzero :
      ((Nat.toDigits 10 n).head? == some '0' && 1 < (Nat.toDigits 10 n).length) = false := by
    by_cases hn : n = 0
    · subst hn
      rfl
    · simp [head?_toDigits hn]
  unfold readWhole?
  rw [List.takeWhile_eq_self_iff.2 hdigits, List.dropWhile_eq_nil_iff.2 hdigits]
  dsimp only
  rw [hnonempty, hzero]
  rfl

/-- The literal of the digits of a number. -/
theorem readLiteral?_toDigits {cs : List Char} {negative : Bool} {n : Nat}
    (h : readSign cs = (negative, Nat.toDigits 10 n)) :
    readLiteral? cs = some (⟨negative, Nat.toDigits 10 n, [], none⟩, []) := by
  unfold readLiteral?
  rw [h]
  dsimp only
  rw [readWhole?_toDigits]
  rfl

theorem takeDigits_toDigits {n : Nat} (h : n ≤ greatestWord) :
    takeDigits 0 (Nat.toDigits 10 n) = (n, (Nat.toDigits 10 n).length, []) := by
  have hvalue : Nat.ofDigitChars 10 (Nat.toDigits 10 n) 0 = n := Nat.ofDigitChars_ten_toDigits
  have hdigits : ∀ c ∈ Nat.toDigits 10 n, c.isDigit = true := fun c => Binary64.toDigits_isDigit
  have htake := takeDigits_of_le hdigits (hvalue.symm ▸ h : Nat.ofDigitChars 10 _ 0 ≤ greatestWord)
  rwa [hvalue] at htake

/-- An integer that fits 64 bits is read back. -/
theorem readNumber?_integer {n : Int} (hleast : -2 ^ 63 ≤ n) (hgreatest : n < 2 ^ 64) :
    readNumber? (compactChars (.integer n)) = some (.integer n, []) := by
  have hword : greatestWord = 2 ^ 64 - 1 := rfl
  have hchars : compactChars (.integer n) = (toString n).toList := rfl
  unfold readNumber?
  rcases Binary64.toString_int_cases n with ⟨hsign, htext⟩ | ⟨hsign, htext⟩
  · -- the text starts with a digit, so there is no sign to read
    have hread : readSign (toString n).toList = (false, Nat.toDigits 10 n.toNat) := by
      have hne : Nat.toDigits 10 n.toNat ≠ [] := Nat.toDigits_ne_nil
      obtain ⟨c, cs, hcs⟩ := List.exists_cons_of_ne_nil hne
      have hc : c.isDigit = true := Binary64.toDigits_isDigit (hcs ▸ List.mem_cons_self)
      rw [htext, hcs]
      exact readSign_of_ne (by rintro rfl; exact absurd hc (by decide)) cs
    rw [hchars, readLiteral?_toDigits hread]
    simp [Literal.value?, takeDigits_toDigits (show n.toNat ≤ greatestWord by omega), hsign]
  · have hread : readSign (toString n).toList = (true, Nat.toDigits 10 (-n).toNat) := by
      rw [htext]
      rfl
    have hinside : 0 < (-n).toNat ∧ (-n).toNat ≤ Nat.pow 2 63 := by
      have hpow : Nat.pow 2 63 = 2 ^ 63 := rfl
      omega
    rw [hchars, readLiteral?_toDigits hread]
    simp only [Option.bind_eq_bind, Option.bind_some, Literal.value?,
      takeDigits_toDigits (show (-n).toNat ≤ greatestWord by omega)]
    simp [hinside]
    omega

/-! ## Values -/

/-- A value whose containers are nested at most to a depth, whose integers fit 64 bits and whose
other numbers are read back. -/
inductive Legible : Nat → Json → Prop
  | null (depth : Nat) : Legible depth .null
  | bool (depth : Nat) (value : Bool) : Legible depth (.bool value)
  | integer (depth : Nat) {n : Int} (hleast : -2 ^ 63 ≤ n) (hgreatest : n < 2 ^ 64) :
      Legible depth (.integer n)
  | real (depth : Nat) {x : Binary64}
      (h : readNumber? (compactChars (.real x)) = some (.real x, [])) : Legible depth (.real x)
  | string (depth : Nat) (text : String) : Legible depth (.string text)
  | array {depth : Nat} {items : List Json} (h : ∀ item ∈ items, Legible depth item) :
      Legible (depth + 1) (.array items)
  | object {depth : Nat} {members : List (String × Json)}
      (h : ∀ member ∈ members, Legible depth member.2) : Legible (depth + 1) (.object members)

/-- With enough steps for its text, a value is read back before whatever may follow a value. -/
def ReadsBack (depth : Nat) (value : Json) : Prop :=
  ∀ {fuel : Nat} {rest : List Char}, 2 * (compactChars value).length ≤ fuel + 1 →
    Stops isInside rest →
      readValue? fuel depth .whole (compactChars value ++ rest) = some (value, rest)

variable {depth : Nat}

theorem length_compactChars_pos (value : Json) : 0 < (compactChars value).length := by
  obtain ⟨c, rest, hchars, -⟩ := value.compactChars_head
  rw [hchars]
  exact Nat.succ_pos _

/-- As no text is empty, there is at least one step. -/
theorem exists_fuel {value : Json} {fuel : Nat} (h : 2 * (compactChars value).length ≤ fuel + 1) :
    ∃ n, fuel = n + 1 := by
  have hpos := value.length_compactChars_pos
  exact Nat.exists_eq_succ_of_ne_zero (by omega)

/-- A number begins with its sign or with a digit. -/
theorem head_of_readNumber? {cs : List Char} {read : Json × List Char}
    (h : readNumber? cs = some read) : ∃ c tail, cs = c :: tail ∧ (c = '-' ∨ c.isDigit = true) := by
  rcases cs with _ | ⟨c, tail⟩
  · simp [readNumber?, readLiteral?, readSign, readWhole?] at h
  · refine ⟨c, tail, rfl, ?_⟩
    by_contra! hc
    have hnone : readWhole? (c :: tail) = none := by
      rw [readWhole?, List.takeWhile_cons_of_neg hc.2]
      rfl
    simp [readNumber?, readLiteral?, readSign_of_ne hc.1, hnone] at h

theorem readValue?_number {c : Char} (hc : c = '-' ∨ c.isDigit = true) (fuel : Nat) (shape : Shape)
    (tail : List Char) :
    readValue? (fuel + 1) depth shape (c :: tail) = readNumber? (c :: tail) := by
  have hne : ∀ d : Char, d ≠ '-' → d.isDigit = false → c ≠ d := by
    rintro d hminus hdigit rfl
    rcases hc with rfl | hc
    · exact hminus rfl
    · rw [hdigit] at hc
      exact Bool.noConfusion hc
  have hspace : isSpace c = false := by
    simp [isSpace, hne ' ' (by decide) (by decide), hne '\t' (by decide) (by decide),
      hne '\n' (by decide) (by decide), hne '\r' (by decide) (by decide)]
  rw [readValue?, skipSpace, List.dropWhile_cons_of_neg (by simp [hspace])]
  -- every other case waits for a character that is neither a sign nor a digit
  split
  case h_7 first rest _ _ _ _ _ _ heq =>
    obtain ⟨rfl, rfl⟩ := List.cons.inj heq
    exact if_pos (by simpa using hc)
  case h_8 heq => exact absurd heq (List.cons_ne_nil _ _)
  all_goals
    rename_i heq
    exact absurd (List.cons.inj heq).1 (hne _ (by decide) (by decide))

theorem readsBack_number {value : Json} (h : readNumber? (compactChars value) = some (value, [])) :
    ReadsBack depth value := by
  intro fuel rest hfuel hrest
  obtain ⟨fuel, rfl⟩ := exists_fuel hfuel
  obtain ⟨c, tail, hchars, hc⟩ := head_of_readNumber? h
  have hread := readNumber?_append hrest (compactChars value)
  rw [h, hchars] at hread
  rw [hchars, List.cons_append, readValue?_number hc]
  exact hread

theorem readsBack_string (text : String) : ReadsBack depth (.string text) := by
  intro fuel rest hfuel hrest
  obtain ⟨fuel, rfl⟩ := exists_fuel hfuel
  have hchars : compactChars (.string text) ++ rest =
      '"' :: (text.toList.flatMap escape ++ '"' :: rest) := by
    rw [compactChars, compact, toList_quote]
    simp
  rw [hchars, readValue?]
  show (readString? _ [] _).bind _ = _
  rw [readString?_quote]
  rfl

theorem commaSeparated_cons_cons {α : Type} {write : α → List Char} (a b : α) (as : List α) :
    commaSeparated write (a :: b :: as) = write a ++ ',' :: commaSeparated write (b :: as) := by
  simp [commaSeparated_cons]

/-- The items of an array are read back in turn. -/
theorem readItems?_compact {items : List Json} (hitems : ∀ item ∈ items, ReadsBack depth item)
    (hne : items ≠ []) {fuel : Nat} (hfuel : 2 * (commaSeparated compactChars items).length ≤ fuel)
    (index : Nat) (rest : List Char) :
    readItems? fuel depth .whole index (commaSeparated compactChars items ++ ']' :: rest) =
      some (items, rest) := by
  induction items generalizing fuel index with
  | nil => exact absurd rfl hne
  | cons item items ih =>
    obtain ⟨hitem, hitems⟩ := List.forall_mem_cons.1 hitems
    have hpos := item.length_compactChars_pos
    rcases items with _ | ⟨next, items⟩
    · rw [commaSeparated_cons, List.flatMap_nil, List.append_nil] at hfuel ⊢
      obtain ⟨fuel, rfl⟩ := Nat.exists_eq_succ_of_ne_zero (show fuel ≠ 0 by omega)
      rw [readItems?]
      show (readValue? fuel depth .whole _).bind _ = _
      rw [hitem hfuel (stops_cons.2 rfl)]
      rfl
    · -- the comma pays for the step from one item to the next
      rw [commaSeparated_cons_cons, List.length_append, List.length_cons] at hfuel
      obtain ⟨fuel, rfl⟩ := Nat.exists_eq_succ_of_ne_zero (show fuel ≠ 0 by omega)
      have hbound : 2 * (commaSeparated compactChars (next :: items)).length ≤ fuel := by omega
      have hrest := ih hitems (List.cons_ne_nil _ _) hbound (index + 1)
      rw [commaSeparated_cons_cons, List.append_assoc, List.cons_append, readItems?]
      show (readValue? fuel depth .whole _).bind _ = _
      rw [hitem (by omega) (stops_cons.2 rfl)]
      show (readItems? fuel depth .whole (index + 1) _).bind _ = _
      rw [hrest]
      rfl

theorem IsNumber.skipSpace {cs : List Char} (h : IsNumber cs) (rest : List Char) :
    skipSpace (cs ++ rest) = cs ++ rest := by
  obtain ⟨c, tail, rfl⟩ := List.exists_cons_of_ne_nil h.1
  have hc := h.2 c List.mem_cons_self
  have hspace : isSpace c = false := by
    by_contra hspace
    simp only [isSpace, Bool.not_eq_false, Bool.or_eq_true, beq_iff_eq] at hspace
    rcases hspace with ((rfl | rfl) | rfl) | rfl <;> exact absurd hc (by decide)
  exact List.dropWhile_cons_of_neg (by simp [hspace])

/-- No value begins with a blank. -/
theorem skipSpace_compactChars (value : Json) (rest : List Char) :
    skipSpace (compactChars value ++ rest) = compactChars value ++ rest := by
  cases value with
  | null => rfl
  | bool value => cases value <;> rfl
  | integer n => exact (isNumber_integer n).skipSpace rest
  | real x => exact (isNumber_real x).skipSpace rest
  | string text =>
    rw [compactChars, compact, toList_quote]
    rfl
  | array items =>
    rw [compactChars_array]
    rfl
  | object members =>
    rw [compactChars_object]
    rfl

theorem readsBack_array {items : List Json} (hitems : ∀ item ∈ items, ReadsBack depth item) :
    ReadsBack (depth + 1) (.array items) := by
  intro fuel rest hfuel hrest
  obtain ⟨fuel, rfl⟩ := exists_fuel hfuel
  rw [compactChars_array] at hfuel ⊢
  simp only [List.cons_append, List.length_cons, List.length_append, List.length_nil,
    List.append_assoc, List.nil_append] at hfuel ⊢
  rw [readValue?]
  rcases items with _ | ⟨item, items⟩
  · rfl
  · have hbound : 2 * (commaSeparated compactChars (item :: items)).length ≤ fuel := by omega
    have hread := readItems?_compact hitems (List.cons_ne_nil _ _) hbound 0 rest
    have hskip : skipSpace (commaSeparated compactChars (item :: items) ++ ']' :: rest) =
        commaSeparated compactChars (item :: items) ++ ']' :: rest := by
      rw [commaSeparated_cons, List.append_assoc, skipSpace_compactChars]
    -- the text of the first item does not close the array
    have hopen : ∀ cs, commaSeparated compactChars (item :: items) ++ ']' :: rest ≠ ']' :: cs := by
      intro cs heq
      obtain ⟨c, tail, hc, hinside⟩ := item.compactChars_inside
      rw [commaSeparated_cons, hc] at heq
      rw [(List.cons.inj heq).1] at hinside
      exact absurd hinside (by decide)
    show (if depth + 1 = 0 then none else _) = _
    rw [if_neg (Nat.succ_ne_zero depth)]
    split
    case h_1 heq => exact absurd (hskip.symm.trans heq) (hopen _)
    case h_2 =>
      show (readItems? fuel depth .whole 0 _).bind _ = _
      rw [hread]
      rfl

/-- A member is read back, and the reader goes on behind its value. -/
theorem readMembers?_member {key : String} {value : Json} (hvalue : ReadsBack depth value)
    {fuel : Nat} (hfuel : 2 * (compactChars value).length ≤ fuel + 1) {left : List Char}
    (hleft : Stops isInside left) :
    readMembers? (fuel + 1) depth .whole (memberChars (key, value) ++ left) =
      (match skipSpace left with
        | ',' :: rest => do
          let (members, rest) ← readMembers? fuel depth .whole rest
          some ([(key, value)] ++ members, rest)
        | '\x7d' :: rest => some ([(key, value)], rest)
        | _ => none) := by
  have hchars : memberChars (key, value) ++ left =
      '"' :: (key.toList.flatMap escape ++ '"' :: (':' :: (compactChars value ++ left))) := by
    simp [memberChars, toList_quote]
  rw [hchars, readMembers?]
  show (readString? _ [] _).bind _ = _
  rw [readString?_quote]
  show ((readValue? fuel depth .whole _).map _).bind _ = _
  rw [hvalue hfuel hleft]
  rfl

theorem length_lt_memberChars (key : String) (value : Json) :
    (compactChars value).length < (memberChars (key, value)).length := by
  simp only [memberChars, List.length_append, List.length_cons]
  omega

/-- The members of an object are read back in turn. -/
theorem readMembers?_compact {members : List (String × Json)}
    (hmembers : ∀ member ∈ members, ReadsBack depth member.2) (hne : members ≠ []) {fuel : Nat}
    (hfuel : 2 * (commaSeparated memberChars members).length ≤ fuel) (rest : List Char) :
    readMembers? fuel depth .whole (commaSeparated memberChars members ++ '\x7d' :: rest) =
      some (members, rest) := by
  induction members generalizing fuel with
  | nil => exact absurd rfl hne
  | cons member members ih =>
    obtain ⟨key, value⟩ := member
    obtain ⟨hvalue, hmembers⟩ : ReadsBack depth value ∧
        ∀ member ∈ members, ReadsBack depth member.2 := List.forall_mem_cons.1 hmembers
    have hlength := length_lt_memberChars key value
    rcases members with _ | ⟨next, members⟩
    · rw [commaSeparated_cons, List.flatMap_nil, List.append_nil] at hfuel ⊢
      obtain ⟨fuel, rfl⟩ := Nat.exists_eq_succ_of_ne_zero (show fuel ≠ 0 by omega)
      rw [readMembers?_member hvalue (by omega) (stops_cons.2 rfl)]
      rfl
    · rw [commaSeparated_cons_cons, List.length_append, List.length_cons] at hfuel
      obtain ⟨fuel, rfl⟩ := Nat.exists_eq_succ_of_ne_zero (show fuel ≠ 0 by omega)
      have hbound : 2 * (commaSeparated memberChars (next :: members)).length ≤ fuel := by omega
      have hrest := ih hmembers (List.cons_ne_nil _ _) hbound
      rw [commaSeparated_cons_cons, List.append_assoc, List.cons_append,
        readMembers?_member hvalue (by omega) (stops_cons.2 rfl)]
      show (readMembers? fuel depth .whole _).bind _ = _
      rw [hrest]
      rfl

theorem readsBack_object {members : List (String × Json)}
    (hmembers : ∀ member ∈ members, ReadsBack depth member.2) :
    ReadsBack (depth + 1) (.object members) := by
  intro fuel rest hfuel hrest
  obtain ⟨fuel, rfl⟩ := exists_fuel hfuel
  rw [compactChars_object] at hfuel ⊢
  simp only [List.cons_append, List.length_cons, List.length_append, List.length_nil,
    List.append_assoc, List.nil_append] at hfuel ⊢
  rw [readValue?]
  rcases members with _ | ⟨member, members⟩
  · rfl
  · have hbound : 2 * (commaSeparated memberChars (member :: members)).length ≤ fuel := by omega
    have hread := readMembers?_compact hmembers (List.cons_ne_nil _ _) hbound rest
    obtain ⟨cs, hquote⟩ : ∃ cs, commaSeparated memberChars (member :: members) ++ '\x7d' :: rest =
        '"' :: cs := by
      rw [commaSeparated_cons, memberChars, toList_quote]
      exact ⟨_, rfl⟩
    rw [hquote] at hread ⊢
    show (if depth + 1 = 0 then none else _) = _
    rw [if_neg (Nat.succ_ne_zero depth)]
    show (readMembers? fuel depth .whole _).bind _ = _
    rw [hread]
    rfl

/-- A legible value is read back. -/
theorem Legible.readsBack {value : Json} (h : Legible depth value) : ReadsBack depth value := by
  induction h with
  | null depth =>
    intro fuel rest hfuel hrest
    obtain ⟨fuel, rfl⟩ := exists_fuel hfuel
    rw [readValue?]
    rfl
  | bool depth value =>
    intro fuel rest hfuel hrest
    obtain ⟨fuel, rfl⟩ := exists_fuel hfuel
    rw [readValue?]
    cases value <;> rfl
  | integer depth hleast hgreatest => exact readsBack_number (readNumber?_integer hleast hgreatest)
  | real depth h => exact readsBack_number h
  | string depth text => exact readsBack_string text
  | array _ ih => exact readsBack_array ih
  | object _ ih => exact readsBack_object ih

/-- The text of a legible value writes that value. -/
theorem parse?_compact {value : Json} (h : Legible greatestDepth value) :
    parse? value.compact = some value := by
  have hbound (n : Nat) : 2 * n ≤ 2 * n + 2 + 1 := by omega
  have hread := h.readsBack (hbound _) (stops_nil _)
  rw [List.append_nil] at hread
  unfold parse? parseAs?
  dsimp only
  rw [show value.compact.toList = compactChars value from rfl, hread]
  rfl

end Json

end ReportSql
