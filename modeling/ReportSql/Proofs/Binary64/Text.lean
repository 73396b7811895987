import ReportSql.Proofs.Binary64.Interval
import ReportSql.Proofs.Token.Readers

/-!
# The text of a number tells the number

The text of a number is a decimal in three parts, digits before the point, digits after it
and an exponent, and its value can be read off the characters. The value rounds to one
number only, so numbers with the same text are equal. Positive and negative zero differ by
their sign.

## Main definitions

* `Binary64.Numeral` - a decimal in parts
* `Binary64.readValue` - the value written by characters

## Main results

* `Binary64.textWith_injective`, `Binary64.text_injective` - different numbers have different texts
-/

namespace ReportSql.Binary64

open Token

variable {x y : Binary64} {plus : String}

/-! ## Decimals in parts -/

/-- A decimal in parts. -/
structure Numeral where
  whole : List Char
  fraction : Option (List Char)
  exponent : Option Int

namespace Numeral

/-- The digits after the point. -/
def places (n : Numeral) : List Char :=
  n.fraction.getD []

/-- The characters of an exponent, with a mark before one that is not negative. -/
def exponentChars (plus : String) (e : Int) : List Char :=
  ((if 0 ≤ e then plus else "") ++ toString e).toList

/-- The characters before the exponent. -/
def digits (n : Numeral) : List Char :=
  n.whole ++ n.fraction.elim [] ('.' :: ·)

/-- The characters of a decimal. -/
def chars (plus : String) (n : Numeral) : List Char :=
  n.digits ++ n.exponent.elim [] fun e => 'e' :: exponentChars plus e

/-- The value of a decimal. -/
def value (n : Numeral) : ℚ :=
  decimal (Nat.ofDigitChars 10 (n.whole ++ n.places) 0) (n.exponent.getD 0 - n.places.length)

/-- There are digits before the point, only digits stand around it, and a point or an exponent is
written. -/
structure IsDecimal (n : Numeral) : Prop where
  whole_ne_nil : n.whole ≠ []
  whole : ∀ c ∈ n.whole, c.isDigit = true
  places : ∀ c ∈ n.places, c.isDigit = true
  marked : n.fraction = none → n.exponent ≠ none

end Numeral

/-! ## Reading -/

/-- The number written by an exponent. -/
def readExponent (cs : List Char) : Int :=
  (if cs.head? = some '-' then -1 else 1) * Nat.ofDigitChars 10 (cs.filter Char.isDigit) 0

/-- The value written by a decimal. -/
def readValue (cs : List Char) : ℚ :=
  let digits := cs.takeWhile (· != 'e')
  let whole := digits.takeWhile (· != '.')
  let places := digits.drop (whole.length + 1)
  decimal (Nat.ofDigitChars 10 (whole ++ places) 0)
    (readExponent (cs.drop (digits.length + 1)) - places.length)

theorem isDigit_ne {c d : Char} (h : c.isDigit = true) (hd : d.isDigit = false) : (c != d) = true := by
  rw [bne_iff_ne]
  rintro rfl
  rw [h] at hd
  exact Bool.noConfusion hd

theorem toString_int_cases (e : Int) :
    (0 ≤ e ∧ (toString e).toList = Nat.toDigits 10 e.toNat) ∨
      (e < 0 ∧ (toString e).toList = '-' :: Nat.toDigits 10 (-e).toNat) := by
  cases e with
  | ofNat n => exact .inl ⟨Int.natCast_nonneg n, Nat.toList_repr⟩
  | negSucc n =>
    refine .inr ⟨Int.negSucc_lt_zero n, ?_⟩
    show ("-" ++ Nat.repr (n + 1)).toList = _
    rw [String.toList_append, Nat.toList_repr]
    rfl

theorem filter_toDigits (n : Nat) : (Nat.toDigits 10 n).filter Char.isDigit = Nat.toDigits 10 n :=
  List.filter_eq_self.2 fun _ hc => Nat.isDigit_of_mem_toDigits (by omega) (by omega) hc

theorem readExponent_chars (hplus : plus = "" ∨ plus = "+") (e : Int) :
    readExponent (Numeral.exponentChars plus e) = e := by
  unfold readExponent Numeral.exponentChars
  rcases toString_int_cases e with ⟨he, htext⟩ | ⟨he, htext⟩
  · have hhead : (plus.toList ++ Nat.toDigits 10 e.toNat).head? ≠ some '-' := by
      rcases hplus with rfl | rfl
      · intro hminus
        have hmem := List.mem_of_head? (by simpa using hminus)
        have hdigit := Nat.isDigit_of_mem_toDigits (by omega) (by omega) hmem
        simp at hdigit
      · simp
    have hfilter : plus.toList.filter Char.isDigit = [] := by
      rcases hplus with rfl | rfl <;> rfl
    rw [if_pos he, String.toList_append, htext, if_neg hhead, List.filter_append, hfilter,
      filter_toDigits, List.nil_append, Nat.ofDigitChars_ten_toDigits]
    omega
  · have hminus : ('-' :: Nat.toDigits 10 (-e).toNat).filter Char.isDigit =
        Nat.toDigits 10 (-e).toNat := by
      rw [List.filter_cons_of_neg (by decide), filter_toDigits]
    rw [if_neg (show ¬ 0 ≤ e by omega), String.toList_append, htext]
    show (if some '-' = some '-' then (-1 : Int) else 1) *
      Nat.ofDigitChars 10 (('-' :: Nat.toDigits 10 (-e).toNat).filter Char.isDigit) 0 = e
    rw [if_pos rfl, hminus, Nat.ofDigitChars_ten_toDigits]
    omega

/-- Reading the characters of a decimal gives its value. -/
theorem readValue_chars (hplus : plus = "" ∨ plus = "+") {n : Numeral} (h : n.IsDecimal) :
    readValue (n.chars plus) = n.value := by
  have hpoint : ∀ c ∈ n.whole, (c != '.') = true := fun c hc => isDigit_ne (h.whole c hc) (by decide)
  -- the parts of the text are cut out one after the other, each by the character that ends it
  have hdigits : (n.chars plus).takeWhile (· != 'e') = n.digits := by
    refine takeWhile_append_stops (fun c hc => ?_) (by cases n.exponent <;> simp [Stops])
    rcases List.mem_append.1 hc with hc | hc
    · exact isDigit_ne (h.whole c hc) (by decide)
    · have hplaces := h.places
      rw [Numeral.places] at hplaces
      cases hfraction : n.fraction with
      | none => simp [hfraction] at hc
      | some places =>
        rw [hfraction] at hplaces hc
        rcases List.mem_cons.1 hc with rfl | hc
        · rfl
        · exact isDigit_ne (hplaces c hc) (by decide)
  have hwhole : n.digits.takeWhile (· != '.') = n.whole :=
    takeWhile_append_stops hpoint (by cases n.fraction <;> simp [Stops])
  have hplaces : n.digits.drop (n.whole.length + 1) = n.places := by
    rw [Numeral.digits, Numeral.places]
    cases n.fraction <;> simp
  have hexponent : readExponent ((n.chars plus).drop (n.digits.length + 1)) = n.exponent.getD 0 := by
    rw [Numeral.chars]
    cases n.exponent with
    | none =>
      rw [Option.elim_none, List.append_nil, List.drop_eq_nil_of_le (by omega)]
      rfl
    | some e => simp [readExponent_chars hplus]
  unfold readValue
  dsimp only
  rw [hdigits, hwhole, hplaces, hexponent]
  rfl

/-! ## The printed decimal -/

theorem toDigits_isDigit {n : Nat} {c : Char} (h : c ∈ Nat.toDigits 10 n) : c.isDigit = true :=
  Nat.isDigit_of_mem_toDigits (by omega) (by omega) h

theorem replicate_zero_isDigit {n : Nat} {c : Char} (h : c ∈ List.replicate n '0') :
    c.isDigit = true := by
  rw [List.eq_of_mem_replicate h]
  rfl

/-- The characters of a decimal with a value. -/
def Writes (plus : String) (cs : List Char) (v : ℚ) : Prop :=
  ∃ n : Numeral, n.IsDecimal ∧ cs = n.chars plus ∧ n.value = v

section Layouts

variable {digits : List Char} {value : Nat} (hdigits : ∀ c ∈ digits, c.isDigit = true)
  (hvalue : Nat.ofDigitChars 10 digits 0 = value)

include hdigits hvalue

/-- Zeros up to the point. -/
theorem writes_whole (plus : String) (hne : digits ≠ []) (zeros : Nat) :
    Writes plus (digits ++ List.replicate zeros '0' ++ ['.', '0']) (decimal value zeros) := by
  refine ⟨⟨digits ++ List.replicate zeros '0', some ['0'], none⟩, ⟨by simp [hne], ?_, ?_, by simp⟩,
    by simp [Numeral.chars, Numeral.digits], ?_⟩
  · exact fun c hc => (List.mem_append.1 hc).elim (hdigits c) replicate_zero_isDigit
  · exact fun c hc => replicate_zero_isDigit (n := 1) hc
  · have hzeros : digits ++ List.replicate zeros '0' ++ ['0'] =
        digits ++ List.replicate (zeros + 1) '0' := by simp [List.replicate_succ']
    have hone : (0 : Int) - (1 : Nat) = -1 := rfl
    simp only [Numeral.value, Numeral.places, Option.getD_some, Option.getD_none, hzeros,
      Nat.ofDigitChars_append, hvalue, Nat.ofDigitChars_replicate_zero, decimal,
      List.length_singleton, hone, zpow_natCast, zpow_neg_one]
    push_cast
    rw [pow_succ]
    field_simp

/-- The point among the digits. -/
theorem writes_inside (plus : String) {point : Nat} (hpos : 0 < point) (hlt : point < digits.length) :
    Writes plus (digits.take point ++ '.' :: digits.drop point)
      (decimal value (point - digits.length)) := by
  refine ⟨⟨digits.take point, some (digits.drop point), none⟩, ⟨?_, ?_, ?_, by simp⟩,
    by simp [Numeral.chars, Numeral.digits], ?_⟩
  · exact List.ne_nil_of_length_pos (by rw [List.length_take]; omega)
  · exact fun c hc => hdigits c (List.mem_of_mem_take hc)
  · exact fun c hc => hdigits c (List.mem_of_mem_drop hc)
  · simp only [Numeral.value, Numeral.places, Option.getD_some, Option.getD_none,
      List.take_append_drop, hvalue, List.length_drop]
    congr 1
    omega

/-- Zeros after the point. -/
theorem writes_leadingZeros (plus : String) (zeros : Nat) :
    Writes plus ('0' :: '.' :: List.replicate zeros '0' ++ digits)
      (decimal value (-(zeros + digits.length))) := by
  refine ⟨⟨['0'], some (List.replicate zeros '0' ++ digits), none⟩, ⟨by simp, ?_, ?_, by simp⟩,
    by simp [Numeral.chars, Numeral.digits], ?_⟩
  · exact fun c hc => replicate_zero_isDigit (n := 1) hc
  · exact fun c hc => (List.mem_append.1 hc).elim replicate_zero_isDigit (hdigits c)
  · have hzeros : Nat.ofDigitChars 10 (['0'] ++ (List.replicate zeros '0' ++ digits)) 0 = value := by
      rw [← List.append_assoc, ← List.replicate_one, List.replicate_append_replicate,
        Nat.ofDigitChars_append, Nat.ofDigitChars_replicate_zero, Nat.mul_zero, hvalue]
    simp only [Numeral.value, Numeral.places, Option.getD_some, Option.getD_none, hzeros,
      List.length_append, List.length_replicate]
    congr 1
    omega

end Layouts

/-- One digit before the point, and an exponent. -/
theorem writes_scientific (plus : String) {digit : Char} {rest : List Char} {value : Nat}
    (hdigits : ∀ c ∈ digit :: rest, c.isDigit = true)
    (hvalue : Nat.ofDigitChars 10 (digit :: rest) 0 = value) (point : Int) :
    Writes plus (digit :: (if rest = [] then [] else '.' :: rest) ++
        'e' :: ((if 0 < point then plus else "") ++ toString (point - 1)).toList)
      (decimal value (point - (rest.length + 1))) := by
  have hmark : ((if 0 < point then plus else "") ++ toString (point - 1)).toList =
      Numeral.exponentChars plus (point - 1) := by
    rw [Numeral.exponentChars]
    congr 2
    exact if_congr (by omega) rfl rfl
  have hwhole : ∀ c ∈ [digit], c.isDigit = true := by simpa using hdigits digit List.mem_cons_self
  rw [hmark]
  split
  case isTrue hrest =>
    subst hrest
    refine ⟨⟨[digit], none, some (point - 1)⟩, ⟨by simp, hwhole, by simp [Numeral.places], by simp⟩,
      by simp [Numeral.chars, Numeral.digits], ?_⟩
    simp only [Numeral.value, Numeral.places, Option.getD_none, Option.getD_some, List.append_nil,
      hvalue, List.length_nil]
    congr 1
    omega
  case isFalse hrest =>
    refine ⟨⟨[digit], some rest, some (point - 1)⟩, ⟨by simp, hwhole, ?_, by simp⟩,
      by simp [Numeral.chars, Numeral.digits], ?_⟩
    · exact fun c hc => hdigits c (List.mem_cons_of_mem _ hc)
    · simp only [Numeral.value, Numeral.places, Option.getD_some, List.singleton_append, hvalue]
      congr 1
      omega

/-- Every layout writes the decimal. -/
theorem layout_writes (plus : String) (value : Nat) (power : Int) :
    Writes plus (layout plus value power) (decimal value power) := by
  have hne : Nat.toDigits 10 value ≠ [] := Nat.toDigits_ne_nil
  have hvalue : Nat.ofDigitChars 10 (Nat.toDigits 10 value) 0 = value := Nat.ofDigitChars_ten_toDigits
  have hdigits : ∀ c ∈ Nat.toDigits 10 value, c.isDigit = true := fun c hc => toDigits_isDigit hc
  unfold layout
  generalize Nat.toDigits 10 value = digits at *
  dsimp only
  -- the point stands behind all digits, among them or before them, or there is an exponent
  split
  case isTrue hwhole =>
    simp only [Bool.and_eq_true, decide_eq_true_eq] at hwhole
    obtain ⟨zeros, rfl⟩ := Int.eq_ofNat_of_zero_le hwhole.1
    exact writes_whole hdigits hvalue plus hne zeros
  case isFalse hwhole =>
  split
  case isTrue hinside =>
    simp only [Bool.and_eq_true, decide_eq_true_eq] at hwhole hinside
    obtain ⟨point, hpoint⟩ : ∃ point : Nat, digits.length + power = point :=
      ⟨(digits.length + power).toNat, by omega⟩
    have hpower : power = point - digits.length := by omega
    rw [hpoint, hpower]
    exact writes_inside hdigits hvalue plus (by omega) (by omega)
  case isFalse hinside =>
  split
  case isTrue hzeros =>
    simp only [Bool.and_eq_true, decide_eq_true_eq] at hzeros
    obtain ⟨zeros, hpoint⟩ : ∃ zeros : Nat, digits.length + power = -zeros :=
      ⟨(-(digits.length + power)).toNat, by omega⟩
    have hpower : power = -(zeros + digits.length) := by omega
    rw [hpoint, hpower, neg_neg, Int.toNat_natCast]
    exact writes_leadingZeros hdigits hvalue plus zeros
  case isFalse hzeros =>
    rcases digits with _ | ⟨digit, rest⟩
    · exact absurd rfl hne
    · have hscientific := writes_scientific plus hdigits hvalue ((digit :: rest).length + power)
      have hpower : ((digit :: rest).length + power : Int) - (rest.length + 1) = power := by
        push_cast [List.length_cons]
        omega
      rw [hpower] at hscientific
      rcases rest with _ | ⟨next, rest⟩ <;> exact hscientific

/-! ## The characters of a text -/

/-- The characters of numbers. -/
def isNumeralChar (c : Char) : Bool :=
  c.isDigit || c == '.' || c == 'e' || c == '-' || c == '+'

theorem toString_int_chars {e : Int} {c : Char} (h : c ∈ (toString e).toList) :
    c.isDigit = true ∨ c = '-' := by
  rcases toString_int_cases e with ⟨-, htext⟩ | ⟨-, htext⟩
  · exact .inl (toDigits_isDigit (htext ▸ h))
  · rw [htext] at h
    exact (List.mem_cons.1 h).elim .inr fun h => .inl (toDigits_isDigit h)

theorem Numeral.chars_spec (hplus : plus = "" ∨ plus = "+") {n : Numeral} (h : n.IsDecimal) :
    (∃ digit rest, n.chars plus = digit :: rest ∧ digit.isDigit = true) ∧
      (∀ c ∈ n.chars plus, isNumeralChar c = true) ∧
      ('.' ∈ n.chars plus ∨ 'e' ∈ n.chars plus) := by
  have hdigit : ∀ c : Char, c.isDigit = true → isNumeralChar c = true := by
    intro c hc
    simp [isNumeralChar, hc]
  refine ⟨?_, ?_, ?_⟩
  · obtain ⟨digit, rest, hwhole⟩ := List.exists_cons_of_ne_nil h.whole_ne_nil
    have hdigit' : digit.isDigit = true := h.whole digit (hwhole ▸ List.mem_cons_self)
    rw [Numeral.chars, Numeral.digits, hwhole, List.cons_append, List.cons_append]
    exact ⟨digit, _, rfl, hdigit'⟩
  · intro c hc
    rw [Numeral.chars, Numeral.digits, List.mem_append, List.mem_append] at hc
    have hplaces := h.places
    rw [Numeral.places] at hplaces
    rcases hc with (hc | hc) | hc
    · exact hdigit c (h.whole c hc)
    · cases hfraction : n.fraction with
      | none => simp [hfraction] at hc
      | some places =>
        rw [hfraction] at hc hplaces
        rcases List.mem_cons.1 hc with rfl | hc
        · rfl
        · exact hdigit c (hplaces c hc)
    · cases hexponent : n.exponent with
      | none => simp [hexponent] at hc
      | some e =>
        rw [hexponent] at hc
        rcases List.mem_cons.1 hc with rfl | hc
        · rfl
        · rw [Numeral.exponentChars, String.toList_append, List.mem_append] at hc
          rcases hc with hc | hc
          · split at hc
            · rcases hplus with rfl | rfl
              · simp at hc
              · obtain rfl : c = '+' := by simpa using hc
                rfl
            · simp at hc
          · rcases toString_int_chars hc with hc | rfl
            · exact hdigit c hc
            · rfl
  · -- a decimal without a point is marked by its exponent
    rw [Numeral.chars, Numeral.digits]
    cases hfraction : n.fraction with
    | some places => simp
    | none =>
      obtain ⟨e, he⟩ := Option.ne_none_iff_exists'.1 (h.marked hfraction)
      simp [he]

/-! ## Different numbers, different texts -/

theorem Rounds.pos {v : ℚ} (h : x.mantissa ≠ 0) (hv : x.Rounds v) : 0 < v := by
  have hcases := x.low_cases
  have hlow : (0 : ℚ) < x.interval.low := by
    exact_mod_cast (show 0 < x.interval.low by omega)
  exact lt_of_lt_of_le (mul_pos hlow x.quarter_pos) hv.le.1

/-- The magnitude is written as a decimal that rounds to it. -/
theorem magnitudeText_writes (plus : String) (x : Binary64) :
    ∃ v, Writes plus (x.magnitudeText plus) v ∧
      (x.mantissa = 0 ∧ v = 0 ∨ x.mantissa ≠ 0 ∧ 0 < v ∧ x.Rounds v) := by
  unfold magnitudeText isZero
  by_cases hzero : x.mantissa = 0
  · refine ⟨decimal 0 (0 : Nat), ?_, .inl ⟨hzero, by simp [decimal]⟩⟩
    have hzeros : ∀ c ∈ ['0'], c.isDigit = true := by simp
    have hwrites : Writes plus (['0'] ++ List.replicate 0 '0' ++ ['.', '0']) (decimal 0 (0 : Nat)) :=
      writes_whole hzeros rfl plus (by simp) 0
    simpa [hzero] using hwrites
  · have hrounds := shortestDigits_rounds hzero
    refine ⟨_, ?_, .inr ⟨hzero, hrounds.pos hzero, hrounds⟩⟩
    rw [if_neg (by simpa using hzero)]
    exact layout_writes plus _ _

theorem Writes.value_unique (hplus : plus = "" ∨ plus = "+") {cs : List Char} {v w : ℚ}
    (hv : Writes plus cs v) (hw : Writes plus cs w) : v = w := by
  obtain ⟨m, hm, rfl, rfl⟩ := hv
  obtain ⟨n, hn, hchars, rfl⟩ := hw
  rw [← readValue_chars hplus hm, hchars, readValue_chars hplus hn]

theorem toList_textWith (plus : String) (x : Binary64) :
    (x.textWith plus).toList = (if x.negative then ['-'] else []) ++ x.magnitudeText plus := by
  rw [textWith, String.toList_append, String.toList_ofList]
  split <;> rfl

/-- The text of a number has characters of numbers only, and a point or an exponent. -/
theorem textWith_spec (hplus : plus = "" ∨ plus = "+") (x : Binary64) :
    (∀ c ∈ (x.textWith plus).toList, isNumeralChar c = true) ∧
      ('.' ∈ (x.textWith plus).toList ∨ 'e' ∈ (x.textWith plus).toList) := by
  obtain ⟨v, ⟨n, hn, hchars, -⟩, -⟩ := x.magnitudeText_writes plus
  obtain ⟨-, hnumeral, hmark⟩ := Numeral.chars_spec hplus hn
  rw [toList_textWith, hchars]
  refine ⟨fun c hc => ?_, hmark.imp (List.mem_append_right _) (List.mem_append_right _)⟩
  rcases List.mem_append.1 hc with hc | hc
  · split at hc
    · obtain rfl : c = '-' := by simpa using hc
      rfl
    · simp at hc
  · exact hnumeral c hc

/-- A magnitude begins with a digit, so the sign is told by the first character. -/
theorem sign_of_text (hplus : plus = "" ∨ plus = "+")
    (h : (x.textWith plus).toList = (y.textWith plus).toList) :
    x.negative = y.negative ∧ x.magnitudeText plus = y.magnitudeText plus := by
  have hhead : ∀ z : Binary64, ∃ digit rest, z.magnitudeText plus = digit :: rest ∧ digit ≠ '-' := by
    intro z
    obtain ⟨v, ⟨n, hn, hchars, -⟩, -⟩ := z.magnitudeText_writes plus
    obtain ⟨⟨digit, rest, hrest, hdigit⟩, -, -⟩ := Numeral.chars_spec hplus hn
    refine ⟨digit, rest, hchars.trans hrest, ?_⟩
    rintro rfl
    exact absurd hdigit (by decide)
  obtain ⟨a, as, hx, ha⟩ := hhead x
  obtain ⟨b, bs, hy, hb⟩ := hhead y
  rw [toList_textWith, toList_textWith, hx, hy] at h
  rw [hx, hy]
  cases hxn : x.negative <;> cases hyn : y.negative <;> rw [hxn, hyn] at h
  · exact ⟨rfl, h⟩
  · exact absurd (List.cons.inj h).1 ha
  · exact absurd (List.cons.inj h).1.symm hb
  · exact ⟨rfl, (List.cons.inj h).2⟩

/-- Different numbers have different texts, also where positive exponents are marked. -/
theorem textWith_injective (hplus : plus = "" ∨ plus = "+") :
    Function.Injective (textWith plus) := by
  intro x y h
  obtain ⟨hsign, hmagnitude⟩ := sign_of_text hplus (congrArg String.toList h)
  obtain ⟨v, hv, hx⟩ := x.magnitudeText_writes plus
  obtain ⟨w, hw, hy⟩ := y.magnitudeText_writes plus
  obtain rfl := hv.value_unique hplus (hmagnitude ▸ hw)
  have hsame : x.mantissa = y.mantissa ∧ x.exponent = y.exponent := by
    rcases hx with ⟨hx, hv⟩ | ⟨hx, hv, hxr⟩
    · rcases hy with ⟨hy, -⟩ | ⟨hy, hw, -⟩
      · -- only the least exponent leaves the leading bit out
        have hxfull := x.isNormal.full
        have hyfull := y.isNormal.full
        rw [Nat.pow_eq] at hxfull hyfull
        exact ⟨by omega, by omega⟩
      · exact absurd hv hw.ne'
    · rcases hy with ⟨hy, hw⟩ | ⟨hy, -, hyr⟩
      · exact absurd hw hv.ne'
      · exact hxr.unique hyr
  cases x
  cases y
  simp_all

theorem text_injective : Function.Injective text :=
  textWith_injective (.inl rfl)

end ReportSql.Binary64
