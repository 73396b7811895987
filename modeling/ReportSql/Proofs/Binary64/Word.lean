import Mathlib
import ReportSql.Proofs.Binary64.Interval

/-!
# Unsigned words as floating point numbers

From `2 ^ 63` on, the numbers below `2 ^ 64` lie 2048 apart. An unsigned word of that size is
therefore rounded to a multiple of 2048, and it is kept only if it is one.

## Main results

* `Binary64.absValue_ofNat_word` - the number that a great word is rounded to
* `Binary64.ofNat_word_inj` - two great words have the same number exactly when they have the
  same nearest multiple
-/

namespace ReportSql.Binary64

variable {m n : Nat}

/-- Rounding to a whole number of parts is off by at most half a part. -/
theorem roundHalfEven_near (num : Nat) {den : Nat} (hden : 0 < den) :
    2 * num ≤ 2 * (roundHalfEven num den * den) + den ∧
      2 * (roundHalfEven num den * den) ≤ 2 * num + den := by
  have hsplit := Nat.div_add_mod num den
  have hrest := Nat.mod_lt num hden
  have hnext : (num / den + 1) * den = den * (num / den) + den := by ring
  have hsame : num / den * den = den * (num / den) := Nat.mul_comm _ _
  simp only [roundHalfEven]
  split
  · omega
  · split
    · omega
    · split <;> omega

/-- Rounding is exact for whole numbers of parts only. -/
theorem roundHalfEven_mul_eq_iff {num den : Nat} (hden : 0 < den) :
    roundHalfEven num den * den = num ↔ den ∣ num := by
  constructor
  · intro h
    exact ⟨roundHalfEven num den, by rw [Nat.mul_comm]; exact h.symm⟩
  · rintro ⟨count, rfl⟩
    have hrest : den * count % den = 0 := Nat.mul_mod_right den count
    have hcount : den * count / den = count := Nat.mul_div_cancel_left count hden
    rw [roundHalfEven, hrest, hcount, Nat.mul_zero, if_pos hden, Nat.mul_comm]

/-- The nearest multiple of 2048 is at most 1024 away. -/
theorem roundHalfEven_word_near (n : Nat) :
    |((roundHalfEven n 2048 * 2048 : Nat) : ℚ) - n| ≤ 1024 := by
  obtain ⟨hbelow, habove⟩ := roundHalfEven_near n (show 0 < 2048 by decide)
  have hbelow : n ≤ roundHalfEven n 2048 * 2048 + 1024 := by omega
  have habove : roundHalfEven n 2048 * 2048 ≤ n + 1024 := by omega
  have hbelow : (n : ℚ) ≤ (roundHalfEven n 2048 * 2048 : Nat) + 1024 := by exact_mod_cast hbelow
  have habove : ((roundHalfEven n 2048 * 2048 : Nat) : ℚ) ≤ n + 1024 := by exact_mod_cast habove
  rw [abs_le]
  constructor <;> linarith only [hbelow, habove]

/-- A great word has 64 bits, eleven more than a mantissa. Its rounded part may need one bit more. -/
theorem roundRatio_word (hlow : 2 ^ 63 ≤ n) (hhigh : n < 2 ^ 64) :
    roundRatio 53 leastExponent n 1 =
      if roundHalfEven n 2048 = 2 ^ 53 then (2 ^ 52, 12) else (roundHalfEven n 2048, 11) := by
  have hlength : n.log2 = 63 := (Nat.log2_eq_iff (by omega)).2 ⟨hlow, hhigh⟩
  have hguess : ((63 : Nat) : Int) - ((1 : Nat).log2 : Int) - ((53 : Nat) : Int) + 1 = 11 := by
    decide
  have hscale : scaleDown n 1 11 = (n, 2048) := by
    show (n, 1 * Nat.pow 2 11) = (n, 2048)
    rfl
  have hfull : ¬ n / 2048 < Nat.pow 2 (53 - 1) := by
    have hpow : Nat.pow 2 (53 - 1) = 2 ^ 52 := rfl
    omega
  have hexponent : max (11 : Int) leastExponent = 11 := by decide
  rw [roundRatio, hlength, hguess]
  simp only [hscale, if_neg hfull, hexponent]
  rfl

/-- The parts of the number that a great word is rounded to. -/
theorem ofNat_word (hlow : 2 ^ 63 ≤ n) (hhigh : n < 2 ^ 64) :
    (ofNat n).negative = false ∧ ((ofNat n).mantissa, (ofNat n).exponent) =
      if roundHalfEven n 2048 = 2 ^ 53 then (2 ^ 52, 12) else (roundHalfEven n 2048, 11) := by
  have hround := roundRatio_word hlow hhigh
  have hne : n ≠ 0 := by omega
  have hfinite : ¬ greatestExponent < (roundRatio 53 leastExponent n 1).2 := by
    have hsmall : ¬ greatestExponent < 12 ∧ ¬ greatestExponent < 11 := by decide
    rw [hround]
    split
    · exact hsmall.1
    · exact hsmall.2
  have hparts : ∃ x, ofRatio? false n 1 = some x ∧ x.negative = false ∧
      (x.mantissa, x.exponent) = roundRatio 53 leastExponent n 1 := by
    rw [ofRatio?, dif_neg one_ne_zero, dif_neg hne, dif_neg hfinite]
    exact ⟨_, rfl, rfl, rfl⟩
  obtain ⟨x, hx, hsign, hpair⟩ := hparts
  rw [ofNat, hx, Option.getD_some, hpair]
  exact ⟨hsign, hround⟩

/-- A great word is rounded to the nearest multiple of 2048. -/
theorem absValue_ofNat_word (hlow : 2 ^ 63 ≤ n) (hhigh : n < 2 ^ 64) :
    (ofNat n).absValue = (roundHalfEven n 2048 * 2048 : Nat) := by
  obtain ⟨-, hparts⟩ := ofNat_word hlow hhigh
  rw [absValue]
  split at hparts
  case isTrue hcarry =>
    obtain ⟨hmantissa, hexponent⟩ := Prod.mk.inj hparts
    rw [hmantissa, hexponent, hcarry]
    norm_num
  case isFalse =>
    obtain ⟨hmantissa, hexponent⟩ := Prod.mk.inj hparts
    rw [hmantissa, hexponent]
    push_cast
    norm_num

/-- Two great words have the same number exactly when they have the same nearest multiple. -/
theorem ofNat_word_inj (hm : 2 ^ 63 ≤ m ∧ m < 2 ^ 64) (hn : 2 ^ 63 ≤ n ∧ n < 2 ^ 64) :
    ofNat m = ofNat n ↔ roundHalfEven m 2048 = roundHalfEven n 2048 := by
  constructor
  · intro h
    have hvalues := congrArg absValue h
    rw [absValue_ofNat_word hm.1 hm.2, absValue_ofNat_word hn.1 hn.2, Nat.cast_inj] at hvalues
    exact Nat.eq_of_mul_eq_mul_right (by decide) hvalues
  · intro h
    obtain ⟨hsign, hparts⟩ := ofNat_word hm.1 hm.2
    obtain ⟨hsign', hparts'⟩ := ofNat_word hn.1 hn.2
    rw [h, ← hparts'] at hparts
    obtain ⟨hmantissa, hexponent⟩ := Prod.mk.inj hparts
    have hnegative := hsign.trans hsign'.symm
    revert hmantissa hexponent hnegative
    cases ofNat m
    cases ofNat n
    rintro ⟨⟩ ⟨⟩ ⟨⟩
    rfl

end ReportSql.Binary64
