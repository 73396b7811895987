/-!
# Binary floating point numbers

Finite IEEE 754 binary64 numbers as a sign, a mantissa and a power of two, with
correctly rounded conversion from a quotient of natural numbers. Everything is
exact `Nat` arithmetic, so statements about rounding need no model of the
hardware.

## Main definitions

* `Binary64` - the number `± mantissa · 2 ^ exponent`
* `Binary64.roundRatio` - a quotient rounded to a number of bits, ties to the even mantissa
* `Binary64.ofRatio?` - the nearest number to a quotient
* `Binary64.mul?`, `Binary64.div?` - correctly rounded product and quotient

## Main statements

* `Binary64.roundRatio_normal` - a rounded quotient is in normal form

## Design notes

A number is in normal form: its mantissa is below `2 ^ 53`, and at least `2 ^ 52`
unless the exponent is the least one, `-1074`. The form is part of the type, so
that different values are different numbers.
-/

namespace ReportSql

namespace Binary64

/-! ## Rounding -/

/-- The quotient rounded to the nearest natural number, a half going to the even one. -/
def roundHalfEven (num den : Nat) : Nat :=
  let quotient := num / den
  let rest := num % den
  if 2 * rest < den then quotient
  else if den < 2 * rest then quotient + 1
  else if quotient % 2 = 0 then quotient
  else quotient + 1

/-- The quotient `num / den / 2 ^ exponent`, again as numerator and denominator. -/
def scaleDown (num den : Nat) (exponent : Int) : Nat × Nat :=
  if 0 ≤ exponent then (num, den * Nat.pow 2 exponent.toNat)
  else (num * Nat.pow 2 (-exponent).toNat, den)

/-- The number `mantissa · 2 ^ exponent` nearest to `num / den` that has a mantissa of `bits` bits,
or of fewer where the exponent is the least one. The quotient must be positive. -/
def roundRatio (bits : Nat) (least : Int) (num den : Nat) : Nat × Int :=
  let guess : Int := (num.log2 : Int) - den.log2 - bits + 1
  let (top, bottom) := scaleDown num den guess
  let normal := if top / bottom < Nat.pow 2 (bits - 1) then guess - 1 else guess
  let exponent := max normal least
  let (top, bottom) := scaleDown num den exponent
  let mantissa := roundHalfEven top bottom
  if mantissa = Nat.pow 2 bits then (Nat.pow 2 (bits - 1), exponent + 1) else (mantissa, exponent)

/-- Rounding gives the whole part of the quotient or the number after it. -/
theorem roundHalfEven_bounds (num den : Nat) :
    num / den ≤ roundHalfEven num den ∧ roundHalfEven num den ≤ num / den + 1 := by
  simp only [roundHalfEven]
  split
  · omega
  · split
    · omega
    · split <;> omega

/-- The number `count · 2 ^ exponent` is at most the quotient `num / den`. -/
def Reaches (num den count : Nat) (exponent : Int) : Prop :=
  count * (scaleDown num den exponent).2 ≤ (scaleDown num den exponent).1

/-- A power of two is twice the one before it. -/
theorem twoPow_succ (n : Nat) : Nat.pow 2 (n + 1) = 2 * Nat.pow 2 n :=
  (Nat.pow_succ 2 n).trans (Nat.mul_comm _ _)

/-- Powers of two are positive. -/
theorem twoPow_pos (n : Nat) : 0 < Nat.pow 2 n :=
  Nat.pow_pos (by decide)

/-- Exponents add up in a product. -/
theorem twoPow_add (m n : Nat) : Nat.pow 2 (m + n) = Nat.pow 2 m * Nat.pow 2 n :=
  Nat.pow_add 2 m n

/-- A divisor stays positive when it is scaled. -/
theorem scaleDown_pos (num : Nat) {den : Nat} (h : 0 < den) (exponent : Int) :
    0 < (scaleDown num den exponent).2 := by
  unfold scaleDown
  split
  · exact Nat.mul_pos h (twoPow_pos _)
  · exact h

/-- Half the count goes with the next exponent. -/
theorem reaches_double {num den count : Nat} {exponent : Int} :
    Reaches num den (2 * count) exponent ↔ Reaches num den count (exponent + 1) := by
  unfold Reaches scaleDown
  by_cases h : 0 ≤ exponent
  · have hsucc : (exponent + 1).toNat = exponent.toNat + 1 := by omega
    have hle : 0 ≤ exponent + 1 := by omega
    simp only [h, hle, if_true, hsucc, twoPow_succ]
    rw [show 2 * count * (den * Nat.pow 2 exponent.toNat) =
      count * (den * (2 * Nat.pow 2 exponent.toNat)) by ac_rfl]
  · by_cases hlast : exponent = -1
    · subst hlast
      have hone : Nat.pow 2 1 = 2 := rfl
      have hzero : Nat.pow 2 0 = 1 := rfl
      simp only [show ¬ (0 : Int) ≤ -1 by decide, show (0 : Int) ≤ -1 + 1 by decide, if_true,
        if_false, show (-(-1 : Int)).toNat = 1 by decide, show (-1 + 1 : Int).toNat = 0 by decide,
        hone, hzero]
      rw [Nat.mul_one, Nat.mul_assoc]
      omega
    · have hsucc : (-exponent).toNat = (-(exponent + 1)).toNat + 1 := by omega
      have hlt : ¬ 0 ≤ exponent + 1 := by omega
      simp only [h, hlt, if_false, hsucc, twoPow_succ]
      rw [Nat.mul_assoc, Nat.mul_left_comm num 2]
      omega

/-- A quotient that reaches a number reaches the same count at every smaller exponent. -/
theorem Reaches.of_le {num den count : Nat} {small great : Int} (hle : small ≤ great)
    (h : Reaches num den count great) : Reaches num den count small := by
  obtain ⟨steps, rfl⟩ := Int.le.dest hle
  induction steps with
  | zero => simpa using h
  | succ steps ih =>
    refine ih (by omega) ?_
    have hdouble : Reaches num den (2 * count) (small + steps) :=
      reaches_double.2 (by simpa [Int.add_assoc] using h)
    exact Nat.le_trans (Nat.mul_le_mul_right _ (by omega)) hdouble

/-- The quotient of two numbers is at least the power of two that their lengths tell. -/
theorem reaches_lengths {num : Nat} (den : Nat) (hnum : num ≠ 0) (bits : Nat) :
    Reaches num den (Nat.pow 2 bits) ((num.log2 : Int) - den.log2 - 1 - bits) := by
  have hlow : Nat.pow 2 num.log2 ≤ num := Nat.log2_self_le hnum
  have hhigh : den ≤ Nat.pow 2 (den.log2 + 1) := Nat.le_of_lt Nat.lt_log2_self
  unfold Reaches scaleDown
  generalize num.log2 = n at *
  generalize den.log2 = d at *
  split
  case isTrue h =>
    obtain ⟨rest, hrest⟩ : ∃ rest, ((n : Int) - d - 1 - bits).toNat = rest := ⟨_, rfl⟩
    have hsum : bits + (d + 1) + rest = n := by omega
    calc Nat.pow 2 bits * (den * Nat.pow 2 ((n : Int) - d - 1 - bits).toNat)
        ≤ Nat.pow 2 bits * (Nat.pow 2 (d + 1) * Nat.pow 2 rest) := by
          rw [hrest]; exact Nat.mul_le_mul_left _ (Nat.mul_le_mul_right _ hhigh)
      _ = Nat.pow 2 n := by rw [← Nat.mul_assoc, ← twoPow_add, ← twoPow_add, hsum]
      _ ≤ num := hlow
  case isFalse h =>
    obtain ⟨rest, hrest⟩ : ∃ rest, (-((n : Int) - d - 1 - bits)).toNat = rest := ⟨_, rfl⟩
    have hsum : bits + (d + 1) = n + rest := by omega
    calc Nat.pow 2 bits * den ≤ Nat.pow 2 bits * Nat.pow 2 (d + 1) := Nat.mul_le_mul_left _ hhigh
      _ = Nat.pow 2 n * Nat.pow 2 rest := by rw [← twoPow_add, ← twoPow_add, hsum]
      _ ≤ num * Nat.pow 2 (-((n : Int) - d - 1 - bits)).toNat := by
          rw [hrest]; exact Nat.mul_le_mul_right _ hlow

/-- The quotient of two numbers stays below the power of two that their lengths tell. -/
theorem not_reaches_lengths (num : Nat) {den : Nat} (hden : den ≠ 0) (bits : Nat) :
    ¬ Reaches num den (Nat.pow 2 bits) ((num.log2 : Int) - den.log2 - bits + 1) := by
  have hlow : Nat.pow 2 den.log2 ≤ den := Nat.log2_self_le hden
  have hhigh : num < Nat.pow 2 (num.log2 + 1) := Nat.lt_log2_self
  unfold Reaches scaleDown
  generalize num.log2 = n at *
  generalize den.log2 = d at *
  refine Nat.not_le.2 ?_
  split
  case isTrue h =>
    obtain ⟨rest, hrest⟩ : ∃ rest, ((n : Int) - d - bits + 1).toNat = rest := ⟨_, rfl⟩
    have hsum : bits + d + rest = n + 1 := by omega
    calc num < Nat.pow 2 (n + 1) := hhigh
      _ = Nat.pow 2 bits * (Nat.pow 2 d * Nat.pow 2 rest) := by
          rw [← Nat.mul_assoc, ← twoPow_add, ← twoPow_add, hsum]
      _ ≤ Nat.pow 2 bits * (den * Nat.pow 2 ((n : Int) - d - bits + 1).toNat) := by
          rw [hrest]; exact Nat.mul_le_mul_left _ (Nat.mul_le_mul_right _ hlow)
  case isFalse h =>
    obtain ⟨rest, hrest⟩ : ∃ rest, (-((n : Int) - d - bits + 1)).toNat = rest := ⟨_, rfl⟩
    have hsum : n + 1 + rest = bits + d := by omega
    calc num * Nat.pow 2 (-((n : Int) - d - bits + 1)).toNat
        < Nat.pow 2 (n + 1) * Nat.pow 2 rest := by
          rw [hrest]; exact Nat.mul_lt_mul_of_pos_right hhigh (twoPow_pos _)
      _ = Nat.pow 2 bits * Nat.pow 2 d := by rw [← twoPow_add, ← twoPow_add, hsum]
      _ ≤ Nat.pow 2 bits * den := Nat.mul_le_mul_left _ hlow

/-- A rounded quotient has fewer than `bits + 1` bits, and exactly `bits` of them above the least
exponent. -/
theorem roundRatio_normal {bits : Nat} (hbits : 0 < bits) (least : Int) {num den : Nat}
    (hnum : num ≠ 0) (hden : den ≠ 0) :
    (roundRatio bits least num den).1 < Nat.pow 2 bits ∧
      least ≤ (roundRatio bits least num den).2 ∧
      ((roundRatio bits least num den).2 = least ∨
        Nat.pow 2 (bits - 1) ≤ (roundRatio bits least num den).1) := by
  have hpos := scaleDown_pos num (Nat.pos_of_ne_zero hden)
  have hdouble : Nat.pow 2 bits = 2 * Nat.pow 2 (bits - 1) := by
    rw [← twoPow_succ, Nat.sub_add_cancel hbits]
  have hguess := not_reaches_lengths num hden bits
  have hbelow : Reaches num den (Nat.pow 2 (bits - 1))
      ((num.log2 : Int) - den.log2 - bits + 1 - 1) := by
    have h := reaches_lengths den hnum (bits - 1)
    rwa [show (num.log2 : Int) - den.log2 - 1 - ((bits - 1 : Nat) : Int) =
      (num.log2 : Int) - den.log2 - bits + 1 - 1 by omega] at h
  unfold roundRatio
  generalize (num.log2 : Int) - den.log2 - bits + 1 = guess at *
  -- the exponent before it is held above the least one: its whole part has exactly `bits` bits
  have hnormal : ∀ normal, normal = (if (scaleDown num den guess).1 / (scaleDown num den guess).2 <
        Nat.pow 2 (bits - 1) then guess - 1 else guess) →
      ¬ Reaches num den (Nat.pow 2 bits) normal ∧ Reaches num den (Nat.pow 2 (bits - 1)) normal := by
    rintro normal rfl
    split
    case isTrue h =>
      refine ⟨fun hreach => ?_, hbelow⟩
      rw [hdouble, reaches_double, show guess - 1 + 1 = guess by omega] at hreach
      exact absurd ((Nat.le_div_iff_mul_le (hpos _)).2 hreach) (by omega)
    case isFalse h => exact ⟨hguess, (Nat.le_div_iff_mul_le (hpos _)).1 (by omega)⟩
  obtain ⟨hhigh, hlow⟩ := hnormal _ rfl
  simp only
  generalize (if (scaleDown num den guess).1 / (scaleDown num den guess).2 < Nat.pow 2 (bits - 1)
    then guess - 1 else guess) = normal at hhigh hlow
  have htop : (scaleDown num den (max normal least)).1 / (scaleDown num den (max normal least)).2 <
      Nat.pow 2 bits := by
    refine Nat.lt_of_not_le fun hle => hhigh ?_
    exact Reaches.of_le (Int.le_max_left _ _) ((Nat.le_div_iff_mul_le (hpos _)).1 hle)
  have hround := roundHalfEven_bounds (scaleDown num den (max normal least)).1
    (scaleDown num den (max normal least)).2
  split
  case isTrue h =>
    exact ⟨by have := twoPow_pos (bits - 1); omega, by omega, .inr (Nat.le_refl _)⟩
  case isFalse h =>
    refine ⟨by omega, Int.le_max_right _ _, ?_⟩
    rcases Int.le_total normal least with hle | hle
    · exact .inl (Int.max_eq_right hle)
    · rw [Int.max_eq_left hle] at hround ⊢
      exact .inr (Nat.le_trans ((Nat.le_div_iff_mul_le (hpos _)).2 hlow) hround.1)

/-! ## Numbers -/

/-- The exponent of the least positive number. -/
def leastExponent : Int := -1074

/-- The exponent of the greatest finite number. -/
def greatestExponent : Int := 971

/-- A mantissa and an exponent in normal form and within the finite range. -/
structure IsNormal (mantissa : Nat) (exponent : Int) : Prop where
  mantissa_lt : mantissa < Nat.pow 2 53
  least_le : leastExponent ≤ exponent
  le_greatest : exponent ≤ greatestExponent
  /-- Only at the least exponent may the leading bit be missing. -/
  full : exponent = leastExponent ∨ Nat.pow 2 52 ≤ mantissa

end Binary64

/-- A finite binary64 number, `± mantissa · 2 ^ exponent`. -/
structure Binary64 where
  negative : Bool
  mantissa : Nat
  exponent : Int
  isNormal : Binary64.IsNormal mantissa exponent
deriving DecidableEq, Repr

namespace Binary64

/-- Zero, which has a sign. -/
def zero (negative : Bool) : Binary64 :=
  ⟨negative, 0, leastExponent, ⟨by decide, by decide, by decide, .inl rfl⟩⟩

instance : Inhabited Binary64 := ⟨zero false⟩

/-- The greatest finite number of a sign. -/
def greatest (negative : Bool) : Binary64 :=
  ⟨negative, Nat.pow 2 53 - 1, greatestExponent, ⟨by decide, by decide, by decide, .inr (by decide)⟩⟩

/-- The binary64 number nearest to `num / den`, or nothing when it would exceed the finite range, as
a quotient by zero does. -/
def ofRatio? (negative : Bool) (num den : Nat) : Option Binary64 :=
  if hden : den = 0 then none
  else if hnum : num = 0 then some (zero negative)
  else
    let rounded := roundRatio 53 leastExponent num den
    if hfinite : greatestExponent < rounded.2 then none
    else
      have h := roundRatio_normal (show 0 < 53 by decide) leastExponent hnum hden
      some ⟨negative, rounded.1, rounded.2, ⟨h.1, h.2.1, Int.not_lt.1 hfinite, h.2.2⟩⟩

/-- The magnitude as a quotient of natural numbers. -/
def magnitude (x : Binary64) : Nat × Nat :=
  if 0 ≤ x.exponent then (x.mantissa * Nat.pow 2 x.exponent.toNat, 1)
  else (x.mantissa, Nat.pow 2 (-x.exponent).toNat)

/-- Zero is the number with mantissa zero, of either sign. -/
def isZero (x : Binary64) : Bool :=
  x.mantissa == 0

/-- The number of the opposite sign. -/
def neg (x : Binary64) : Binary64 :=
  { x with negative := !x.negative }

/-- The correctly rounded product. -/
def mul? (x y : Binary64) : Option Binary64 :=
  let (n₁, d₁) := x.magnitude
  let (n₂, d₂) := y.magnitude
  ofRatio? (x.negative != y.negative) (n₁ * n₂) (d₁ * d₂)

/-- The correctly rounded quotient; there is none by zero. -/
def div? (x y : Binary64) : Option Binary64 :=
  let (n₁, d₁) := x.magnitude
  let (n₂, d₂) := y.magnitude
  ofRatio? (x.negative != y.negative) (n₁ * d₂) (d₁ * n₂)

/-- The number nearest to a natural number below the finite range. -/
def ofNat (n : Nat) : Binary64 :=
  (ofRatio? false n 1).getD (zero false)

end Binary64

end ReportSql
