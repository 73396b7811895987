import Mathlib
import ReportSql.Binary64.Shortest

/-!
# Rounding intervals

The printed decimal of a number lies in the interval of the reals that round to it, and
the intervals of different numbers have no point in common. A decimal grid with seventeen
digits is finer than the distance between neighbouring numbers, so that one of the two
grid points around a number lies in its interval: the search for digits succeeds.

## Main definitions

* `Binary64.absValue` - the magnitude of a number
* `Binary64.Rounds` - a value in the rounding interval

## Main results

* `Binary64.Rounds.unique` - a value rounds to one number only
* `Binary64.shortestDigits_rounds` - the printed decimal rounds to the number
-/

namespace ReportSql.Binary64

variable {x y : Binary64}

/-! ## Rounding intervals -/

/-- The magnitude of a number. -/
def absValue (x : Binary64) : ℚ :=
  x.mantissa * 2 ^ x.exponent

/-- A quarter of the last binary place. -/
def quarter (x : Binary64) : ℚ :=
  2 ^ (x.exponent - 2)

/-- A value that rounds to a number. The ends of the interval round to an even mantissa. -/
def Rounds (x : Binary64) (v : ℚ) : Prop :=
  if x.mantissa % 2 = 0 then
    x.interval.low * x.quarter ≤ v ∧ v ≤ x.interval.high * x.quarter
  else x.interval.low * x.quarter < v ∧ v < x.interval.high * x.quarter

theorem quarter_pos (x : Binary64) : 0 < x.quarter :=
  zpow_pos two_pos _

theorem absValue_eq (x : Binary64) : x.absValue = x.interval.mid * x.quarter := by
  have hexp : (2 : ℚ) ^ x.exponent = 4 * 2 ^ (x.exponent - 2) := by
    rw [show (4 : ℚ) = 2 ^ (2 : ℤ) by norm_num, ← zpow_add₀ two_ne_zero]
    congr 1
    omega
  simp only [absValue, interval, quarter, hexp]
  push_cast
  ring

/-- The values at the ends of the interval round, if they round at all, to even mantissas. -/
theorem Rounds.le {v : ℚ} (h : x.Rounds v) :
    x.interval.low * x.quarter ≤ v ∧ v ≤ x.interval.high * x.quarter ∧
      (x.mantissa % 2 = 1 → x.interval.low * x.quarter < v ∧ v < x.interval.high * x.quarter) := by
  unfold Rounds at h
  split at h
  case isTrue heven => exact ⟨h.1, h.2, fun hodd => by omega⟩
  case isFalse => exact ⟨h.1.le, h.2.le, fun _ => h⟩

theorem rounds_of_lt {v : ℚ} (hlow : x.interval.low * x.quarter < v)
    (hhigh : v < x.interval.high * x.quarter) : x.Rounds v := by
  unfold Rounds
  split
  · exact ⟨hlow.le, hhigh.le⟩
  · exact ⟨hlow, hhigh⟩

/-! ## Different numbers -/

/-- The number comes before another one of the same sign. -/
def Before (x y : Binary64) : Prop :=
  x.exponent < y.exponent ∨ x.exponent = y.exponent ∧ x.mantissa < y.mantissa

theorem before_total (h : ¬ (x.mantissa = y.mantissa ∧ x.exponent = y.exponent)) :
    x.Before y ∨ y.Before x := by
  unfold Before
  omega

/-- The interval reaches half a place down, or a quarter below a power of two. -/
theorem low_cases (x : Binary64) :
    ¬ (x.mantissa = 2 ^ 52 ∧ leastExponent < x.exponent) ∧ x.interval.low = 4 * x.mantissa - 2 ∨
      x.mantissa = 2 ^ 52 ∧ x.interval.low = 4 * x.mantissa - 1 := by
  simp only [interval, Nat.pow_eq]
  split
  case isTrue h => exact .inr ⟨h.1, rfl⟩
  case isFalse h => exact .inl ⟨h, rfl⟩

/-- The interval of a number ends before that of a later one begins, or where it begins, and then
one of the two mantissas is odd. In quarters of the last place of the earlier number. -/
theorem high_le_low (h : x.Before y) {steps : Nat} (hsteps : y.exponent = x.exponent + steps) :
    x.interval.high < y.interval.low * 2 ^ steps ∨
      x.interval.high = y.interval.low * 2 ^ steps ∧ (x.mantissa % 2 = 1 ∨ y.mantissa % 2 = 1) := by
  have hxlt : x.mantissa < 2 ^ 53 := x.isNormal.mantissa_lt
  have hyfull : y.exponent = -1074 ∨ 2 ^ 52 ≤ y.mantissa := y.isNormal.full
  have hleast : -1074 ≤ x.exponent := x.isNormal.least_le
  have hhigh : x.interval.high = 4 * x.mantissa + 2 := rfl
  have hlow := y.low_cases
  rw [leastExponent] at hlow
  rw [hhigh]
  generalize y.interval.low = low at *
  rcases h with hexp | ⟨hexp, hmantissa⟩
  · -- the later number has a leading bit, and its interval at least doubles
    have hdouble : low * 2 ^ 1 ≤ low * 2 ^ steps :=
      Nat.mul_le_mul_left _ (Nat.pow_le_pow_right (by omega) (by omega))
    omega
  · obtain rfl : steps = 0 := by omega
    omega

theorem not_rounds_of_before {v : ℚ} (h : x.Before y) (hx : x.Rounds v) : ¬ y.Rounds v := by
  intro hy
  obtain ⟨steps, hsteps⟩ : ∃ steps : Nat, y.exponent = x.exponent + steps := by
    refine ⟨(y.exponent - x.exponent).toNat, ?_⟩
    rcases h with hexp | ⟨hexp, -⟩ <;> omega
  have hquarter : y.quarter = 2 ^ steps * x.quarter := by
    rw [quarter, quarter, hsteps, ← zpow_natCast (2 : ℚ) steps, ← zpow_add₀ two_ne_zero]
    congr 1
    ring
  obtain ⟨-, hxhigh, hxodd⟩ := hx.le
  obtain ⟨hylow, -, hyodd⟩ := hy.le
  have hlow : (y.interval.low : ℚ) * y.quarter = (y.interval.low * 2 ^ steps : Nat) * x.quarter := by
    rw [hquarter]
    push_cast
    ring
  rw [hlow] at hylow hyodd
  rcases high_le_low h hsteps with hlt | ⟨heq, hodd⟩
  · have hgap : (x.interval.high : ℚ) * x.quarter < (y.interval.low * 2 ^ steps : Nat) * x.quarter :=
      mul_lt_mul_of_pos_right (by exact_mod_cast hlt) x.quarter_pos
    linarith
  · rw [heq] at hxhigh hxodd
    rcases hodd with hodd | hodd
    · linarith [(hxodd hodd).2]
    · linarith [(hyodd hodd).1]

/-- A value rounds to one magnitude only. -/
theorem Rounds.unique {v : ℚ} (hx : x.Rounds v) (hy : y.Rounds v) :
    x.mantissa = y.mantissa ∧ x.exponent = y.exponent := by
  by_contra hne
  rcases before_total hne with h | h
  · exact not_rounds_of_before h hx hy
  · exact not_rounds_of_before h hy hx

/-! ## Decimals -/

/-- The decimal `digits · 10 ^ power`. -/
def decimal (digits : Nat) (power : Int) : ℚ :=
  digits * 10 ^ power

theorem decimalRatio_spec (digits : Nat) (power : Int) :
    0 < (decimalRatio digits power).2 ∧
      decimal digits power = (decimalRatio digits power).1 / (decimalRatio digits power).2 := by
  unfold decimalRatio decimal
  split
  case isTrue h =>
    obtain ⟨n, rfl⟩ := Int.eq_ofNat_of_zero_le h
    exact ⟨one_pos, by simp⟩
  case isFalse h =>
    obtain ⟨n, rfl⟩ : ∃ n : Nat, power = -n := ⟨(-power).toNat, by omega⟩
    refine ⟨by simp, ?_⟩
    simp [div_eq_mul_inv]

theorem interval_ratio (x : Binary64) :
    0 < x.interval.den ∧ x.quarter = x.interval.num / x.interval.den := by
  unfold interval quarter
  dsimp only
  split
  case isTrue h =>
    obtain ⟨n, hn⟩ := Int.eq_ofNat_of_zero_le h
    exact ⟨one_pos, by simp [hn]⟩
  case isFalse h =>
    obtain ⟨n, hn⟩ : ∃ n : Nat, x.exponent - 2 = -n := ⟨(-(x.exponent - 2)).toNat, by omega⟩
    exact ⟨by simp, by simp [hn]⟩

/-- Fractions are compared by their cross products. -/
theorem ratio_le_iff {a b c d : Nat} {q r : ℚ} (hb : 0 < b) (hd : 0 < d) (hq : q = a / b)
    (hr : r = c / d) (n : Nat) : n * q ≤ r ↔ n * a * d ≤ c * b := by
  have hb' : (0 : ℚ) < b := by exact_mod_cast hb
  have hd' : (0 : ℚ) < d := by exact_mod_cast hd
  rw [hq, hr, ← mul_div_assoc, div_le_div_iff₀ hb' hd']
  exact_mod_cast Iff.rfl

theorem le_ratio_iff {a b c d : Nat} {q r : ℚ} (hb : 0 < b) (hd : 0 < d) (hq : q = a / b)
    (hr : r = c / d) (n : Nat) : r ≤ n * q ↔ c * b ≤ n * a * d := by
  have hb' : (0 : ℚ) < b := by exact_mod_cast hb
  have hd' : (0 : ℚ) < d := by exact_mod_cast hd
  rw [hq, hr, ← mul_div_assoc, div_le_div_iff₀ hd' hb']
  exact_mod_cast Iff.rfl

/-- The test for a decimal is the one for its value. -/
theorem contains_iff (x : Binary64) (digits : Nat) (power : Int) :
    x.interval.contains digits power = true ↔ x.Rounds (decimal digits power) := by
  obtain ⟨hd, hdecimal⟩ := decimalRatio_spec digits power
  obtain ⟨hden, hquarter⟩ := x.interval_ratio
  have hlow := ratio_le_iff hden hd hquarter hdecimal x.interval.low
  have hhigh := le_ratio_iff hden hd hquarter hdecimal x.interval.high
  have hlow' := lt_iff_lt_of_le_iff_le (le_ratio_iff hden hd hquarter hdecimal x.interval.low)
  have hhigh' := lt_iff_lt_of_le_iff_le (ratio_le_iff hden hd hquarter hdecimal x.interval.high)
  have hclosed : x.interval.closed = (x.mantissa % 2 == 0) := rfl
  unfold Interval.contains Rounds
  rw [hclosed]
  by_cases heven : x.mantissa % 2 = 0
  · simp [heven, hlow, hhigh]
  · simp [heven, hlow', hhigh']

/-! ## The search for digits -/

theorem magnitude_ratio (x : Binary64) :
    0 < x.magnitude.2 ∧ x.absValue = x.magnitude.1 / x.magnitude.2 := by
  unfold magnitude absValue
  split
  case isTrue h =>
    obtain ⟨n, hn⟩ := Int.eq_ofNat_of_zero_le h
    exact ⟨one_pos, by simp [hn]⟩
  case isFalse h =>
    obtain ⟨n, hn⟩ : ∃ n : Nat, x.exponent = -n := ⟨(-x.exponent).toNat, by omega⟩
    exact ⟨by simp [hn], by simp [hn, div_eq_mul_inv]⟩

theorem absValue_pos (h : x.mantissa ≠ 0) : 0 < x.absValue :=
  mul_pos (by exact_mod_cast Nat.pos_of_ne_zero h) (zpow_pos two_pos _)

/-- A quotient is at least the power of ten at the place of its first digit. -/
theorem pointPosition_le {num den : Nat} (hnum : 0 < num) (hden : 0 < den) :
    (10 : ℚ) ^ (pointPosition num den - 1) ≤ num / den := by
  have hnum' : (0 : ℚ) < num := by exact_mod_cast hnum
  have hden' : (0 : ℚ) < den := by exact_mod_cast hden
  unfold pointPosition
  split
  case isTrue h =>
    -- the whole part has as many digits as the position says
    have hlength := Nat.length_toDigits_pos (b := 10) (n := num / den)
    obtain ⟨k, hk⟩ : ∃ k, (Nat.toDigits 10 (num / den)).length = k + 1 :=
      ⟨(Nat.toDigits 10 (num / den)).length - 1, by omega⟩
    have hpow : 10 ^ k ≤ num / den := by
      by_contra! hlt
      rcases Nat.eq_zero_or_pos k with rfl | hk'
      · have := Nat.div_pos h hden
        omega
      · have := (Nat.length_toDigits_le_iff (by omega) hk').2 hlt
        omega
    rw [hk, le_div_iff₀ hden']
    push_cast
    rw [add_sub_cancel_right, zpow_natCast]
    exact_mod_cast (Nat.le_div_iff_mul_le hden).1 hpow
  case isFalse h =>
    obtain ⟨k, hk⟩ : ∃ k, (Nat.toDigits 10 (den / num)).length = k := ⟨_, rfl⟩
    have hpos : 0 < k := hk ▸ Nat.length_toDigits_pos
    have hpow : den / num < 10 ^ k := (Nat.length_toDigits_le_iff (by omega) hpos).1 hk.le
    have hlt : den < 10 ^ k * num := (Nat.div_lt_iff_lt_mul hnum).1 hpow
    have hlt' : (den : ℚ) ≤ 10 ^ k * num := by exact_mod_cast hlt.le
    have hexp : 1 - ((Nat.toDigits 10 (den / num)).length : Int) - 1 = -(k : Int) := by omega
    rw [hexp, zpow_neg, zpow_natCast, le_div_iff₀ hden', inv_mul_le_iff₀ (by positivity)]
    exact hlt'

/-- The number lies between two neighbours on a grid. -/
theorem gridFloor_spec {num den : Nat} (hden : 0 < den) (power : Int) :
    decimal (gridFloor num den power) power ≤ num / den ∧
      (num / den : ℚ) < decimal (gridFloor num den power + 1) power := by
  have hden' : (0 : ℚ) < den := by exact_mod_cast hden
  unfold gridFloor decimal
  split
  case isTrue h =>
    -- a step of the grid is a whole number
    obtain ⟨k, rfl⟩ := Int.eq_ofNat_of_zero_le h
    have hscale : 0 < den * 10 ^ k := by positivity
    have hfloor := Nat.div_mul_le_self num (den * 10 ^ k)
    have hceil := Nat.lt_div_mul_add hscale (a := num)
    simp only [Int.toNat_natCast, Nat.pow_eq, zpow_natCast]
    rw [le_div_iff₀ hden', div_lt_iff₀ hden']
    constructor
    · calc _ = ((num / (den * 10 ^ k) * (den * 10 ^ k) : Nat) : ℚ) := by push_cast; ring
        _ ≤ num := by exact_mod_cast hfloor
    · calc (num : ℚ) < ((num / (den * 10 ^ k) * (den * 10 ^ k) + den * 10 ^ k : Nat) : ℚ) := by
            exact_mod_cast hceil
        _ = _ := by push_cast; ring
  case isFalse h =>
    -- a step is one over a whole number, which scales the numerator
    obtain ⟨k, rfl⟩ : ∃ k : Nat, power = -k := ⟨(-power).toNat, by omega⟩
    have hfloor := Nat.div_mul_le_self (num * 10 ^ k) den
    have hceil := Nat.lt_div_mul_add hden (a := num * 10 ^ k)
    have hten : (0 : ℚ) < 10 ^ k := by positivity
    simp only [neg_neg, Int.toNat_natCast, Nat.pow_eq, zpow_neg, zpow_natCast, ← div_eq_mul_inv]
    rw [div_le_div_iff₀ hten hden', div_lt_div_iff₀ hden' hten]
    exact ⟨by exact_mod_cast hfloor, by
      calc (num : ℚ) * 10 ^ k < ((num * 10 ^ k / den * den + den : Nat) : ℚ) := by exact_mod_cast hceil
        _ = _ := by push_cast; ring⟩

theorem best?_eq_some {i : Interval} {floor digits : Nat} {power : Int}
    (h : i.best? floor power = some digits) : i.contains digits power = true := by
  unfold Interval.best? at h
  split at h
  case h_1 => simp at h
  case h_2 hfloor _ => exact Option.some.inj h ▸ hfloor
  case h_3 _ hnext => exact Option.some.inj h ▸ hnext
  case h_4 hfloor hnext =>
    dsimp only at h
    split_ifs at h
    · exact Option.some.inj h ▸ hfloor
    · exact Option.some.inj h ▸ hnext
    · exact Option.some.inj h ▸ hfloor
    · exact Option.some.inj h ▸ hnext

theorem best?_isSome {i : Interval} {floor : Nat} {power : Int}
    (h : i.contains floor power = true ∨ i.contains (floor + 1) power = true) :
    (i.best? floor power).isSome = true := by
  unfold Interval.best?
  split
  case h_1 hfloor hnext => simp [hfloor, hnext] at h
  case h_2 => rfl
  case h_3 => rfl
  case h_4 =>
    dsimp only
    split_ifs <;> rfl

/-- Of two values around a number that are less than nine tenths of its last place apart, and less
than half a place for a power of two, one rounds to the number. -/
theorem rounds_neighbour {floor step : ℚ} (h : x.mantissa ≠ 0) (hfloor : floor ≤ x.absValue)
    (hceil : x.absValue < floor + step) (hfine : step * 10 ^ 16 ≤ x.absValue) :
    x.Rounds floor ∨ x.Rounds (floor + step) := by
  have hquarter := x.quarter_pos
  have hmantissa : (x.mantissa : ℚ) < 2 ^ 53 := by exact_mod_cast x.isNormal.mantissa_lt
  have hhigh : (x.interval.high : ℚ) = 4 * x.mantissa + 2 := by simp [interval]
  have hmid : x.absValue = 4 * x.mantissa * x.quarter := by simp [absValue_eq, interval]
  have hcases := x.low_cases
  have hlowest : x.interval.low * x.quarter ≤ x.absValue := by
    have hle : (x.interval.low : ℚ) ≤ 4 * x.mantissa := by
      exact_mod_cast (show x.interval.low ≤ 4 * x.mantissa by omega)
    rw [hmid]
    exact mul_le_mul_of_nonneg_right hle hquarter.le
  -- the lower neighbour rounds to the number, or it lies below the interval and the upper one in it
  by_cases hnear : x.interval.low * x.quarter < floor
  · left
    refine rounds_of_lt hnear (lt_of_le_of_lt hfloor ?_)
    rw [hmid, hhigh]
    linarith
  · right
    refine rounds_of_lt (lt_of_le_of_lt hlowest hceil) ?_
    rw [hmid] at hfine hfloor
    rw [hhigh]
    rcases hcases with ⟨-, hlow⟩ | ⟨hpow, -⟩
    · have hlow' : (x.interval.low : ℚ) = 4 * x.mantissa - 2 := by
        rw [hlow]
        push_cast [show 2 ≤ 4 * x.mantissa by omega]
        ring
      rw [hlow'] at hnear
      nlinarith
    · have hpow' : (x.mantissa : ℚ) = 2 ^ 52 := by exact_mod_cast hpow
      rw [hpow'] at hfine hfloor ⊢
      linarith

/-- One of the two neighbours on the grid of seventeen digits reads back. -/
theorem onGrid?_seventeen (h : x.mantissa ≠ 0) : (x.onGrid? 17).isSome = true := by
  obtain ⟨hden, hvalue⟩ := x.magnitude_ratio
  have hnum : 0 < x.magnitude.1 := by
    have hpos := absValue_pos h
    rw [hvalue] at hpos
    by_contra hzero
    rw [Nat.eq_zero_of_not_pos hzero] at hpos
    simp at hpos
  obtain ⟨power, hpower⟩ : ∃ power, pointPosition x.magnitude.1 x.magnitude.2 - 17 = power := ⟨_, rfl⟩
  -- seventeen digits make a step small against the number
  have hfine : (10 : ℚ) ^ power * 10 ^ 16 ≤ x.absValue := by
    rw [hvalue]
    refine le_trans (le_of_eq ?_) (pointPosition_le hnum hden)
    rw [← zpow_natCast (10 : ℚ) 16, ← zpow_add₀ (by norm_num), ← hpower]
    congr 1
    omega
  obtain ⟨hfloor, hceil⟩ := @gridFloor_spec x.magnitude.1 _ hden power
  have hstep : decimal (gridFloor x.magnitude.1 x.magnitude.2 power + 1) power =
      decimal (gridFloor x.magnitude.1 x.magnitude.2 power) power + 10 ^ power := by
    simp only [decimal]
    push_cast
    ring
  rw [← hvalue] at hfloor hceil
  rw [hstep] at hceil
  have hrounds := rounds_neighbour h hfloor hceil hfine
  rw [← hstep, ← contains_iff, ← contains_iff] at hrounds
  unfold onGrid?
  dsimp only
  rw [Option.isSome_map, Nat.cast_ofNat, hpower]
  exact best?_isSome hrounds

theorem onGrid?_eq_some {count digits : Nat} {power : Int}
    (h : x.onGrid? count = some (digits, power)) : x.Rounds (decimal digits power) := by
  unfold onGrid? at h
  dsimp only at h
  obtain ⟨found, hbest, heq⟩ := Option.map_eq_some_iff.1 h
  obtain ⟨rfl, rfl⟩ := Prod.mk.inj heq
  exact (contains_iff x _ _).1 (best?_eq_some hbest)

/-- Zeros move from the digits into the power of ten. -/
theorem decimal_stripZeros (fuel digits : Nat) (power : Int) :
    decimal (stripZeros fuel digits power).1 (stripZeros fuel digits power).2 =
      decimal digits power := by
  induction fuel generalizing digits power with
  | zero => rfl
  | succ fuel ih =>
    rw [stripZeros]
    split
    case isTrue h =>
      obtain ⟨k, rfl⟩ := Nat.dvd_of_mod_eq_zero h.2
      rw [ih, Nat.mul_div_cancel_left k (by omega)]
      simp only [decimal]
      rw [zpow_add₀ (by norm_num)]
      push_cast
      ring
    case isFalse => rfl

/-- The digits that are printed read back as the number. -/
theorem shortestDigits_rounds (h : x.mantissa ≠ 0) :
    x.Rounds (decimal x.shortestDigits.1 x.shortestDigits.2) := by
  unfold shortestDigits
  split
  case h_1 digits power hfound =>
    rw [decimal_stripZeros]
    obtain ⟨n, -, hgrid⟩ := List.exists_of_findSome?_eq_some hfound
    exact onGrid?_eq_some hgrid
  case h_2 hnone =>
    have hseventeen := List.findSome?_eq_none_iff.1 hnone 16 (by simp)
    have hsome := onGrid?_seventeen h
    rw [hseventeen] at hsome
    exact Bool.noConfusion hsome

end ReportSql.Binary64
