import HouseLedger.Proofs.Decimal.Value

/-!
# Whole cents

`Decimal.nearestCents` is what rounding to the cent means for a number: the nearest
whole number of cents, halves going away from zero. `toCents?_eq` says that
`Decimal.toCents?` computes it wherever the result takes at most
`Decimal.precision` digits.
-/

namespace HouseLedger

namespace Decimal

/-- The whole number of cents nearest to `v`; a half goes away from zero. -/
def nearestCents (v : ℚ) : ℤ :=
  if v < 0 then -⌊-v * 100 + 1 / 2⌋ else ⌊v * 100 + 1 / 2⌋

/-! ## Nearest cents -/

theorem natAbs_nearestCents (v : ℚ) : ((nearestCents v).natAbs : ℤ) = ⌊|v| * 100 + 1 / 2⌋ := by
  have hfloor : 0 ≤ ⌊|v| * 100 + 1 / 2⌋ := Int.floor_nonneg.mpr (by positivity)
  unfold nearestCents
  split
  · next h =>
    rw [abs_of_neg h] at hfloor ⊢
    omega
  · next h =>
    rw [abs_of_nonneg (not_lt.mp h)] at hfloor ⊢
    omega

theorem nearestCents_zero : nearestCents 0 = 0 := by norm_num [nearestCents]

theorem nearestCents_eq_zero {v : ℚ} (h : |v| < 1 / 200) : nearestCents v = 0 := by
  have hfloor : ⌊|v| * 100 + 1 / 2⌋ = 0 := by
    rw [Int.floor_eq_zero_iff]
    constructor <;> linarith [abs_nonneg v]
  rw [← Int.natAbs_eq_zero, ← Nat.cast_eq_zero (R := ℤ), natAbs_nearestCents, hfloor]

theorem nearestCents_neg (v : ℚ) : nearestCents (-v) = -nearestCents v := by
  rcases lt_trichotomy v 0 with h | rfl | h
  · rw [nearestCents, nearestCents, if_pos h, if_neg (by linarith), neg_neg]
  · norm_num [nearestCents]
  · rw [nearestCents, nearestCents, if_pos (by linarith), if_neg (by linarith), neg_neg]

theorem nearestCents_nonneg {v : ℚ} (h : 0 ≤ v) : 0 ≤ nearestCents v := by
  rw [nearestCents, if_neg (not_lt.mpr h)]
  exact Int.floor_nonneg.mpr (by positivity)

theorem nearestCents_lt_zero_iff {v : ℚ} (h : nearestCents v ≠ 0) : nearestCents v < 0 ↔ v < 0 := by
  constructor
  · intro hcents
    by_contra hv
    exact absurd hcents (not_lt.mpr (nearestCents_nonneg (not_lt.mp hv)))
  · intro hv
    have hopposite := nearestCents_nonneg (neg_nonneg.mpr hv.le)
    rw [nearestCents_neg] at hopposite
    omega

/-! ## Rounding to the cent -/

/-- Rounding with halves away from zero is the whole part of the number and a half. -/
theorem divRound_away (n : ℕ) {d : ℕ} (hd : 0 < d) :
    divRound .away n d = (2 * n + d) / (2 * d) := by
  have hdiv := Nat.div_add_mod n d
  have hmod := Nat.mod_lt n hd
  have hlow : n / d * (2 * d) = 2 * (d * (n / d)) := by ring
  have hmid : (n / d + 1) * (2 * d) = 2 * (d * (n / d)) + 2 * d := by ring
  have hhigh : (n / d + 1 + 1) * (2 * d) = 2 * (d * (n / d)) + 4 * d := by ring
  symm
  unfold divRound
  dsimp only
  split
  · exact Nat.div_eq_of_lt_le (by omega) (by omega)
  · split
    · exact Nat.div_eq_of_lt_le (by omega) (by omega)
    · exact Nat.div_eq_of_lt_le (by omega) (by omega)

theorem cast_divRound_away (n : ℕ) {d : ℕ} (hd : 0 < d) :
    (divRound .away n d : ℤ) = ⌊(n : ℚ) / d + 1 / 2⌋ := by
  have hd' : (d : ℚ) ≠ 0 := by exact_mod_cast hd.ne'
  have hsum : (n : ℚ) / d + 1 / 2 = ((2 * n + d : ℕ) : ℚ) / ((2 * d : ℕ) : ℚ) := by
    push_cast
    field_simp
  rw [divRound_away n hd, hsum, Rat.floor_natCast_div_natCast]
  exact_mod_cast rfl

/-- The cents of a decimal are those of its value. -/
theorem hundredths_eq_floor (x : Decimal) : (x.hundredths : ℤ) = ⌊|x.toRat| * 100 + 1 / 2⌋ := by
  rw [abs_toRat]
  unfold hundredths
  split
  · next h =>
    have hscale : (x.coefficient : ℚ) * 10 ^ x.exponent * 100 =
        ((x.coefficient * powerOfTen (x.exponent - centExponent).toNat : ℕ) : ℚ) := by
      rw [Nat.cast_mul, cast_powerOfTen, Int.toNat_of_nonneg (by omega), centExponent,
        sub_neg_eq_add, ten_zpow_add]
      norm_num [mul_assoc]
    rw [hscale, Int.floor_natCast_add]
    norm_num
  · next h =>
    have hscale : (x.coefficient : ℚ) * 10 ^ x.exponent * 100 =
        x.coefficient / (powerOfTen (centExponent - x.exponent).toNat : ℕ) := by
      rw [cast_powerOfTen, Int.toNat_of_nonneg (by omega), centExponent, zpow_sub₀ (by norm_num),
        div_div_eq_mul_div, show (10 : ℚ) ^ (-2 : ℤ) = 1 / 100 by norm_num]
      ring
    rw [hscale, cast_divRound_away _ (powerOfTen_pos _)]

theorem natAbs_nearestCents_toRat (x : Decimal) :
    (nearestCents x.toRat).natAbs = x.hundredths := by
  have h := hundredths_eq_floor x
  rw [← natAbs_nearestCents] at h
  omega

/-- The cents of a decimal have its sign. -/
theorem nearestCents_toRat (x : Decimal) :
    nearestCents x.toRat = if x.negative then -(x.hundredths : ℤ) else x.hundredths := by
  have habs := natAbs_nearestCents_toRat x
  cases h : x.negative with
  | false =>
    have hnonneg := nearestCents_nonneg (toRat_nonneg_of_not_negative h)
    rw [if_neg (by decide)]
    omega
  | true =>
    have hflip : x.flip.negative = false := by rw [flip, h, Bool.not_true]
    have hnonneg := nearestCents_nonneg (toRat_nonneg_of_not_negative hflip)
    rw [toRat_flip, nearestCents_neg] at hnonneg
    rw [if_pos rfl]
    omega

/-- Which decimals have a form to the cent that is not too long. -/
theorem hundredths_lt_iff (x : Decimal) :
    x.hundredths < powerOfTen precision ↔ |x.toRat| < 10 ^ 26 - 1 / 200 := by
  have hcast : x.hundredths < powerOfTen precision ↔
      ⌊|x.toRat| * 100 + 1 / 2⌋ < (10 : ℤ) ^ 28 := by
    rw [← hundredths_eq_floor]
    exact_mod_cast Iff.rfl
  rw [hcast, Int.floor_lt]
  push_cast
  constructor <;> intro h <;> linarith

theorem toCents?_eq {x : Decimal} (h : |x.toRat| < 10 ^ 26 - 1 / 200) :
    x.toCents? = some ⟨x.negative, (nearestCents x.toRat).natAbs, centExponent⟩ := by
  rw [toCents?, if_pos ((hundredths_lt_iff x).mpr h), natAbs_nearestCents_toRat]

/-- What fits the precision with at least two places can be rounded to the cent. -/
theorem Fits.lt_of_two_le {f : ℕ} {v : ℚ} (h : Fits f v) (hf : 2 ≤ f) :
    |v| < 10 ^ 26 - 1 / 200 := by
  obtain ⟨⟨n, hn⟩, hsmall⟩ := h
  have hpos := ten_zpow_pos (-(f : ℤ))
  have habs : |v| = n.natAbs * 10 ^ (-(f : ℤ)) := by
    rw [hn, abs_mul, abs_of_pos hpos, Nat.cast_natAbs, Int.cast_abs]
  have hdigits : n.natAbs + 1 ≤ 10 ^ 28 := by
    rw [habs, sub_eq_add_neg, ten_zpow_add, mul_lt_mul_iff_left₀ hpos] at hsmall
    exact_mod_cast hsmall
  have hunit : (10 : ℚ) ^ (-(f : ℤ)) ≤ 10 ^ (-2 : ℤ) :=
    zpow_le_zpow_right₀ (by norm_num) (by omega)
  have hcast : (n.natAbs : ℚ) + 1 ≤ 10 ^ 28 := by exact_mod_cast hdigits
  calc |v| = n.natAbs * 10 ^ (-(f : ℤ)) := habs
    _ ≤ n.natAbs * 10 ^ (-2 : ℤ) := by gcongr
    _ ≤ (10 ^ 28 - 1) * 10 ^ (-2 : ℤ) := by gcongr; linarith
    _ < 10 ^ 26 - 1 / 200 := by norm_num

end Decimal

end HouseLedger
