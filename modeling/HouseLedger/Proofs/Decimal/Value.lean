import HouseLedger.Decimal.Cents
import Mathlib.Algebra.Order.Field.Rat
import Mathlib.Data.Rat.Floor
import Mathlib.Tactic

/-!
# The values of decimals

Decimal arithmetic computes exactly and rounds once. This module says what that
means for the rational number `Decimal.toRat` that a decimal stands for.

* `lt_iff_toRat_lt`, `isBelowZero_iff`: comparisons are those of the values.
* `toRat_exactSum`, `toRat_flip`: sums and opposites before rounding are exact.
* `toRat_round_of_isShort`: rounding keeps a value that has few enough digits, none of
  them below the finest place, and so do `toRat_add_of_fits` and `toRat_sub_of_fits`,
  whatever the exponents of the operands are.
* `toRat_mul_of_fits`, `toRat_ofInt`, `truncate_of_nonneg`: products, whole numbers and
  whole parts.
* `negative_round`, `negative_share`, `toRat_neg_nonneg`: signs are kept, also where
  values are not.
-/

namespace HouseLedger

namespace Decimal

/-! ## Values -/

theorem ten_zpow_pos (e : ℤ) : (0 : ℚ) < 10 ^ e := zpow_pos (by norm_num) e

theorem ten_zpow_add (a b : ℤ) : (10 : ℚ) ^ (a + b) = 10 ^ a * 10 ^ b :=
  zpow_add₀ (by norm_num) a b

theorem powerOfTen_eq (k : ℕ) : powerOfTen k = 10 ^ k := rfl

theorem powerOfTen_pos (k : ℕ) : 0 < powerOfTen k := Nat.pow_pos (by decide)

theorem cast_powerOfTen (k : ℕ) : (powerOfTen k : ℚ) = 10 ^ (k : ℤ) := by
  rw [powerOfTen_eq]
  push_cast
  rfl

theorem toRat_of_not_negative {x : Decimal} (h : x.negative = false) :
    x.toRat = x.coefficient * 10 ^ x.exponent := by
  simp [toRat, signed, h]

theorem toRat_of_negative {x : Decimal} (h : x.negative = true) :
    x.toRat = -(x.coefficient * 10 ^ x.exponent) := by
  simp [toRat, signed, h]

theorem abs_toRat (x : Decimal) : |x.toRat| = x.coefficient * 10 ^ x.exponent := by
  have hpos : (0 : ℚ) ≤ x.coefficient * 10 ^ x.exponent :=
    mul_nonneg (Nat.cast_nonneg _) (ten_zpow_pos _).le
  cases h : x.negative with
  | false => rw [toRat_of_not_negative h, abs_of_nonneg hpos]
  | true => rw [toRat_of_negative h, abs_neg, abs_of_nonneg hpos]

@[simp] theorem toRat_zero : zero.toRat = 0 := by
  simp [zero, toRat, signed]

theorem toRat_eq_zero_iff (x : Decimal) : x.toRat = 0 ↔ x.coefficient = 0 := by
  rw [← abs_eq_zero, abs_toRat, mul_eq_zero]
  simp [(ten_zpow_pos x.exponent).ne']

@[simp] theorem toRat_flip (x : Decimal) : x.flip.toRat = -x.toRat := by
  cases h : x.negative <;> simp [flip, toRat, signed, h]

/-- A decimal is as many units of a finer power of ten as its value says. -/
theorem cast_unitsAt {x : Decimal} {e : ℤ} (h : e ≤ x.exponent) :
    (x.unitsAt e : ℚ) * 10 ^ e = x.toRat := by
  have hdiff : ((x.exponent - e).toNat : ℤ) = x.exponent - e := Int.toNat_of_nonneg (by omega)
  unfold unitsAt toRat
  push_cast
  rw [cast_powerOfTen, hdiff, mul_assoc, ← ten_zpow_add, sub_add_cancel]

/-! ## Comparison -/

theorem lt_iff_toRat_lt (x y : Decimal) : x < y ↔ x.toRat < y.toRat := by
  rw [← cast_unitsAt (min_le_left x.exponent y.exponent),
    ← cast_unitsAt (min_le_right x.exponent y.exponent),
    mul_lt_mul_iff_left₀ (ten_zpow_pos _)]
  exact Int.cast_lt.symm

theorem le_iff_toRat_le (x y : Decimal) : x ≤ y ↔ x.toRat ≤ y.toRat := by
  rw [← cast_unitsAt (min_le_left x.exponent y.exponent),
    ← cast_unitsAt (min_le_right x.exponent y.exponent),
    mul_le_mul_iff_left₀ (ten_zpow_pos _)]
  exact Int.cast_le.symm

theorem isBelowZero_iff (x : Decimal) : x.isBelowZero = true ↔ x.toRat < 0 := by
  have hpos := ten_zpow_pos x.exponent
  cases h : x.negative with
  | false =>
    have : 0 ≤ x.toRat := by
      rw [toRat_of_not_negative h]
      positivity
    simp [isBelowZero, h, this]
  | true =>
    rw [toRat_of_negative h, neg_lt_zero, mul_pos_iff_of_pos_right hpos]
    simp [isBelowZero, h, Nat.pos_iff_ne_zero]

theorem isBelowZero_eq_false_iff (x : Decimal) : x.isBelowZero = false ↔ 0 ≤ x.toRat := by
  rw [← not_lt, ← isBelowZero_iff, Bool.not_eq_true]

/-! ## Sums before rounding -/

/-- The sum of two decimals with all its digits. -/
def exactSum (x y : Decimal) : Decimal :=
  let e := min x.exponent y.exponent
  let total := x.unitsAt e + y.unitsAt e
  ⟨if total = 0 then x.negative && y.negative else total < 0, total.natAbs, e⟩

theorem add_eq_round (x y : Decimal) : x + y = (exactSum x y).round := by
  change add x y = _
  unfold add exactSum
  rfl

theorem sub_eq_round (x y : Decimal) : x - y = (exactSum x y.flip).round :=
  add_eq_round x y.flip

theorem toRat_exactSum (x y : Decimal) : (exactSum x y).toRat = x.toRat + y.toRat := by
  rw [← cast_unitsAt (min_le_left x.exponent y.exponent),
    ← cast_unitsAt (min_le_right x.exponent y.exponent), ← add_mul, ← Int.cast_add]
  set total := x.unitsAt (min x.exponent y.exponent) + y.unitsAt (min x.exponent y.exponent)
    with htotal
  suffices h : (exactSum x y).signed = total by
    rw [toRat, h]
    rfl
  rcases lt_trichotomy total 0 with hneg | hzero | hpos
  · simp only [exactSum, signed, ← htotal, hneg, hneg.ne, if_false, decide_true, if_true]
    omega
  · simp only [exactSum, signed, ← htotal, hzero, Int.natAbs_zero]
    simp
  · simp only [exactSum, signed, ← htotal, hpos.ne', not_lt.mpr hpos.le, if_false, decide_false,
      Bool.false_eq_true]
    omega

/-! ## Rounding -/

theorem ten_pow_digitsBelow_le {n : ℕ} (h : n ≠ 0) : 10 ^ digitsBelow n ≤ n := by
  have hten : (10 ^ digitsBelow n) ^ 10 ≤ (2 ^ n.log2) ^ 10 :=
    calc (10 ^ digitsBelow n) ^ 10 = 10 ^ (digitsBelow n * 10) := (Nat.pow_mul ..).symm
      _ ≤ 10 ^ (3 * n.log2) := Nat.pow_le_pow_right (by decide) (by unfold digitsBelow; omega)
      _ = (10 ^ 3) ^ n.log2 := Nat.pow_mul ..
      _ ≤ (2 ^ 10) ^ n.log2 := Nat.pow_le_pow_left (by decide) _
      _ = (2 ^ n.log2) ^ 10 := by rw [← Nat.pow_mul, ← Nat.pow_mul, Nat.mul_comm]
  exact ((Nat.pow_le_pow_iff_left (by decide)).mp hten).trans (Nat.log2_self_le h)

/-- The digits that are not written out are counted all the same. -/
theorem digitCount_le_iff {n k : ℕ} (h : 0 < k) : digitCount n ≤ k ↔ n < 10 ^ k := by
  rcases Nat.eq_zero_or_pos n with rfl | hn
  · exact iff_of_true h (Nat.pow_pos (by decide))
  · have hbelow := ten_pow_digitsBelow_le hn.ne'
    have hone : 0 < (Nat.toDigits 10 (n / powerOfTen (digitsBelow n))).length :=
      List.length_pos_iff.mpr Nat.toDigits_ne_nil
    unfold digitCount
    rcases Nat.lt_or_ge (digitsBelow n) k with hlt | hge
    · have hfront := Nat.length_toDigits_le_iff (b := 10) (n := n / powerOfTen (digitsBelow n))
        (by decide) (Nat.sub_pos_of_lt hlt)
      rw [Nat.div_lt_iff_lt_mul (powerOfTen_pos _), powerOfTen_eq, ← Nat.pow_add,
        Nat.sub_add_cancel hlt.le] at hfront
      rw [← hfront, ← powerOfTen_eq]
      omega
    · refine iff_of_false (by omega) (Nat.not_lt.mpr ?_)
      exact (Nat.pow_le_pow_right (by decide) hge).trans hbelow

theorem surplus_le_iff {x : Decimal} {k : ℕ} : x.surplus ≤ k ↔
    digitCount x.coefficient ≤ precision + k ∧ finestPlace ≤ x.exponent + k := by
  unfold surplus
  omega

/-- A whole quotient is its own nearest whole number. -/
theorem divRound_mul_right (tie : Tie) (q : ℕ) {d : ℕ} (hd : 0 < d) :
    divRound tie (q * d) d = q := by
  simp [divRound, Nat.mul_div_cancel _ hd, hd]

/-- Writing a carry with one digit less does not change the value. -/
theorem toRat_ofRounded (negative : Bool) (coefficient : ℕ) (exponent : ℤ) :
    (ofRounded negative coefficient exponent).toRat =
      toRat ⟨negative, coefficient, exponent⟩ := by
  unfold ofRounded
  split
  · next h =>
    have hten : (powerOfTen (precision - 1) : ℚ) * 10 ^ (exponent + 1) =
        powerOfTen precision * 10 ^ exponent := by
      rw [cast_powerOfTen, cast_powerOfTen, ← ten_zpow_add, ← ten_zpow_add]
      congr 1
      simp only [precision]
      omega
    cases negative <;> simp [toRat, signed, h, hten]
  · rfl

/-- A rounded decimal counts the units of the last digit that is kept. -/
theorem toRat_round (x : Decimal) :
    x.round.toRat = toRat ⟨x.negative, divRound .even x.coefficient (powerOfTen x.surplus),
      x.exponent + x.surplus⟩ := by
  unfold round
  split
  · next hzero =>
    have hnone : divRound .even 0 (powerOfTen x.surplus) = 0 := by
      simpa using divRound_mul_right .even 0 (powerOfTen_pos x.surplus)
    rw [hzero, hnone]
    exact ((toRat_eq_zero_iff _).mpr rfl).trans ((toRat_eq_zero_iff _).mpr rfl).symm
  · split
    · next hkept =>
      have hsame : divRound .even x.coefficient (powerOfTen 0) = x.coefficient := by
        simpa [powerOfTen_eq] using divRound_mul_right .even x.coefficient Nat.one_pos
      rw [hkept, hsame, Nat.cast_zero, add_zero]
    · exact toRat_ofRounded ..

/-- Rounding keeps the value where the digits that it drops are zeros. -/
theorem toRat_round_of_dvd {x : Decimal} (h : powerOfTen x.surplus ∣ x.coefficient) :
    x.round.toRat = x.toRat := by
  obtain ⟨q, hq⟩ := h
  have hround : divRound .even x.coefficient (powerOfTen x.surplus) = q := by
    rw [hq, Nat.mul_comm]
    exact divRound_mul_right .even q (powerOfTen_pos x.surplus)
  have hvalue : (q : ℚ) * 10 ^ (x.exponent + x.surplus) = x.coefficient * 10 ^ x.exponent := by
    rw [hq, Nat.cast_mul, cast_powerOfTen, ten_zpow_add]
    ring
  rw [toRat_round, hround]
  cases hx : x.negative with
  | false => rw [toRat_of_not_negative rfl, toRat_of_not_negative hx, hvalue]
  | true => rw [toRat_of_negative rfl, toRat_of_negative hx, hvalue]

/-! ## Short decimals -/

/-- Without the zeros behind its last digit, the value takes at most `precision` digits, and none
below the finest place. -/
def IsShort (x : Decimal) : Prop :=
  ∃ (c : ℕ) (e : ℤ), c < 10 ^ precision ∧ finestPlace ≤ e ∧ |x.toRat| = c * 10 ^ e

/-- Rounding keeps the value of a short decimal, however many digits it is written with. -/
theorem toRat_round_of_isShort {x : Decimal} (h : x.IsShort) : x.round.toRat = x.toRat := by
  obtain ⟨c, e, hc, hplace, habs⟩ := h
  rw [abs_toRat] at habs
  apply toRat_round_of_dvd
  by_cases hle : e ≤ x.exponent
  · -- The decimal is no finer than the unit, so that its coefficient is at most `c`.
    have hsize : x.coefficient < 10 ^ precision := by
      refine lt_of_le_of_lt ?_ hc
      have hscaled : (x.coefficient : ℚ) * 10 ^ e ≤ c * 10 ^ e := by
        rw [← habs]
        gcongr
        norm_num
      exact_mod_cast le_of_mul_le_mul_right hscaled (ten_zpow_pos e)
    have hnone : x.surplus ≤ 0 :=
      surplus_le_iff.mpr ⟨(digitCount_le_iff (by decide)).mpr hsize, by omega⟩
    rw [Nat.le_zero.mp hnone]
    exact one_dvd _
  · -- The decimal is finer than the unit: its coefficient is `c` with zeros behind it.
    obtain ⟨m, hm⟩ : ∃ m : ℕ, e = x.exponent + m := ⟨(e - x.exponent).toNat, by omega⟩
    have hcoefficient : x.coefficient = c * 10 ^ m := by
      rw [hm, ten_zpow_add, mul_comm ((10 : ℚ) ^ x.exponent), ← mul_assoc] at habs
      have hcancel := mul_right_cancel₀ (ten_zpow_pos x.exponent).ne' habs
      exact_mod_cast hcancel
    have hdigits : x.coefficient < 10 ^ (precision + m) := by
      rw [hcoefficient, Nat.pow_add]
      exact Nat.mul_lt_mul_of_pos_right hc (Nat.pow_pos (by decide))
    have hzeros : x.surplus ≤ m := surplus_le_iff.mpr
      ⟨(digitCount_le_iff (by simp [precision])).mpr hdigits, by omega⟩
    rw [hcoefficient]
    exact Dvd.dvd.mul_left (Nat.pow_dvd_pow 10 hzeros) c

/-! ## Values with few digits -/

/-- The number is a multiple of `10 ^ -f`. -/
def HasPlaces (f : ℕ) (v : ℚ) : Prop := ∃ n : ℤ, v = n * 10 ^ (-(f : ℤ))

namespace HasPlaces

variable {f : ℕ} {v w : ℚ}

theorem zero (f : ℕ) : HasPlaces f 0 := ⟨0, by simp⟩

theorem neg (h : HasPlaces f v) : HasPlaces f (-v) := by
  obtain ⟨n, rfl⟩ := h
  exact ⟨-n, by push_cast; ring⟩

theorem add (hv : HasPlaces f v) (hw : HasPlaces f w) : HasPlaces f (v + w) := by
  obtain ⟨n, rfl⟩ := hv
  obtain ⟨m, rfl⟩ := hw
  exact ⟨n + m, by push_cast; ring⟩

end HasPlaces

/-- The number is a multiple of `10 ^ -f` that takes at most `precision` digits. -/
structure Fits (f : ℕ) (v : ℚ) : Prop where
  places : HasPlaces f v
  small : |v| < 10 ^ ((precision : ℤ) - f)

theorem Fits.neg {f : ℕ} {v : ℚ} (h : Fits f v) : Fits f (-v) :=
  ⟨h.places.neg, (abs_neg v).symm ▸ h.small⟩

/-- A value with few places is short, unless its places are below the finest one. -/
theorem Fits.isShort {f : ℕ} {x : Decimal} (hf : finestPlace ≤ -(f : ℤ)) (h : Fits f x.toRat) :
    x.IsShort := by
  obtain ⟨⟨n, hn⟩, hsmall⟩ := h
  have hpos := ten_zpow_pos (-(f : ℤ))
  have habs : |x.toRat| = n.natAbs * 10 ^ (-(f : ℤ)) := by
    rw [hn, abs_mul, abs_of_pos hpos, Nat.cast_natAbs, Int.cast_abs]
  refine ⟨n.natAbs, -(f : ℤ), ?_, hf, habs⟩
  rw [habs, sub_eq_add_neg, ten_zpow_add, mul_lt_mul_iff_left₀ hpos] at hsmall
  exact_mod_cast hsmall

theorem finestPlace_le_neg {f : ℕ} (h : f ≤ 1000026) : finestPlace ≤ -(f : ℤ) := by
  rw [finestPlace]
  omega

/-! ## Arithmetic on values with few digits -/

section

variable {f : ℕ} (hf : finestPlace ≤ -(f : ℤ))
include hf

theorem toRat_add_of_fits {x y : Decimal} (h : Fits f (x.toRat + y.toRat)) :
    (x + y).toRat = x.toRat + y.toRat := by
  rw [← toRat_exactSum] at h ⊢
  rw [add_eq_round, toRat_round_of_isShort (h.isShort hf)]

theorem toRat_sub_of_fits {x y : Decimal} (h : Fits f (x.toRat - y.toRat)) :
    (x - y).toRat = x.toRat - y.toRat := by
  rw [sub_eq_add_neg, ← toRat_flip, ← toRat_exactSum] at h ⊢
  rw [sub_eq_round, toRat_round_of_isShort (h.isShort hf)]

end

/-! ## Products and whole numbers -/

/-- The product of two decimals with all its digits. -/
def exactProduct (x y : Decimal) : Decimal :=
  ⟨xor x.negative y.negative, x.coefficient * y.coefficient, x.exponent + y.exponent⟩

theorem mul_eq_round (x y : Decimal) : x * y = (exactProduct x y).round := by
  change mul x y = _
  unfold mul exactProduct
  rfl

theorem toRat_exactProduct (x y : Decimal) : (exactProduct x y).toRat = x.toRat * y.toRat := by
  have hsigned : (exactProduct x y).signed = x.signed * y.signed := by
    cases hx : x.negative <;> cases hy : y.negative <;> simp [exactProduct, signed, hx, hy]
  rw [toRat, hsigned, exactProduct, ten_zpow_add, toRat, toRat]
  push_cast
  ring

theorem toRat_mul_of_fits {f : ℕ} (hf : finestPlace ≤ -(f : ℤ)) {x y : Decimal}
    (h : Fits f (x.toRat * y.toRat)) : (x * y).toRat = x.toRat * y.toRat := by
  rw [← toRat_exactProduct] at h ⊢
  rw [mul_eq_round, toRat_round_of_isShort (h.isShort hf)]

theorem toRat_ofInt (n : ℤ) : (ofInt n).toRat = n := by
  have hsigned : (ofInt n).signed = n := by
    by_cases h : n < 0
    · simp [ofInt, signed, h, abs_of_neg h]
    · simp [ofInt, signed, h, abs_of_nonneg (not_lt.mp h)]
  rw [toRat, hsigned, ofInt, zpow_zero, mul_one]

/-- The whole part goes towards zero. -/
theorem truncate_eq_floor (x : Decimal) :
    x.truncate = if x.negative then -⌊|x.toRat|⌋ else ⌊|x.toRat|⌋ := by
  have hscale : |x.toRat| = ((x.coefficient * powerOfTen x.exponent.toNat : ℕ) : ℚ) /
      (powerOfTen (-x.exponent).toNat : ℕ) := by
    have hexponent : x.exponent = x.exponent.toNat - (-x.exponent).toNat := by omega
    rw [abs_toRat, Nat.cast_mul, cast_powerOfTen, cast_powerOfTen, mul_div_assoc,
      ← zpow_sub₀ (by norm_num), ← hexponent]
  rw [hscale, Rat.floor_natCast_div_natCast]
  rfl

theorem truncate_of_nonneg {x : Decimal} (h : 0 ≤ x.toRat) : x.truncate = ⌊x.toRat⌋ := by
  rw [truncate_eq_floor, abs_of_nonneg h]
  cases hx : x.negative with
  | false => rfl
  | true =>
    -- Only a zero may carry a minus sign.
    have hzero : x.toRat = 0 := by
      have hopposite := h
      rw [toRat_of_negative hx, neg_nonneg, ← abs_toRat] at hopposite
      exact abs_nonpos_iff.mp hopposite
    rw [hzero, Int.floor_zero, neg_zero, ite_self]

/-! ## Signs -/

theorem toRat_nonneg_of_not_negative {x : Decimal} (h : x.negative = false) : 0 ≤ x.toRat := by
  rw [toRat_of_not_negative h]
  exact mul_nonneg (Nat.cast_nonneg _) (ten_zpow_pos _).le

theorem negative_ofRounded (negative : Bool) (coefficient : ℕ) (exponent : ℤ) :
    (ofRounded negative coefficient exponent).negative = negative := by
  unfold ofRounded
  split <;> rfl

/-- Rounding keeps the sign. -/
theorem negative_round (x : Decimal) : x.round.negative = x.negative := by
  unfold round
  split
  · rfl
  · split
    · rfl
    · exact negative_ofRounded ..

/-- A share has the sign of the whole. -/
theorem negative_share (x : Decimal) (n : ℕ) : (x.share n).negative = x.negative := by
  have hrounded (c : ℕ) (e : ℤ) : (roundedQuotient x.negative c n e).negative = x.negative :=
    negative_ofRounded ..
  unfold share
  split
  · exact negative_round x
  · dsimp only
    split
    · exact hrounded ..
    · split
      · exact negative_round _
      · exact hrounded ..

/-- The opposite of a decimal below zero is not below zero. -/
theorem toRat_neg_nonneg {x : Decimal} (h : x.isBelowZero = true) : 0 ≤ (-x).toRat := by
  rw [isBelowZero, Bool.and_eq_true] at h
  apply toRat_nonneg_of_not_negative
  change (neg x).negative = false
  rw [neg, negative_round, h.1, Bool.not_true, Bool.false_and]

end Decimal

end HouseLedger
