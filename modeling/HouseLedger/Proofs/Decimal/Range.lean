import HouseLedger.Decimal.Range
import HouseLedger.Proofs.Decimal.Rounding
import HouseLedger.Proofs.Related

/-!
# Decimals in range

A computation fails if its rounded result is too large (`Decimal.failsIff_checked`). What is too
large is told by the value alone: it is at least `Decimal.bound` (`Decimal.isTooLarge_iff`),
whatever the exponent by which it is written. So the opposite of a number in range is in range, and
so is what is rounded to a short decimal in range.
-/

namespace HouseLedger

namespace Decimal

/-- The least magnitude that is too large to be computed. -/
def bound : ℚ := 10 ^ (largestPower + 1)

/-- The number is not too large to be computed. -/
def InRange (v : ℚ) : Prop := |v| < bound

theorem bound_pos : 0 < bound := ten_zpow_pos _

theorem ten_pow_lt_bound : (10 : ℚ) ^ 29 < bound := by
  rw [bound, ← zpow_natCast]
  exact zpow_lt_zpow_right₀ (by norm_num) (by decide)

theorem inRange_zero : InRange 0 := by
  rw [InRange, abs_zero]
  exact bound_pos

@[simp] theorem inRange_neg {v : ℚ} : InRange (-v) ↔ InRange v := by
  rw [InRange, InRange, abs_neg]

theorem Fits.inRange {f : ℕ} {v : ℚ} (h : Fits f v) : InRange v :=
  calc |v| < 10 ^ ((precision : ℤ) - f) := h.small
    _ ≤ 10 ^ ((29 : ℕ) : ℤ) := by
      refine zpow_le_zpow_right₀ (by norm_num) ?_
      have hdigits : precision = 28 := rfl
      omega
    _ < bound := zpow_natCast (10 : ℚ) 29 ▸ ten_pow_lt_bound

theorem pow_le_of_lt_digitCount {c k : ℕ} (hk : 0 < k) (h : k < digitCount c) : 10 ^ k ≤ c := by
  rw [← not_lt, ← digitCount_le_iff hk]
  omega

theorem pow_digitCount_le {c : ℕ} (hc : c ≠ 0) : 10 ^ (digitCount c - 1) ≤ c := by
  rcases Nat.eq_or_lt_of_le (digitCount_pos c) with hone | hmore
  · rw [← hone]
    exact Nat.pos_of_ne_zero hc
  · exact pow_le_of_lt_digitCount (by omega) (by omega)

/-- Whether a decimal is too large depends on its value only. -/
theorem isTooLarge_iff (x : Decimal) : x.isTooLarge = true ↔ bound ≤ |x.toRat| := by
  rcases eq_or_ne x.coefficient 0 with hzero | hne
  · rw [(toRat_eq_zero_iff x).mpr hzero, abs_zero]
    refine iff_of_false ?_ (not_le.mpr bound_pos)
    simp [isTooLarge, hzero]
  · have hcount := digitCount_pos x.coefficient
    rw [isTooLarge, bne_iff_ne.mpr hne, Bool.true_and, decide_eq_true_iff, abs_toRat, bound]
    constructor
    · intro hlarge
      have hdigits : (10 : ℚ) ^ ((digitCount x.coefficient - 1 : ℕ) : ℤ) ≤ x.coefficient := by
        rw [zpow_natCast]
        exact_mod_cast pow_digitCount_le hne
      calc (10 : ℚ) ^ (largestPower + 1)
          ≤ 10 ^ (((digitCount x.coefficient - 1 : ℕ) : ℤ) + x.exponent) :=
            zpow_le_zpow_right₀ (by norm_num) (by omega)
        _ = 10 ^ ((digitCount x.coefficient - 1 : ℕ) : ℤ) * 10 ^ x.exponent := ten_zpow_add ..
        _ ≤ x.coefficient * 10 ^ x.exponent :=
            mul_le_mul_of_nonneg_right hdigits (ten_zpow_pos _).le
    · intro hlarge
      by_contra hsmall
      have hdigits : (x.coefficient : ℚ) < 10 ^ (digitCount x.coefficient : ℤ) := by
        rw [zpow_natCast]
        exact_mod_cast lt_pow_digitCount x.coefficient
      have hlt : (x.coefficient : ℚ) * 10 ^ x.exponent < 10 ^ (largestPower + 1) :=
        calc (x.coefficient : ℚ) * 10 ^ x.exponent
            < 10 ^ (digitCount x.coefficient : ℤ) * 10 ^ x.exponent :=
              mul_lt_mul_of_pos_right hdigits (ten_zpow_pos _)
          _ = 10 ^ (digitCount x.coefficient + x.exponent) := (ten_zpow_add ..).symm
          _ ≤ 10 ^ (largestPower + 1) := zpow_le_zpow_right₀ (by norm_num) (by omega)
      exact absurd hlarge (not_le.mpr hlt)

theorem isTooLarge_eq_false_iff (x : Decimal) : x.isTooLarge = false ↔ InRange x.toRat := by
  rw [InRange, ← not_le, ← isTooLarge_iff, Bool.not_eq_true]

theorem checked_eq_ok_iff {x y : Decimal} : x.checked = .ok y ↔ InRange x.toRat ∧ x = y := by
  rw [← isTooLarge_eq_false_iff, checked]
  cases x.isTooLarge <;> simp

theorem checked_of_inRange {x : Decimal} (h : InRange x.toRat) : x.checked = .ok x :=
  checked_eq_ok_iff.mpr ⟨h, rfl⟩

/-- A computation fails if its result is too large, and only then. -/
theorem failsIff_checked (x : Decimal) :
    Outcome.FailsIff .overflow (¬ InRange x.toRat) x.checked := by
  by_cases h : InRange x.toRat
  · rw [checked_of_inRange h]
    exact .ok x (not_not.mpr h)
  · have hlarge : x.isTooLarge = true := by
      rwa [← Bool.not_eq_false, isTooLarge_eq_false_iff]
    rw [checked, if_pos hlarge]
    exact .error h

theorem isTooLarge_congr {x y : Decimal} (h : x.toRat = y.toRat) : x.isTooLarge = y.isTooLarge := by
  rw [Bool.eq_iff_iff, isTooLarge_iff, isTooLarge_iff, h]

/-- Whether a result is too large, and what it is worth otherwise, depends on its value only. -/
theorem map_toRat_checked_congr {x y : Decimal} (h : x.toRat = y.toRat) :
    x.checked.map toRat = y.checked.map toRat := by
  rw [checked, checked, isTooLarge_congr h]
  split
  · rfl
  · exact congrArg Except.ok h

end Decimal

end HouseLedger
