import HouseLedger.Proofs.Decimal.Value

/-!
# Rounding and values

What rounding does to the value of a decimal depends on that value alone, not on the
digits and the exponent by which it is written (`Decimal.toRat_round_congr`). So sums and
differences of decimals of equal values have equal values. A decimal that was rounded once
is not changed by rounding it again (`Decimal.round_round`), and rounding does not see
signs (`Decimal.round_flip`). The decimals whose value it keeps are the short ones
(`Decimal.IsShort`): those of at most `Decimal.precision` digits, but for zeros behind them, and
of none below the finest place.
-/

namespace HouseLedger

namespace Decimal

/-! ## Zeros behind the last digit -/

/-- Scaling dividend and divisor leaves the nearest whole number as it is. -/
theorem divRound_mul_mul (tie : Tie) (n d : ℕ) {k : ℕ} (hk : 0 < k) :
    divRound tie (n * k) (d * k) = divRound tie n d := by
  have hquot : n * k / (d * k) = n / d := Nat.mul_div_mul_right n d hk
  have hrest : n * k % (d * k) = n % d * k := Nat.mul_mod_mul_right k n d
  have hlow : 2 * (n % d * k) < d * k ↔ 2 * (n % d) < d := by
    rw [← Nat.mul_assoc]
    exact Nat.mul_lt_mul_right hk
  have hhigh : d * k < 2 * (n % d * k) ↔ d < 2 * (n % d) := by
    rw [← Nat.mul_assoc]
    exact Nat.mul_lt_mul_right hk
  unfold divRound
  simp only [hquot, hrest, hlow, hhigh]

theorem digitCount_pos (n : ℕ) : 0 < digitCount n :=
  Nat.add_pos_right _ (List.length_pos_iff.mpr Nat.toDigits_ne_nil)

theorem lt_pow_digitCount (n : ℕ) : n < 10 ^ digitCount n :=
  (digitCount_le_iff (digitCount_pos n)).mp (Nat.le_refl _)

theorem digitCount_mul_pow {c : ℕ} (hc : 0 < c) (m : ℕ) :
    digitCount (c * 10 ^ m) = digitCount c + m := by
  have hpos := digitCount_pos c
  apply Nat.le_antisymm
  · rw [digitCount_le_iff (by omega), Nat.pow_add]
    exact Nat.mul_lt_mul_of_pos_right (lt_pow_digitCount c) (Nat.pow_pos (by decide))
  · -- A product of fewer digits would leave too few for `c`.
    by_contra hlt
    rw [Nat.not_le] at hlt
    have hpos' := digitCount_pos (c * 10 ^ m)
    have hprod : c * 10 ^ m < 10 ^ (digitCount c - 1) * 10 ^ m := by
      rw [← Nat.pow_add, ← digitCount_le_iff (by omega)]
      omega
    have hc' : c < 10 ^ (digitCount c - 1) := Nat.lt_of_mul_lt_mul_right hprod
    by_cases hone : digitCount c = 1
    · rw [hone] at hc'
      omega
    · have := (digitCount_le_iff (by omega)).mpr hc'
      omega

/-- The same value with `m` zeros more behind the last digit. -/
def padded (x : Decimal) (m : ℕ) : Decimal := ⟨x.negative, x.coefficient * 10 ^ m, x.exponent - m⟩

theorem toRat_padded (x : Decimal) (m : ℕ) : (x.padded m).toRat = x.toRat := by
  have hscale : ((x.coefficient * 10 ^ m : ℕ) : ℚ) * 10 ^ (x.exponent - m) =
      x.coefficient * 10 ^ x.exponent := by
    rw [show x.exponent - (m : ℤ) = -(m : ℤ) + x.exponent by ring, ten_zpow_add, zpow_neg,
      zpow_natCast]
    push_cast
    field_simp
  cases h : x.negative with
  | false => rw [toRat_of_not_negative h, toRat_of_not_negative (x := x.padded m) h, ← hscale]; rfl
  | true => rw [toRat_of_negative h, toRat_of_negative (x := x.padded m) h, ← hscale]; rfl

/-- If something is dropped of a decimal, then as many digits more are dropped of it as there are
more digits at its end. -/
theorem surplus_of_more_digits {x y : Decimal} {m : ℕ} (hpos : 0 < x.surplus)
    (hdigits : digitCount y.coefficient = digitCount x.coefficient + m)
    (hexponent : y.exponent = x.exponent - m) : y.surplus = x.surplus + m := by
  unfold surplus at hpos ⊢
  omega

/-- Zeros behind the last digit do not change what rounding comes to. -/
theorem toRat_round_padded (x : Decimal) (m : ℕ) : (x.padded m).round.toRat = x.round.toRat := by
  rcases Nat.eq_zero_or_pos x.coefficient with hzero | hc
  · have hnone : (x.padded m).coefficient = 0 := by rw [padded, hzero, Nat.zero_mul]
    have hshort : (x.padded m).round.toRat = (x.padded m).toRat :=
      toRat_round_of_dvd (hnone ▸ dvd_zero _)
    rw [hshort, toRat_padded, toRat_round_of_dvd (hzero ▸ dvd_zero _)]
  · have hdigits : digitCount (x.padded m).coefficient = digitCount x.coefficient + m :=
      digitCount_mul_pow hc m
    rcases Nat.eq_zero_or_pos x.surplus with hkept | hdropped
    · -- Of a decimal that is kept, only the zeros behind it are dropped.
      have hzeros : (x.padded m).surplus ≤ m := by
        have hsize := surplus_le_iff.mp hkept.le
        rw [surplus_le_iff, hdigits, padded]
        dsimp only
        omega
      have hx : powerOfTen x.surplus ∣ x.coefficient := hkept ▸ one_dvd _
      rw [toRat_round_of_dvd hx, ← toRat_padded x m]
      exact toRat_round_of_dvd (Dvd.dvd.mul_left (Nat.pow_dvd_pow 10 hzeros) _)
    · -- Otherwise the divisor has grown with the zeros.
      have hgrown : (x.padded m).surplus = x.surplus + m :=
        surplus_of_more_digits hdropped hdigits rfl
      have hquot : divRound .even (x.coefficient * 10 ^ m) (powerOfTen (x.surplus + m)) =
          divRound .even x.coefficient (powerOfTen x.surplus) := by
        rw [powerOfTen_eq, powerOfTen_eq, Nat.pow_add]
        exact divRound_mul_mul .even _ _ (Nat.pow_pos (by decide))
      have hexponent : x.exponent - (m : ℤ) + ((x.surplus + m : ℕ) : ℤ) =
          x.exponent + x.surplus := by omega
      rw [toRat_round, toRat_round, hgrown]
      simp only [padded]
      rw [hquot, hexponent]

/-! ## Rounding by value -/

/-- Two decimals of one value differ in zeros behind the last digit. -/
theorem eq_padded {x y : Decimal} (h : x.toRat = y.toRat) (hne : x.toRat ≠ 0)
    (hexponent : y.exponent ≤ x.exponent) :
    y = x.padded (x.exponent - y.exponent).toNat := by
  obtain ⟨m, hm⟩ : ∃ m : ℕ, x.exponent = m + y.exponent :=
    ⟨(x.exponent - y.exponent).toNat, by omega⟩
  have hnat : (x.exponent - y.exponent).toNat = m := by omega
  have habs : (x.coefficient : ℚ) * 10 ^ m = y.coefficient := by
    have hvalues : |x.toRat| = |y.toRat| := by rw [h]
    rw [abs_toRat, abs_toRat, hm, ten_zpow_add, ← mul_assoc] at hvalues
    exact mul_right_cancel₀ (ten_zpow_pos y.exponent).ne' hvalues
  have hcoefficient : y.coefficient = x.coefficient * 10 ^ m := by exact_mod_cast habs.symm
  have hnegative : y.negative = x.negative := by
    rw [Bool.eq_iff_iff]
    have hx := x.isBelowZero_iff
    have hy := y.isBelowZero_iff
    have hxne := mt (toRat_eq_zero_iff x).mpr hne
    have hyne : y.coefficient ≠ 0 := mt (toRat_eq_zero_iff y).mpr (h ▸ hne)
    simp only [isBelowZero, Bool.and_eq_true, bne_iff_ne, hxne, hyne, ne_eq, not_false_eq_true,
      and_true] at hx hy
    rw [hx, hy, h]
  have hplace : x.exponent - (m : ℤ) = y.exponent := by omega
  rw [hnat, padded, ← hnegative, ← hcoefficient, hplace]

/-- What rounding comes to depends on the value only. -/
theorem toRat_round_congr {x y : Decimal} (h : x.toRat = y.toRat) :
    x.round.toRat = y.round.toRat := by
  by_cases hzero : x.toRat = 0
  · have hround {z : Decimal} (hz : z.toRat = 0) : z.round.toRat = 0 :=
      (toRat_round_of_dvd ((toRat_eq_zero_iff z).mp hz ▸ dvd_zero _)).trans hz
    rw [hround hzero, hround (h ▸ hzero)]
  · rcases le_total y.exponent x.exponent with hle | hle
    · rw [eq_padded h hzero hle, toRat_round_padded]
    · rw [eq_padded h.symm (h ▸ hzero) hle, toRat_round_padded]

theorem round_flip (x : Decimal) : x.flip.round = x.round.flip := by
  have hrounded (c : ℕ) (e : ℤ) :
      ofRounded (!x.negative) c e = (ofRounded x.negative c e).flip := by
    unfold ofRounded
    split <;> rfl
  have hcoefficient : x.flip.coefficient = x.coefficient := rfl
  have hsurplus : x.flip.surplus = x.surplus := rfl
  rw [round, round, hcoefficient, hsurplus]
  by_cases hzero : x.coefficient = 0
  · rw [if_pos hzero, if_pos hzero]
    rfl
  · rw [if_neg hzero, if_neg hzero]
    by_cases hkept : x.surplus = 0
    · rw [if_pos hkept, if_pos hkept]
    · rw [if_neg hkept, if_neg hkept]
      exact hrounded _ _

/-! ## Rounded decimals -/

theorem round_of_surplus_eq_zero {x : Decimal} (hc : x.coefficient ≠ 0) (h : x.surplus = 0) :
    x.round = x := by
  rw [round, if_neg hc, if_pos h]

theorem surplus_eq_zero_iff {x : Decimal} :
    x.surplus = 0 ↔ digitCount x.coefficient ≤ precision ∧ finestPlace ≤ x.exponent := by
  rw [← Nat.le_zero, surplus_le_iff, Nat.add_zero, Nat.cast_zero, add_zero]

theorem divRound_le (tie : Tie) (n d : ℕ) : divRound tie n d ≤ n / d + 1 := by
  have := Nat.mod_lt (n / d) two_pos
  unfold divRound
  dsimp only
  split
  · omega
  · split
    · omega
    · cases tie <;> dsimp only <;> omega

/-- What is left of the digits after the surplus is dropped fits the precision. -/
theorem divRound_surplus_le (x : Decimal) :
    divRound .even x.coefficient (powerOfTen x.surplus) ≤ 10 ^ precision := by
  have hquot : x.coefficient / powerOfTen x.surplus < 10 ^ precision := by
    rw [Nat.div_lt_iff_lt_mul (powerOfTen_pos _), powerOfTen_eq, ← Nat.pow_add]
    exact (lt_pow_digitCount _).trans_le
      (Nat.pow_le_pow_right (by decide) (surplus_le_iff.mp le_rfl).1)
  exact (divRound_le ..).trans hquot

theorem digitCount_ofRounded_le {c : ℕ} (h : c ≤ 10 ^ precision) (negative : Bool) (e : ℤ) :
    digitCount (ofRounded negative c e).coefficient ≤ precision := by
  unfold ofRounded
  split
  · exact (digitCount_le_iff (by decide)).mpr (Nat.pow_lt_pow_right (by decide) (by decide))
  · next hne => exact (digitCount_le_iff (by decide)).mpr (Nat.lt_of_le_of_ne h hne)

theorem le_exponent_ofRounded (negative : Bool) (c : ℕ) (e : ℤ) :
    e ≤ (ofRounded negative c e).exponent := by
  unfold ofRounded
  split
  · exact Int.le_add_one le_rfl
  · exact le_rfl

/-- A rounded coefficient has at most `precision` digits. -/
theorem digitCount_round_le (x : Decimal) : digitCount x.round.coefficient ≤ precision := by
  unfold round
  split
  · next hzero =>
    rw [hzero]
    decide
  · split
    · next hkept => exact (surplus_eq_zero_iff.mp hkept).1
    · exact digitCount_ofRounded_le (divRound_surplus_le x) ..

/-- The last digit of a rounded decimal is at the finest place or above. -/
theorem finestPlace_le_round (x : Decimal) : finestPlace ≤ x.round.exponent := by
  unfold round
  split
  · exact le_max_left _ _
  · split
    · next hkept => exact (surplus_eq_zero_iff.mp hkept).2
    · exact (surplus_le_iff.mp le_rfl).2.trans (le_exponent_ofRounded ..)

theorem surplus_round (x : Decimal) : x.round.surplus = 0 :=
  surplus_eq_zero_iff.mpr ⟨digitCount_round_le x, finestPlace_le_round x⟩

/-- A decimal of at most `precision` digits rounds to zero only where it is below the finest
place. -/
theorem exponent_add_surplus_of_divRound_eq_zero {x : Decimal} (hc : x.coefficient ≠ 0)
    (h : divRound .even x.coefficient (powerOfTen x.surplus) = 0) :
    x.exponent + x.surplus = finestPlace := by
  have hquot : x.coefficient / powerOfTen x.surplus = 0 := by
    unfold divRound at h
    dsimp only at h
    split at h
    · exact h
    · split at h
      · exact absurd h (Nat.succ_ne_zero _)
      · exact Nat.eq_zero_of_add_eq_zero_right h
  rw [Nat.div_eq_zero_iff_lt (powerOfTen_pos _), powerOfTen_eq] at hquot
  have hsurplus : 0 < x.surplus := by
    rw [Nat.pos_iff_ne_zero]
    intro hkept
    rw [hkept] at hquot
    omega
  have hcount := (digitCount_le_iff hsurplus).mpr hquot
  have hprecision : 0 < precision := by decide
  unfold surplus at hcount hsurplus ⊢
  omega

theorem round_round (x : Decimal) : x.round.round = x.round := by
  by_cases hc : x.round.coefficient = 0
  · -- The exponent of a zero is in the range already.
    have hexponent : max finestPlace (min x.round.exponent largestPower) = x.round.exponent := by
      unfold round at hc ⊢
      split
      · have hrange : finestPlace ≤ largestPower := by decide
        dsimp only
        omega
      · next hne =>
        rw [if_neg hne] at hc
        split
        · next hkept =>
          rw [if_pos hkept] at hc
          exact absurd hc hne
        · next hdropped =>
          rw [if_neg hdropped] at hc
          unfold ofRounded at hc ⊢
          split
          · next hcarry =>
            rw [if_pos hcarry] at hc
            exact absurd hc (powerOfTen_pos _).ne'
          · next hcarry =>
            rw [if_neg hcarry] at hc
            dsimp only at hc ⊢
            rw [exponent_add_surplus_of_divRound_eq_zero hne hc]
            decide
    rw [round.eq_1 x.round, if_pos hc, hexponent]
  · exact round_of_surplus_eq_zero hc (surplus_round x)

/-! ## Short decimals -/

theorem isShort_of_surplus_eq_zero {x : Decimal} (h : x.surplus = 0) : x.IsShort :=
  have hsize := surplus_eq_zero_iff.mp h
  ⟨x.coefficient, x.exponent, (digitCount_le_iff (by decide)).mp hsize.1, hsize.2, abs_toRat x⟩

theorem isShort_congr {x y : Decimal} (h : x.toRat = y.toRat) : x.IsShort ↔ y.IsShort := by
  rw [IsShort, IsShort, h]

theorem isShort_of_toRat_eq_zero {x : Decimal} (h : x.toRat = 0) : x.IsShort :=
  ⟨0, 0, by decide, by decide, by rw [h]; simp⟩

theorem isShort_round (x : Decimal) : x.round.IsShort :=
  isShort_of_surplus_eq_zero (surplus_round x)

/-- Short decimals are those whose value is left as it is by rounding. -/
theorem toRat_round_eq_iff {x : Decimal} : x.round.toRat = x.toRat ↔ x.IsShort :=
  ⟨fun h => (isShort_congr h).mp x.isShort_round, toRat_round_of_isShort⟩

theorem IsShort.flip {x : Decimal} (h : x.IsShort) : x.flip.IsShort := by
  rwa [IsShort, toRat_flip, abs_neg]

/-! ## Arithmetic by value -/

/-- Sums of equal values are equal. -/
theorem toRat_add_congr {x x' y y' : Decimal} (hx : x.toRat = x'.toRat) (hy : y.toRat = y'.toRat) :
    (x + y).toRat = (x' + y').toRat := by
  rw [add_eq_round, add_eq_round]
  apply toRat_round_congr
  rw [toRat_exactSum, toRat_exactSum, hx, hy]

/-- Adding a zero rounds, and does nothing else. -/
theorem toRat_add_of_eq_zero (x : Decimal) {z : Decimal} (hz : z.toRat = 0) :
    (x + z).toRat = x.round.toRat := by
  rw [add_eq_round]
  apply toRat_round_congr
  rw [toRat_exactSum, hz, add_zero]

theorem isShort_add (x y : Decimal) : (x + y).IsShort := by
  rw [add_eq_round]
  exact isShort_round _

theorem toRat_add_comm (x y : Decimal) : (x + y).toRat = (y + x).toRat := by
  rw [add_eq_round, add_eq_round]
  apply toRat_round_congr
  rw [toRat_exactSum, toRat_exactSum, add_comm]

/-- Sums of opposite values are opposite. -/
theorem toRat_add_opposite {x x' y y' : Decimal} (hx : x'.toRat = -x.toRat)
    (hy : y'.toRat = -y.toRat) : (x' + y').toRat = -(x + y).toRat := by
  rw [add_eq_round, add_eq_round, ← toRat_flip, ← round_flip]
  apply toRat_round_congr
  rw [toRat_flip, toRat_exactSum, toRat_exactSum, hx, hy, neg_add]

theorem sub_eq_add_flip (x y : Decimal) : x - y = x + y.flip := rfl

theorem toRat_neg (x : Decimal) : (-x).toRat = -x.round.toRat := by
  rw [← toRat_flip, ← round_flip]
  change (neg x).toRat = _
  apply toRat_round_congr
  by_cases hzero : x.coefficient = 0
  · simp [toRat, signed, flip, hzero]
  · rw [bne_iff_ne.mpr hzero, Bool.and_true]
    rfl

theorem toRat_magnitude (x : Decimal) : x.magnitude.toRat = |x.round.toRat| := by
  have hnonneg : 0 ≤ x.magnitude.toRat := toRat_nonneg_of_not_negative (negative_round _)
  rw [← abs_of_nonneg hnonneg]
  cases h : x.negative with
  | false => rw [magnitude, ← h]
  | true =>
    have hflip : { x with negative := false } = x.flip := by rw [flip, h, Bool.not_true]
    rw [magnitude, hflip, round_flip, toRat_flip, abs_neg]

theorem round_add (x y : Decimal) : (x + y).round = x + y := by
  rw [add_eq_round, round_round]

/-- The opposite of a short decimal is exact. -/
theorem IsShort.toRat_neg {x : Decimal} (h : x.IsShort) : (-x).toRat = -x.toRat := by
  rw [Decimal.toRat_neg, toRat_round_eq_iff.mpr h]

theorem round_neg (x : Decimal) : (-x).round = -x := by
  change (neg x).round = neg x
  exact round_round _

end Decimal

end HouseLedger
