import HouseLedger.Proofs.Decimal.Congruence

/-!
# Rounding errors

How far a computed decimal is from what it stands for. One rounding is off by half a unit of the
last digit that is kept:

* `Decimal.abs_toRat_round_sub_le`: at most half of `10 ^ (m - precision)` for a value of at most
  `10 ^ m`, or half of the finest place where that is more;
* `Decimal.abs_toRat_round_sub_le_of_isShort`: no short decimal is nearer. So a short sum does not
  grow by more than twice what is added (`Decimal.abs_toRat_add_le_of_isShort`);
* `Decimal.abs_toRat_share_sub_le`: for a share, at most half of `10 ^ (1 - precision)` times the
  share itself, so that all shares together are off by that part of the whole, however many
  there are, or half of the finest place where that is more
  (`Decimal.abs_toRat_share_sub_le_of_isNormal`).
-/

namespace HouseLedger

namespace Decimal

/-! ## Nearest whole numbers -/

/-- The nearest whole number to a quotient is off by half of the divisor at most. -/
theorem divRound_half (tie : Tie) (n : ℕ) {d : ℕ} (hd : 0 < d) :
    2 * (divRound tie n d * d) ≤ 2 * n + d ∧ 2 * n ≤ 2 * (divRound tie n d * d) + d := by
  have hdiv := Nat.div_add_mod n d
  have hmod := Nat.mod_lt n hd
  have hdown : n / d * d = d * (n / d) := Nat.mul_comm ..
  have hup : (n / d + 1) * d = d * (n / d) + d := by ring
  unfold divRound
  dsimp only
  split
  · omega
  · split
    · omega
    · -- A tie may go to either neighbour.
      cases tie with
      | away =>
        dsimp only
        omega
      | even =>
        dsimp only
        rcases Nat.mod_two_eq_zero_or_one (n / d) with heven | hodd
        · rw [heven, Nat.add_zero]
          omega
        · rw [hodd]
          omega

/-- No multiple of the divisor is nearer. -/
theorem abs_divRound_mul_sub_le_of_mul (tie : Tie) (n : ℕ) {d : ℕ} (hd : 0 < d) (k : ℕ) :
    |((divRound tie n d * d : ℕ) : ℤ) - n| ≤ |((k * d : ℕ) : ℤ) - n| := by
  obtain ⟨hhigh, hlow⟩ := divRound_half tie n hd
  rw [Int.abs_eq_natAbs, Int.abs_eq_natAbs]
  rcases lt_trichotomy k (divRound tie n d) with hlt | rfl | hgt
  · have hstep := Nat.mul_le_mul_right d (Nat.succ_le_of_lt hlt)
    rw [Nat.succ_mul] at hstep
    omega
  · exact le_rfl
  · have hstep := Nat.mul_le_mul_right d (Nat.succ_le_of_lt hgt)
    rw [Nat.succ_mul] at hstep
    omega

theorem abs_divRound_mul_sub_le (tie : Tie) (n : ℕ) {d : ℕ} (hd : 0 < d) {u : ℚ} (hu : 0 ≤ u) :
    |(divRound tie n d : ℚ) * u - n / d * u| ≤ u / 2 := by
  have hd' : (0 : ℚ) < d := by exact_mod_cast hd
  obtain ⟨hhigh, hlow⟩ := divRound_half tie n hd
  have hhigh' : 2 * ((divRound tie n d : ℚ) * d) ≤ 2 * n + d := by exact_mod_cast hhigh
  have hlow' : 2 * (n : ℚ) ≤ 2 * ((divRound tie n d : ℚ) * d) + d := by exact_mod_cast hlow
  have hquot : (n : ℚ) / d * d = n := div_mul_cancel₀ _ hd'.ne'
  have hhalf : |(divRound tie n d : ℚ) - n / d| ≤ 1 / 2 := by
    rw [abs_le]
    constructor
    · refine le_of_mul_le_mul_right ?_ hd'
      linarith [sub_mul (divRound tie n d : ℚ) (n / d) d]
    · refine le_of_mul_le_mul_right ?_ hd'
      linarith [sub_mul (divRound tie n d : ℚ) (n / d) d]
  calc |(divRound tie n d : ℚ) * u - n / d * u|
      = |(divRound tie n d : ℚ) - n / d| * u := by rw [← sub_mul, abs_mul, abs_of_nonneg hu]
    _ ≤ 1 / 2 * u := by gcongr
    _ = u / 2 := by ring

/-! ## Decimals of one sign -/

/-- What a decimal is off from a number of its sign, its magnitude is off from that of the
number. -/
theorem abs_toRat_sub (negative : Bool) (c : ℕ) (e : ℤ) {v w : ℚ}
    (hw : w = if negative then -v else v) :
    |toRat ⟨negative, c, e⟩ - w| = |(c : ℚ) * 10 ^ e - v| := by
  cases negative with
  | false => rw [toRat_of_not_negative rfl, hw, if_neg Bool.false_ne_true]
  | true => rw [toRat_of_negative rfl, hw, if_pos rfl, neg_sub_neg, abs_sub_comm]

theorem toRat_eq_ite (x : Decimal) :
    x.toRat = if x.negative then -(x.coefficient * 10 ^ x.exponent : ℚ)
      else x.coefficient * 10 ^ x.exponent := by
  cases h : x.negative with
  | false => exact toRat_of_not_negative h
  | true => exact toRat_of_negative h

theorem precision_pos : 0 < precision := by decide

/-! ## Rounding -/

/-- The value before rounding, counted in units of the last digit that is kept. -/
theorem coefficient_mul_eq (x : Decimal) : (x.coefficient : ℚ) * 10 ^ x.exponent =
    x.coefficient / powerOfTen x.surplus * 10 ^ (x.exponent + (x.surplus : ℤ)) := by
  rw [cast_powerOfTen, ten_zpow_add]
  field_simp

theorem abs_toRat_round_sub_eq (x : Decimal) : |x.round.toRat - x.toRat| =
    |(divRound .even x.coefficient (powerOfTen x.surplus) : ℚ) * 10 ^ (x.exponent + x.surplus) -
      x.coefficient * 10 ^ x.exponent| := by
  rw [toRat_round, abs_toRat_sub _ _ _ x.toRat_eq_ite]

/-- Rounding is off by half a unit of the last digit that it keeps. -/
theorem abs_toRat_round_sub_le_unit (x : Decimal) :
    |x.round.toRat - x.toRat| ≤ 10 ^ (x.exponent + (x.surplus : ℤ)) / 2 := by
  rw [abs_toRat_round_sub_eq, coefficient_mul_eq]
  exact abs_divRound_mul_sub_le .even _ (powerOfTen_pos _) (ten_zpow_pos _).le

/-- No multiple of that unit is nearer. -/
theorem abs_toRat_round_sub_le_of_mul (x : Decimal) (k : ℕ) : |x.round.toRat - x.toRat| ≤
    |(k : ℚ) * 10 ^ (x.exponent + (x.surplus : ℤ)) - x.coefficient * 10 ^ x.exponent| := by
  have hunits (k : ℕ) :
      |(k : ℚ) * 10 ^ (x.exponent + (x.surplus : ℤ)) - x.coefficient * 10 ^ x.exponent| =
        |((k * powerOfTen x.surplus : ℕ) : ℤ) - (x.coefficient : ℤ)| * 10 ^ x.exponent := by
    push_cast
    rw [cast_powerOfTen, ten_zpow_add, ← abs_of_pos (ten_zpow_pos x.exponent), ← abs_mul,
      abs_of_pos (ten_zpow_pos x.exponent)]
    congr 1
    ring
  rw [abs_toRat_round_sub_eq, hunits, hunits]
  have hnearest := abs_divRound_mul_sub_le_of_mul .even x.coefficient (powerOfTen_pos x.surplus) k
  exact mul_le_mul_of_nonneg_right (by exact_mod_cast hnearest) (ten_zpow_pos _).le

/-- Rounding a value of at most `10 ^ m` is off by half of `10 ^ (m - precision)` at most, or by
half of the finest place. -/
theorem abs_toRat_round_sub_le {x : Decimal} {m : ℤ} (h : |x.toRat| ≤ 10 ^ m) :
    |x.round.toRat - x.toRat| ≤ 10 ^ max (m - precision) finestPlace / 2 := by
  have hunit := ten_zpow_pos (max (m - precision) finestPlace)
  have hkept (hvalue : x.round.toRat = x.toRat) :
      |x.round.toRat - x.toRat| ≤ 10 ^ max (m - precision) finestPlace / 2 := by
    rw [hvalue, sub_self, abs_zero]
    linarith
  rcases Nat.eq_zero_or_pos x.surplus with hnone | hdropped
  · exact hkept (toRat_round_of_dvd (hnone ▸ one_dvd _))
  · by_cases hplace : x.exponent + (x.surplus : ℤ) ≤ max (m - precision) finestPlace
    · have hpow : (10 : ℚ) ^ (x.exponent + (x.surplus : ℤ)) ≤
          10 ^ max (m - precision) finestPlace :=
        zpow_le_zpow_right₀ (by norm_num) hplace
      exact (abs_toRat_round_sub_le_unit x).trans (by linarith)
    · -- The value has a digit more than it should, so that it is `10 ^ m` itself.
      have hsurplus : (x.surplus : ℤ) = digitCount x.coefficient - precision := by
        unfold surplus at hdropped hplace ⊢
        omega
      obtain ⟨d, hd⟩ : ∃ d, digitCount x.coefficient = d + 1 :=
        ⟨digitCount x.coefficient - 1, by have := digitCount_pos x.coefficient; omega⟩
      have hprecision := precision_pos
      have hlarge : 10 ^ d ≤ x.coefficient := pow_le_of_lt_digitCount (by omega) (by omega)
      have hten : (10 : ℚ) ^ ((d : ℤ) + x.exponent) ≤ |x.toRat| := by
        rw [abs_toRat, ten_zpow_add, zpow_natCast]
        exact mul_le_mul_of_nonneg_right (by exact_mod_cast hlarge) (ten_zpow_pos _).le
      have hdm : (d : ℤ) + x.exponent ≤ m :=
        (zpow_le_zpow_iff_right₀ (by norm_num)).mp (hten.trans h)
      obtain rfl : m = d + x.exponent := by omega
      refine hkept (toRat_round_of_isShort ⟨1, d + x.exponent, by decide, ?_, ?_⟩)
      · omega
      · rw [Nat.cast_one, one_mul]
        exact le_antisymm h hten

/-- Where digits are dropped for their number only, those that are left reach back to the unit of the
last one. -/
theorem unit_mul_pow_le {x : Decimal} (hplace : finestPlace < x.exponent + (x.surplus : ℤ))
    (hdropped : 0 < x.surplus) :
    (10 : ℚ) ^ (x.exponent + (x.surplus : ℤ)) * 10 ^ (precision - 1) ≤
      x.coefficient * 10 ^ x.exponent := by
  have hsurplus : (x.surplus : ℤ) = digitCount x.coefficient - precision := by
    unfold surplus at hplace hdropped ⊢
    omega
  have hlarge : 10 ^ (x.surplus + (precision - 1)) ≤ x.coefficient :=
    pow_le_of_lt_digitCount (by omega) (by have := precision_pos; omega)
  have hcast : (10 : ℚ) ^ (x.surplus + (precision - 1)) ≤ x.coefficient := by exact_mod_cast hlarge
  calc (10 : ℚ) ^ (x.exponent + (x.surplus : ℤ)) * 10 ^ (precision - 1)
      = 10 ^ (x.surplus + (precision - 1)) * 10 ^ x.exponent := by
        rw [ten_zpow_add, zpow_natCast, pow_add]
        ring
    _ ≤ x.coefficient * 10 ^ x.exponent :=
        mul_le_mul_of_nonneg_right hcast (ten_zpow_pos _).le

/-- No short decimal is nearer than the one that rounding gives. -/
theorem abs_toRat_round_sub_le_of_isShort (x : Decimal) {y : Decimal} (hy : y.IsShort) :
    |x.round.toRat - x.toRat| ≤ |y.toRat - x.toRat| := by
  obtain ⟨c, e, hc, hplace, habs⟩ := hy
  refine le_trans ?_ (abs_abs_sub_abs_le y.toRat x.toRat)
  rw [habs, abs_toRat x]
  by_cases hle : x.exponent + (x.surplus : ℤ) ≤ e
  · -- The short decimal is a multiple of the unit.
    obtain ⟨m, rfl⟩ : ∃ m : ℕ, e = m + (x.exponent + (x.surplus : ℤ)) :=
      ⟨(e - (x.exponent + (x.surplus : ℤ))).toNat, by omega⟩
    have hmul := abs_toRat_round_sub_le_of_mul x (c * 10 ^ m)
    rwa [Nat.cast_mul, Nat.cast_pow, Nat.cast_ofNat, mul_assoc, ← zpow_natCast,
      ← ten_zpow_add] at hmul
  · -- The short decimal is finer, and then it is nearer to zero than `10 ^ 27` units, which the
    -- value reaches.
    rcases Nat.eq_zero_or_pos x.surplus with hnone | hdropped
    · rw [toRat_round_of_dvd (hnone ▸ one_dvd _), sub_self, abs_zero]
      exact abs_nonneg _
    · have hreached := unit_mul_pow_le (hplace.trans_lt (not_le.mp hle)) hdropped
      have hnearer : (c : ℚ) * 10 ^ e ≤
          10 ^ (x.exponent + (x.surplus : ℤ)) * 10 ^ (precision - 1) := by
        have hc' : (c : ℚ) ≤ 10 ^ precision := by exact_mod_cast hc.le
        have hten : (10 : ℚ) ^ e ≤ 10 ^ (x.exponent + (x.surplus : ℤ) - 1) :=
          zpow_le_zpow_right₀ (by norm_num) (by omega)
        calc (c : ℚ) * 10 ^ e ≤ 10 ^ precision * 10 ^ (x.exponent + (x.surplus : ℤ) - 1) :=
              mul_le_mul hc' hten (ten_zpow_pos _).le (by positivity)
          _ = 10 ^ (x.exponent + (x.surplus : ℤ)) * 10 ^ (precision - 1) := by
              rw [← zpow_natCast, ← zpow_natCast, ← ten_zpow_add, ← ten_zpow_add]
              congr 1
              have := precision_pos
              omega
      refine (abs_toRat_round_sub_le_of_mul x (10 ^ (precision - 1))).trans ?_
      rw [Nat.cast_pow, Nat.cast_ofNat, mul_comm, abs_of_nonpos (sub_nonpos.mpr hreached),
        abs_of_nonpos (sub_nonpos.mpr (hnearer.trans hreached))]
      linarith

/-- Rounding at most doubles a magnitude. -/
theorem abs_toRat_round_le (x : Decimal) : |x.round.toRat| ≤ 2 * |x.toRat| := by
  have hzero := abs_toRat_round_sub_le_of_isShort x (isShort_of_toRat_eq_zero toRat_zero)
  rw [toRat_zero, zero_sub, abs_neg] at hzero
  have := abs_sub_abs_le_abs_sub x.round.toRat x.toRat
  linarith

/-- A sum is at most twice as large as its summands together. -/
theorem abs_toRat_add_le (x y : Decimal) : |(x + y).toRat| ≤ 2 * (|x.toRat| + |y.toRat|) := by
  have hround := abs_toRat_round_le (exactSum x y)
  rw [add_eq_round]
  rw [toRat_exactSum] at hround
  have := abs_add_le x.toRat y.toRat
  linarith

/-- A short decimal does not grow by more than twice what is added to it. -/
theorem abs_toRat_add_le_of_isShort {x : Decimal} (hx : x.IsShort) (y : Decimal) :
    |(x + y).toRat| ≤ |x.toRat| + 2 * |y.toRat| := by
  have hnearest := abs_toRat_round_sub_le_of_isShort (exactSum x y) hx
  rw [toRat_exactSum, sub_add_cancel_left, abs_neg] at hnearest
  rw [add_eq_round]
  have := abs_sub_abs_le_abs_sub (exactSum x y).round.toRat (x.toRat + y.toRat)
  have := abs_add_le x.toRat y.toRat
  linarith

/-! ## Shares -/

/-- The last digit of a rounded quotient stands `precision` places behind the first, or at the
finest place. -/
theorem ten_zpow_lastPlace_le (negative : Bool) {c n : ℕ} (hc : 0 < c) (hn : 0 < n) (e : ℤ) :
    (10 : ℚ) ^ (e - (precision + digitCount n : ℕ) + (surplus ⟨negative,
        c * powerOfTen (precision + digitCount n) / n, e - (precision + digitCount n : ℕ)⟩ : ℤ)) ≤
      max ((c : ℚ) * 10 ^ e / n * 10 ^ (1 - (precision : ℤ))) (10 ^ finestPlace) := by
  obtain ⟨-, hlong⟩ := precision_lt_digitCount_scaled hc hn
  set scale := precision + digitCount n
  set quotient : Decimal := ⟨negative, c * powerOfTen scale / n, e - scale⟩ with hquotient
  by_cases hplace : e - scale + (quotient.surplus : ℤ) ≤ finestPlace
  · exact (zpow_le_zpow_right₀ (by norm_num) hplace).trans (le_max_right _ _)
  · refine le_trans ?_ (le_max_left _ _)
    have hdropped : 0 < quotient.surplus := by
      rw [show c * powerOfTen scale / n = quotient.coefficient from rfl] at hlong
      unfold surplus
      omega
    have hunit := unit_mul_pow_le (x := quotient) (not_le.mp hplace) hdropped
    have hwhole : ((c * powerOfTen scale / n : ℕ) : ℚ) ≤ c * 10 ^ (scale : ℤ) / n := by
      rw [← cast_powerOfTen scale, ← Nat.cast_mul]
      exact Nat.cast_div_le
    have hpart : (10 : ℚ) ^ (precision - 1) * 10 ^ (1 - (precision : ℤ)) = 1 := by
      have hnone : ((precision - 1 : ℕ) : ℤ) + (1 - precision) = 0 := rfl
      rw [← zpow_natCast, ← ten_zpow_add, hnone, zpow_zero]
    calc (10 : ℚ) ^ (e - scale + quotient.surplus)
        = 10 ^ (e - scale + quotient.surplus) * 10 ^ (precision - 1) *
            10 ^ (1 - (precision : ℤ)) := by
          rw [mul_assoc, hpart, mul_one]
      _ ≤ (c * powerOfTen scale / n : ℕ) * 10 ^ (e - scale) * 10 ^ (1 - (precision : ℤ)) :=
          mul_le_mul_of_nonneg_right hunit (ten_zpow_pos _).le
      _ ≤ c * 10 ^ (scale : ℤ) / n * 10 ^ (e - scale) * 10 ^ (1 - (precision : ℤ)) :=
          mul_le_mul_of_nonneg_right (mul_le_mul_of_nonneg_right hwhole (ten_zpow_pos _).le)
            (ten_zpow_pos _).le
      _ = c * 10 ^ e / n * 10 ^ (1 - (precision : ℤ)) := by
          rw [zpow_sub₀ (by norm_num) e]
          field_simp

theorem abs_toRat_roundedQuotient_sub_le (negative : Bool) {c n : ℕ} (hc : 0 < c) (hn : 0 < n)
    (e : ℤ) :
    |(roundedQuotient negative c n e).toRat - toRat ⟨negative, c, e⟩ / n| ≤
      max ((c : ℚ) * 10 ^ e / n * 10 ^ (1 - (precision : ℤ))) (10 ^ finestPlace) / 2 := by
  have hplace := ten_zpow_lastPlace_le negative hc hn e
  unfold roundedQuotient
  dsimp only
  set scale := precision + digitCount n
  set dropped := surplus ⟨negative, c * powerOfTen scale / n, e - scale⟩
  have hdivisor : 0 < n * powerOfTen dropped := Nat.mul_pos hn (powerOfTen_pos dropped)
  -- The quotient before rounding is exact.
  have hquot : (c : ℚ) * 10 ^ e / n = (c * powerOfTen scale : ℕ) / (n * powerOfTen dropped : ℕ) *
      10 ^ (e - scale + dropped) := by
    have hn' : (0 : ℚ) < n := by exact_mod_cast hn
    push_cast
    rw [cast_powerOfTen, cast_powerOfTen, ten_zpow_add, zpow_sub₀ (by norm_num)]
    field_simp
  have hexact : toRat ⟨negative, c, e⟩ / n =
      if negative then -(c * 10 ^ e / n : ℚ) else c * 10 ^ e / n := by
    rw [toRat_eq_ite]
    split
    · rw [neg_div]
    · rfl
  rw [toRat_ofRounded, abs_toRat_sub _ _ _ hexact]
  have hhalf := abs_divRound_mul_sub_le .even (c * powerOfTen scale) hdivisor
    (ten_zpow_pos (e - scale + dropped)).le
  rw [← hquot] at hhalf
  linarith

/-- A share is off by a part of it that does not depend on the number of shares, or else by half of
the finest place. -/
theorem abs_toRat_share_sub_le (x : Decimal) {n : ℕ} (hn : 0 < n) :
    |(x.share n).toRat - x.toRat / n| ≤
      max (|x.toRat| / n * 10 ^ (1 - (precision : ℤ))) (10 ^ finestPlace) / 2 := by
  by_cases hx : x.coefficient = 0
  · have hvalue := (toRat_eq_zero_iff x).mpr hx
    rw [share, if_pos hx, toRat_round_of_isShort (isShort_of_toRat_eq_zero hvalue), hvalue]
    have := ten_zpow_pos finestPlace
    simp only [zero_div, sub_zero, abs_zero, zero_mul]
    positivity
  · rw [toRat_share hx hn, abs_toRat]
    exact abs_toRat_roundedQuotient_sub_le x.negative (Nat.pos_of_ne_zero hx) hn x.exponent

/-- The finest place is too fine to matter: the value is zero, or large enough that `precision`
digits do not reach below it. -/
def IsNormal (v : ℚ) : Prop := v = 0 ∨ 10 ^ (finestPlace + precision - 1) ≤ |v|

/-- A share in this range is off by a part of it only. -/
theorem abs_toRat_share_sub_le_of_isNormal {x : Decimal} {n : ℕ} (hn : 0 < n)
    (h : IsNormal (x.toRat / n)) :
    |(x.share n).toRat - x.toRat / n| ≤ |x.toRat| / n * 10 ^ (1 - (precision : ℤ)) / 2 := by
  have hn' : (0 : ℚ) < n := by exact_mod_cast hn
  rcases h with hzero | hlarge
  · have hvalue : x.toRat = 0 := (div_eq_zero_iff.mp hzero).resolve_right hn'.ne'
    rw [share, if_pos ((toRat_eq_zero_iff x).mp hvalue),
      toRat_round_of_isShort (isShort_of_toRat_eq_zero hvalue), hvalue]
    simp
  · refine (abs_toRat_share_sub_le x hn).trans_eq ?_
    rw [abs_div, abs_of_pos hn'] at hlarge
    have hplace : (10 : ℚ) ^ finestPlace ≤ |x.toRat| / n * 10 ^ (1 - (precision : ℤ)) :=
      calc (10 : ℚ) ^ finestPlace
          = 10 ^ (finestPlace + precision - 1) * 10 ^ (1 - (precision : ℤ)) := by
            rw [← ten_zpow_add]
            congr 1
        _ ≤ _ := mul_le_mul_of_nonneg_right hlarge (ten_zpow_pos _).le
    rw [max_eq_left hplace]

end Decimal

end HouseLedger
