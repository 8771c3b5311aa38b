import HouseLedger.Proofs.Amount
import HouseLedger.Proofs.Decimal.Range

/-!
# Decimals of one value

An amount can be written with more or fewer zeros, and then it is another decimal of the same
value. Decimals of one value and one sign (`Decimal.Same`) cannot be told apart by arithmetic:
sums, differences, opposites and shares of them are of one value and one sign again, and what is
shown of them is the same text.

`Decimal.Congruence` says of a relation that arithmetic respects it. There are two that matter,
`Congruence.of_same` and, for ledgers that differ otherwise than in their amounts,
`Congruence.of_eq`.
-/

namespace HouseLedger

namespace Decimal

/-! ## Quotients -/

theorem digitCount_mono {m n : ℕ} (h : m ≤ n) : digitCount m ≤ digitCount n :=
  (digitCount_le_iff (digitCount_pos n)).mpr (h.trans_lt (lt_pow_digitCount n))

/-- A quotient has a digit more for every zero behind the dividend. -/
theorem digitCount_mul_pow_div {c n : ℕ} (hle : n ≤ c) (hn : 0 < n) (m : ℕ) :
    digitCount (c * 10 ^ m / n) = digitCount (c / n) + m := by
  have hpos : 0 < c / n := Nat.div_pos hle hn
  apply Nat.le_antisymm
  · rw [digitCount_le_iff (by have := digitCount_pos (c / n); omega), Nat.div_lt_iff_lt_mul hn,
      Nat.pow_add, Nat.mul_right_comm]
    refine Nat.mul_lt_mul_of_pos_right ?_ (Nat.pow_pos (by decide))
    rw [← Nat.div_lt_iff_lt_mul hn]
    exact lt_pow_digitCount _
  · rw [← digitCount_mul_pow hpos]
    refine digitCount_mono ?_
    rw [Nat.mul_comm (c / n), Nat.mul_comm c]
    exact Nat.mul_div_le_mul_div_assoc ..

/-- A dividend is scaled so far that its quotient has digits beyond the precision. -/
theorem precision_lt_digitCount_scaled {c n : ℕ} (hc : 0 < c) (hn : 0 < n) :
    n ≤ c * powerOfTen (precision + digitCount n) ∧
      precision < digitCount (c * powerOfTen (precision + digitCount n) / n) := by
  have hlarge : 10 ^ precision * n ≤ c * powerOfTen (precision + digitCount n) := by
    rw [powerOfTen_eq, Nat.pow_add]
    calc 10 ^ precision * n ≤ 10 ^ precision * 10 ^ digitCount n :=
          Nat.mul_le_mul_left _ (lt_pow_digitCount n).le
      _ ≤ c * (10 ^ precision * 10 ^ digitCount n) := Nat.le_mul_of_pos_left _ hc
  refine ⟨(Nat.le_mul_of_pos_left n (Nat.pow_pos (by decide))).trans hlarge, ?_⟩
  by_contra hshort
  have hlt := (digitCount_le_iff (k := precision) (by decide)).mp (not_lt.mp hshort)
  exact absurd ((Nat.le_div_iff_mul_le hn).mpr hlarge) (not_le.mpr hlt)

/-- Zeros behind the last digit of the dividend do not change a rounded quotient. -/
theorem roundedQuotient_padded (negative : Bool) {c n : ℕ} (hc : 0 < c) (hn : 0 < n) (e : ℤ)
    (m : ℕ) :
    roundedQuotient negative (c * 10 ^ m) n (e - m) = roundedQuotient negative c n e := by
  obtain ⟨hle, hlong⟩ := precision_lt_digitCount_scaled hc hn
  set scale := precision + digitCount n with hscale
  set quotient : Decimal := ⟨negative, c * powerOfTen scale / n, e - scale⟩ with hquotient
  have hdividend : c * 10 ^ m * powerOfTen scale = c * powerOfTen scale * 10 ^ m :=
    Nat.mul_right_comm ..
  have hdropped : 0 < quotient.surplus := by
    rw [Nat.pos_iff_ne_zero]
    intro hkept
    exact absurd (surplus_eq_zero_iff.mp hkept).1 (not_le.mpr hlong)
  have hsurplus :
      surplus ⟨negative, c * powerOfTen scale * 10 ^ m / n, e - m - scale⟩ = quotient.surplus + m :=
    surplus_of_more_digits hdropped (digitCount_mul_pow_div hle hn m) (sub_right_comm ..)
  have hdivisor : n * powerOfTen (quotient.surplus + m) =
      n * powerOfTen quotient.surplus * 10 ^ m := by
    rw [powerOfTen_eq (_ + m), Nat.pow_add, ← Nat.mul_assoc, ← powerOfTen_eq]
  unfold roundedQuotient
  dsimp only
  rw [← hscale, hdividend, hsurplus, ← hquotient, hdivisor,
    divRound_mul_mul _ _ _ (Nat.pow_pos (by decide))]
  congr 1
  push_cast
  ring

/-- A quotient that comes out even is only rounded. -/
theorem toRat_roundedQuotient_of_dvd (negative : Bool) {q n : ℕ} (hn : 0 < n) (e : ℤ) :
    (roundedQuotient negative (q * n) n e).toRat = (round ⟨negative, q, e⟩).toRat := by
  set scale := precision + digitCount n with hscale
  have hscaled : q * n * powerOfTen scale = q * powerOfTen scale * n := Nat.mul_right_comm ..
  rw [← toRat_round_padded ⟨negative, q, e⟩ scale, toRat_round, padded, ← powerOfTen_eq]
  unfold roundedQuotient
  dsimp only
  rw [← hscale, hscaled, Nat.mul_div_cancel _ hn, Nat.mul_comm n, divRound_mul_mul _ _ _ hn,
    toRat_ofRounded]

/-! ## Shares -/

/-- A share has the value of the rounded quotient also where it is written with fewer
digits. -/
theorem toRat_share {x : Decimal} (hx : x.coefficient ≠ 0) {n : ℕ} (hn : 0 < n) :
    (x.share n).toRat = (roundedQuotient x.negative x.coefficient n x.exponent).toRat := by
  unfold share
  rw [if_neg hx]
  dsimp only
  split
  · rfl
  · next k hk =>
    split
    · have heven : x.coefficient * 10 ^ k % n = 0 := by
        rw [← powerOfTen_eq]
        simpa using List.find?_some hk
      obtain ⟨q, hq⟩ := Nat.dvd_of_mod_eq_zero heven
      rw [powerOfTen_eq, ← roundedQuotient_padded x.negative (Nat.pos_of_ne_zero hx) hn x.exponent k,
        hq, Nat.mul_div_cancel_left _ hn, Nat.mul_comm n, toRat_roundedQuotient_of_dvd _ hn]
    · rfl

/-- Whoever shares an amount with nobody owes the rounded amount. -/
theorem toRat_share_one (x : Decimal) : (x.share 1).toRat = x.round.toRat := by
  by_cases hx : x.coefficient = 0
  · rw [share, if_pos hx]
  · have heven := toRat_roundedQuotient_of_dvd x.negative (q := x.coefficient) one_pos x.exponent
    rw [Nat.mul_one] at heven
    rw [toRat_share hx one_pos, heven]

theorem toRat_share_padded {x : Decimal} (hx : x.coefficient ≠ 0) {n : ℕ} (hn : 0 < n) (m : ℕ) :
    ((x.padded m).share n).toRat = (x.share n).toRat := by
  have hpadded : (x.padded m).coefficient ≠ 0 :=
    Nat.mul_ne_zero hx (Nat.pow_pos (by decide)).ne'
  rw [toRat_share hpadded hn, toRat_share hx hn, padded]
  dsimp only
  rw [roundedQuotient_padded x.negative (Nat.pos_of_ne_zero hx) hn]

/-- What a share comes to depends on the value of the whole only. -/
theorem toRat_share_congr {x y : Decimal} (h : x.toRat = y.toRat) {n : ℕ} (hn : 0 < n) :
    (x.share n).toRat = (y.share n).toRat := by
  by_cases hx : x.coefficient = 0
  · have hy : y.coefficient = 0 :=
      (toRat_eq_zero_iff y).mp (h ▸ (toRat_eq_zero_iff x).mpr hx)
    rw [share, share, if_pos hx, if_pos hy, toRat_round_congr h]
  · have hne : x.toRat ≠ 0 := mt (toRat_eq_zero_iff x).mp hx
    have hy : y.coefficient ≠ 0 := mt (toRat_eq_zero_iff y).mpr (h ▸ hne)
    rcases le_total y.exponent x.exponent with hle | hle
    · rw [eq_padded h hne hle, toRat_share_padded hx hn]
    · rw [eq_padded h.symm (h ▸ hne) hle, toRat_share_padded hy hn]

/-! ## Signs of sums -/

/-- A sum before rounding has the sign of its value; a sum of zero has the sign that both
summands have. -/
theorem negative_exactSum (x y : Decimal) :
    (exactSum x y).negative =
        if x.toRat + y.toRat = 0 then x.negative && y.negative
      else decide (x.toRat + y.toRat < 0) := by
  have hpos := ten_zpow_pos (min x.exponent y.exponent)
  have hsum : x.toRat + y.toRat = (x.unitsAt (min x.exponent y.exponent) +
      y.unitsAt (min x.exponent y.exponent) : ℤ) * 10 ^ min x.exponent y.exponent := by
    rw [← cast_unitsAt (min_le_left x.exponent y.exponent),
      ← cast_unitsAt (min_le_right x.exponent y.exponent), ← add_mul, ← Int.cast_add]
  have hzero : x.toRat + y.toRat = 0 ↔ x.unitsAt (min x.exponent y.exponent) +
      y.unitsAt (min x.exponent y.exponent) = 0 := by
    rw [hsum, mul_eq_zero, or_iff_left hpos.ne', Int.cast_eq_zero]
  have hneg : x.toRat + y.toRat < 0 ↔ x.unitsAt (min x.exponent y.exponent) +
      y.unitsAt (min x.exponent y.exponent) < 0 := by
    rw [hsum, ← not_le, mul_nonneg_iff_of_pos_right hpos, not_le, Int.cast_lt_zero]
  unfold exactSum
  simp only [hzero, hneg]

/-! ## Decimals that arithmetic cannot tell apart -/

/-- One value and one sign; only zeros of one value may have two signs. -/
structure Same (x y : Decimal) : Prop where
  toRat_eq : x.toRat = y.toRat
  negative_eq : x.negative = y.negative

namespace Same

variable {x x' y y' : Decimal}

theorem round (h : x.Same x') : x.round.Same x'.round :=
  ⟨toRat_round_congr h.toRat_eq, by rw [negative_round, negative_round, h.negative_eq]⟩

theorem flip (h : x.Same x') : x.flip.Same x'.flip :=
  ⟨by rw [toRat_flip, toRat_flip, h.toRat_eq], congrArg not h.negative_eq⟩

theorem exactSum (hx : x.Same x') (hy : y.Same y') :
    (Decimal.exactSum x y).Same (Decimal.exactSum x' y') := by
  constructor
  · rw [toRat_exactSum, toRat_exactSum, hx.toRat_eq, hy.toRat_eq]
  · rw [negative_exactSum, negative_exactSum, hx.toRat_eq, hy.toRat_eq, hx.negative_eq,
      hy.negative_eq]

theorem add (hx : x.Same x') (hy : y.Same y') : (x + y).Same (x' + y') := by
  rw [add_eq_round, add_eq_round]
  exact (hx.exactSum hy).round

theorem sub (hx : x.Same x') (hy : y.Same y') : (x - y).Same (x' - y') := by
  rw [sub_eq_round, sub_eq_round]
  exact (hx.exactSum hy.flip).round

theorem coefficient_eq_zero_iff (h : x.Same x') : x.coefficient = 0 ↔ x'.coefficient = 0 := by
  rw [← toRat_eq_zero_iff, ← toRat_eq_zero_iff, h.toRat_eq]

theorem neg (h : x.Same x') : (-x).Same (-x') := by
  refine ⟨by rw [toRat_neg, toRat_neg, h.round.toRat_eq], ?_⟩
  have hzero : (x.coefficient != 0) = (x'.coefficient != 0) := by
    rw [Bool.eq_iff_iff, bne_iff_ne, bne_iff_ne, ne_eq, h.coefficient_eq_zero_iff]
  change (Decimal.neg x).negative = (Decimal.neg x').negative
  rw [Decimal.neg, Decimal.neg, negative_round, negative_round, h.negative_eq, hzero]

theorem share (h : x.Same x') {n : ℕ} (hn : 0 < n) : (x.share n).Same (x'.share n) :=
  ⟨toRat_share_congr h.toRat_eq hn, by rw [negative_share, negative_share, h.negative_eq]⟩

/-! ### What can be seen -/

theorem isBelowZero_eq (h : x.Same x') : x.isBelowZero = x'.isBelowZero := by
  rw [Bool.eq_iff_iff, isBelowZero_iff, isBelowZero_iff, h.toRat_eq]

theorem le_iff (hx : x.Same x') (hy : y.Same y') : x ≤ y ↔ x' ≤ y' := by
  rw [le_iff_toRat_le, le_iff_toRat_le, hx.toRat_eq, hy.toRat_eq]

theorem magnitude (h : x.Same x') : x.magnitude.Same x'.magnitude := by
  have habs : ({ x with negative := false } : Decimal).Same { x' with negative := false } := by
    refine ⟨?_, rfl⟩
    rw [toRat_of_not_negative rfl, toRat_of_not_negative rfl]
    exact (abs_toRat x).symm.trans ((congrArg abs h.toRat_eq).trans (abs_toRat x'))
  exact habs.round

theorem toCents_eq (h : x.Same x') : Amount.toCents x = Amount.toCents x' := by
  have hcents : x.hundredths = x'.hundredths := by
    rw [← natAbs_nearestCents_toRat, ← natAbs_nearestCents_toRat, h.toRat_eq]
  rw [Amount.toCents, Amount.toCents, toCents?, toCents?, hcents, h.negative_eq]

/-- Amounts that are not below zero are shown alike; of others the fault names the digits. -/
theorem display_eq (h : x.Same x') (hnonneg : 0 ≤ x.toRat) (currency : String) :
    Amount.display x currency = Amount.display x' currency := by
  have hx := (isBelowZero_eq_false_iff x).mpr hnonneg
  rw [Amount.display, Amount.display, ← h.isBelowZero_eq, hx, h.toCents_eq]
  rfl

theorem displaySigned_eq (h : x.Same x') (currency : String) :
    Amount.displaySigned x currency = Amount.displaySigned x' currency := by
  have hnonneg : 0 ≤ x.magnitude.toRat := toRat_nonneg_of_not_negative (negative_round _)
  rw [Amount.displaySigned, Amount.displaySigned, h.toCents_eq,
    h.magnitude.display_eq hnonneg]

end Same

/-! ## Relations that arithmetic respects -/

/-- Related decimals cannot be told apart, and what is computed of them is related again. -/
structure Congruence (V : Decimal → Decimal → Prop) : Prop where
  same : ∀ {x x'}, V x x' → x.Same x'
  add : ∀ {x x' y y'}, V x x' → V y y' → V (x + y) (x' + y')
  sub : ∀ {x x' y y'}, V x x' → V y y' → V (x - y) (x' - y')
  neg : ∀ {x x'}, V x x' → V (-x) (-x')
  share : ∀ {x x' n}, V x x' → 0 < n → V (x.share n) (x'.share n)

/-- Of related decimals both are too large or neither is. -/
theorem Congruence.checked {V : Decimal → Decimal → Prop} (hV : Congruence V) {x x' : Decimal}
    (h : V x x') : Outcome.Related V x.checked x'.checked := by
  rw [Decimal.checked, Decimal.checked, isTooLarge_congr (hV.same h).toRat_eq]
  split
  · exact .error _
  · exact .ok h

theorem Congruence.of_same : Congruence Same :=
  ⟨id, Same.add, Same.sub, Same.neg, fun h hn => h.share hn⟩

theorem Congruence.of_eq : Congruence Eq where
  same := by
    rintro x _ rfl
    exact ⟨rfl, rfl⟩
  add := by
    rintro x _ y _ rfl rfl
    rfl
  sub := by
    rintro x _ y _ rfl rfl
    rfl
  neg := by
    rintro x _ rfl
    rfl
  share := by
    rintro x _ n rfl _
    rfl

end Decimal

end HouseLedger
