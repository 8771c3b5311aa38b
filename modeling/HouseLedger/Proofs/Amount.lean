import HouseLedger.Amount
import HouseLedger.Proofs.Decimal.Cents
import HouseLedger.Proofs.Decimal.Rounding
import HouseLedger.Proofs.Outcome

/-!
# Shown amounts

An amount that was rounded is written as its number of cents (`Amount.write_eq_writeCents`): the
whole part, the difference and the product by which its units and cents are found are all exact.
A shown amount can be read back, since no two numbers of cents are written alike, with a minus
sign in front or without (`Amount.signedCents_inj`).

`Amount.displaySigned_eq_ok_iff` says what is shown for an amount. The sign is that of the cents
of the amount, but the cents that are written are those of the amount after it was rounded to
`Decimal.precision` digits.
-/

namespace HouseLedger

open Outcome
open Decimal (nearestCents precision powerOfTen isBelowZero)

namespace Decimal

theorem negative_magnitude (x : Decimal) : x.magnitude.negative = false := negative_round _

/-- The cents of the magnitude are those of the decimal after it is rounded. -/
theorem hundredths_magnitude (x : Decimal) : x.magnitude.hundredths = x.round.hundredths := by
  unfold magnitude
  cases h : x.negative with
  | false => rw [← h]
  | true =>
    have hflip : ({ x with negative := false } : Decimal) = x.flip := by rw [flip, h, Bool.not_true]
    rw [hflip, round_flip]
    rfl

/-- Rounding keeps the cents with their sign exactly if it keeps their number. -/
theorem nearestCents_round_eq_iff (x : Decimal) :
    nearestCents x.round.toRat = nearestCents x.toRat ↔ x.round.hundredths = x.hundredths := by
  rw [nearestCents_toRat, nearestCents_toRat, negative_round]
  split
  · rw [neg_inj, Nat.cast_inj]
  · rw [Nat.cast_inj]

end Decimal

namespace Amount

/-! ## Written cents -/

/-- Writes a number of cents: the units, a point, and the two digits of the cents or
a dash for none. -/
def writeCents (cents : Nat) : String :=
  let units := Nat.repr (cents / 100)
  if cents % 100 = 0 then units ++ ".-"
  else units ++ "." ++ String.ofList [(cents % 100 / 10).digitChar, (cents % 10).digitChar]

/-- What stands behind the point. -/
def centsText (cents : ℕ) : List Char :=
  if cents % 100 = 0 then ['-'] else [(cents % 100 / 10).digitChar, (cents % 10).digitChar]

theorem toList_writeCents (cents : ℕ) :
    (writeCents cents).toList = Nat.toDigits 10 (cents / 100) ++ '.' :: centsText cents := by
  unfold writeCents centsText
  split
  · simp
  · simp

theorem point_notMem_toDigits (n : ℕ) : '.' ∉ Nat.toDigits 10 n := fun h => by
  simpa using Nat.isDigit_of_mem_toDigits (by decide) (by decide) h

theorem point_notMem_centsText (cents : ℕ) : '.' ∉ centsText cents := by
  unfold centsText
  split
  · decide
  · simp [Ne.symm (Nat.digitChar_ne '.' (by decide))]

theorem digitChar_inj {m n : ℕ} (hm : m < 10) (hn : n < 10) (h : m.digitChar = n.digitChar) :
    m = n := by
  have hcode := congrArg Char.toNat h
  rw [Nat.toNat_digitChar_of_lt_ten hm, Nat.toNat_digitChar_of_lt_ten hn] at hcode
  omega

theorem mod_eq_of_centsText_eq {m n : ℕ} (h : centsText m = centsText n) : m % 100 = n % 100 := by
  unfold centsText at h
  split at h
  · next hm =>
    split at h
    · next hn => rw [hm, hn]
    · simp at h
  · split at h
    · simp at h
    · obtain ⟨htens, hones⟩ := List.cons_eq_cons.mp h
      have htens' := digitChar_inj (by omega) (by omega) htens
      have hones' := digitChar_inj (by omega) (by omega) (List.singleton_inj.mp hones)
      omega

theorem writeCents_inj {m n : ℕ} (h : writeCents m = writeCents n) : m = n := by
  have hlist := congrArg String.toList h
  rw [toList_writeCents, toList_writeCents,
    List.append_cons_inj_of_notMem (point_notMem_toDigits _) (point_notMem_centsText _)] at hlist
  obtain ⟨hunits, -, hcents⟩ := hlist
  have hunits' := congrArg (Nat.ofDigitChars 10 · 0) hunits
  simp only [Nat.ofDigitChars_ten_toDigits] at hunits'
  have hmod := mod_eq_of_centsText_eq hcents
  omega

/-! ## Units and cents -/

theorem writeParts_eq_writeCents (n : ℕ) :
    writeParts ((n / 100 : ℕ) : ℤ) ((n % 100 : ℕ) : ℤ) = writeCents n := by
  unfold writeParts writeCents
  by_cases h : n % 100 = 0
  · rw [if_pos h, if_neg (by omega)]
    rfl
  · rw [if_neg h, if_pos (by omega), Int.toNat_natCast, Nat.mod_mod_of_dvd n (by decide)]
    rfl

/-- An amount of so many units and cents is written as such. The difference that leaves the cents
and a hundred times that are computed exactly, since they take two places at most. -/
theorem write_eq_writeParts {x : Decimal} {units cents : ℕ} (hcents : cents < 100)
    (h : x.toRat = units + cents / 100) : write x = writeParts units cents := by
  have hless : (cents : ℚ) < 100 := by exact_mod_cast hcents
  have hunits : x.truncate = units := by
    rw [Decimal.truncate_of_nonneg (by rw [h]; positivity), h, Int.floor_natCast_add,
      Int.floor_eq_zero_iff.mpr ⟨by positivity, by linarith⟩, add_zero]
  have hrest : x.toRat - (Decimal.ofInt x.truncate).toRat = cents / 100 := by
    rw [Decimal.toRat_ofInt, hunits, h]
    push_cast
    ring
  have hfits : Decimal.Fits 2 (x.toRat - (Decimal.ofInt x.truncate).toRat) := by
    rw [hrest]
    refine ⟨⟨cents, by norm_num [div_eq_mul_inv]⟩, ?_⟩
    rw [abs_of_nonneg (by positivity)]
    norm_num [precision]
    linarith
  have hproduct : (x - Decimal.ofInt x.truncate).toRat * (Decimal.ofInt 100).toRat = cents := by
    rw [Decimal.toRat_sub_of_fits (by decide) hfits, hrest, Decimal.toRat_ofInt]
    push_cast
    ring
  have hfits' : Decimal.Fits 0 ((x - Decimal.ofInt x.truncate).toRat *
      (Decimal.ofInt 100).toRat) := by
    rw [hproduct]
    refine ⟨⟨cents, by simp⟩, ?_⟩
    rw [abs_of_nonneg (by positivity)]
    norm_num [precision]
    linarith
  have htimes := (Decimal.toRat_mul_of_fits (by decide) hfits').trans hproduct
  have hlast : ((x - Decimal.ofInt x.truncate) * Decimal.ofInt 100).truncate = cents := by
    rw [Decimal.truncate_of_nonneg (by rw [htimes]; positivity), htimes, Int.floor_natCast]
  unfold write
  dsimp only
  rw [hlast, hunits]

/-- A number of cents as it is written, with a minus sign in front if there is one. -/
def signedCents (minus : Bool) (cents : ℕ) : String :=
  (if minus then "-" else "") ++ writeCents cents

theorem signedCents_true_ne (m n : ℕ) : signedCents true m ≠ signedCents false n := by
  intro h
  obtain ⟨c, cs, hdigits⟩ : ∃ c cs, Nat.toDigits 10 (n / 100) = c :: cs :=
    List.exists_cons_of_ne_nil Nat.toDigits_ne_nil
  have hdigit : c.isDigit = true :=
    Nat.isDigit_of_mem_toDigits (by decide) (by decide) (hdigits ▸ List.mem_cons_self)
  have hhead : '-' = c := by
    simpa [signedCents, toList_writeCents, hdigits] using congrArg (·.toList.head?) h
  rw [← hhead] at hdigit
  exact absurd hdigit (by decide)

theorem signedCents_inj {minus minus' : Bool} {m n : ℕ}
    (h : signedCents minus m = signedCents minus' n) : minus = minus' ∧ m = n := by
  cases minus with
  | false =>
    cases minus' with
    | false => exact ⟨rfl, writeCents_inj ((String.append_right_inj _).mp h)⟩
    | true => exact absurd h.symm (signedCents_true_ne n m)
  | true =>
    cases minus' with
    | false => exact absurd h (signedCents_true_ne m n)
    | true => exact ⟨rfl, writeCents_inj ((String.append_right_inj _).mp h)⟩

/-! ## Shown amounts -/

theorem toCents_eq_ok_iff {x y : Decimal} : toCents x = .ok y ↔
    x.hundredths < powerOfTen precision ∧ y = ⟨x.negative, x.hundredths, Decimal.centExponent⟩ := by
  unfold toCents Decimal.toCents?
  by_cases h : x.hundredths < powerOfTen precision
  · rw [if_pos h]
    simp [h, eq_comm]
  · rw [if_neg h]
    simp [h]

/-- An amount that is not below zero is written, once it was rounded, as its number of cents. -/
theorem write_toCents {x : Decimal} (h : x.isBelowZero = false) :
    write ⟨x.negative, x.hundredths, Decimal.centExponent⟩ = writeCents x.hundredths := by
  have hnonneg := Decimal.nearestCents_nonneg ((Decimal.isBelowZero_eq_false_iff x).mp h)
  have hcents := Decimal.natAbs_nearestCents_toRat x
  have hsigned : Decimal.signed ⟨x.negative, x.hundredths, Decimal.centExponent⟩ =
      (x.hundredths : ℤ) := by
    have hsigned : Decimal.signed ⟨x.negative, x.hundredths, Decimal.centExponent⟩ =
        nearestCents x.toRat := (Decimal.nearestCents_toRat x).symm
    omega
  have hvalue : Decimal.toRat ⟨x.negative, x.hundredths, Decimal.centExponent⟩ =
      (x.hundredths / 100 : ℕ) + (x.hundredths % 100 : ℕ) / 100 := by
    have hsplit : (x.hundredths : ℚ) =
        100 * (x.hundredths / 100 : ℕ) + (x.hundredths % 100 : ℕ) := by
      exact_mod_cast (Nat.div_add_mod x.hundredths 100).symm
    rw [Decimal.toRat, hsigned, Int.cast_natCast, hsplit, Decimal.centExponent]
    norm_num
    ring
  rw [write_eq_writeParts (Nat.mod_lt _ (by decide)) hvalue, writeParts_eq_writeCents]

theorem display_eq_ok_iff {x : Decimal} {currency shown : String} :
    display x currency = .ok shown ↔ x.isBelowZero = false ∧ x.hundredths < powerOfTen precision ∧
      shown = writeCents x.hundredths ++ " " ++ currency := by
  unfold display
  cases hx : x.isBelowZero with
  | true =>
    constructor
    · nofun
    · rintro ⟨⟨⟩, -⟩
  | false =>
    constructor
    · intro h
      obtain ⟨rounded, hrounded, h⟩ := bind_eq_ok.mp h
      obtain ⟨hsmall, rfl⟩ := toCents_eq_ok_iff.mp hrounded
      rw [← Except.ok.inj h, write_toCents hx]
      exact ⟨rfl, hsmall, rfl⟩
    · rintro ⟨-, hsmall, rfl⟩
      refine bind_eq_ok.mpr ⟨_, toCents_eq_ok_iff.mpr ⟨hsmall, rfl⟩, ?_⟩
      rw [write_toCents hx]
      rfl

/-! ## What is shown -/

theorem writeCents_units_add {units cents : ℕ} (h : cents ≤ 99) :
    writeCents (100 * units + cents) = Nat.repr units ++ "." ++
      if cents = 0 then "-" else
        String.ofList [(cents / 10).digitChar, (cents % 10).digitChar] := by
  have hunits : (100 * units + cents) / 100 = units := by omega
  have hcents : (100 * units + cents) % 100 = cents := by omega
  have hlast : (100 * units + cents) % 10 = cents % 10 := by omega
  unfold writeCents
  rw [hunits, hcents, hlast]
  split
  · rw [String.append_assoc]
    rfl
  · rfl

/-- The cents of an amount that is not below zero. -/
theorem hundredths_of_nonneg {x : Decimal} (h : 0 ≤ x.toRat) :
    (x.hundredths : ℤ) = ⌊100 * x.toRat + 1 / 2⌋ := by
  rw [Decimal.hundredths_eq_floor, abs_of_nonneg h, mul_comm]

theorem display_eq_ok {x : Decimal} (hnonneg : 0 ≤ x.toRat) (hlt : x.toRat < 10 ^ 26 - 1 / 200)
    (currency : String) :
    display x currency = .ok (writeCents x.hundredths ++ " " ++ currency) :=
  display_eq_ok_iff.mpr ⟨(Decimal.isBelowZero_eq_false_iff x).mpr hnonneg,
    (Decimal.hundredths_lt_iff x).mpr ((abs_of_nonneg hnonneg).trans_lt hlt), rfl⟩

/-- An amount that is not below zero and not too long is shown as the number of cents that is
nearest to it, a half being rounded up: the units without zeros in front, a point, and a dash for
no cents or both digits of them. So two such amounts look alike in one currency exactly if they
come to the same number of cents. -/
theorem display_nearest {x : Decimal} (hnonneg : 0 ≤ x.toRat) (hlt : x.toRat < 10 ^ 26 - 1 / 200)
    (currency : String) :
    (∃! parts : ℕ × ℕ, parts.2 ≤ 99 ∧
      ((100 * parts.1 + parts.2 : ℕ) : ℤ) = ⌊100 * x.toRat + 1 / 2⌋) ∧
    (∀ units cents : ℕ, cents ≤ 99 →
      ((100 * units + cents : ℕ) : ℤ) = ⌊100 * x.toRat + 1 / 2⌋ →
      display x currency = .ok (Nat.repr units ++ "." ++
        (if cents = 0 then "-" else
          String.ofList [(cents / 10).digitChar, (cents % 10).digitChar]) ++ " " ++ currency)) ∧
    ∀ y : Decimal, 0 ≤ y.toRat → y.toRat < 10 ^ 26 - 1 / 200 →
      (display x currency = display y currency ↔
        ⌊100 * x.toRat + 1 / 2⌋ = ⌊100 * y.toRat + 1 / 2⌋) := by
  refine ⟨?_, fun units cents hcents h => ?_, fun y hnonneg' hlt' => ?_⟩
  · rw [← hundredths_of_nonneg hnonneg]
    refine ⟨(x.hundredths / 100, x.hundredths % 100), ⟨by omega, by omega⟩, ?_⟩
    rintro ⟨units, cents⟩ ⟨hcents, h⟩
    dsimp only at hcents h
    ext
    · dsimp only
      omega
    · dsimp only
      omega
  · rw [← hundredths_of_nonneg hnonneg, Nat.cast_inj] at h
    rw [display_eq_ok hnonneg hlt, ← h, writeCents_units_add hcents]
  · rw [display_eq_ok hnonneg hlt, display_eq_ok hnonneg' hlt', ← hundredths_of_nonneg hnonneg,
      ← hundredths_of_nonneg hnonneg', Nat.cast_inj, Except.ok.injEq, String.append_left_inj,
      String.append_left_inj]
    exact ⟨writeCents_inj, congrArg writeCents⟩

/-- A half cent carries into the units. -/
theorem display_nearest_carried :
    display ⟨false, 9995, -3⟩ "CHF" = .ok "10.- CHF" ∧
      display ⟨false, 9995, -3⟩ "CHF" = display ⟨false, 1, 1⟩ "CHF" := by
  have hvalue : Decimal.toRat ⟨false, 9995, -3⟩ = 9995 / 1000 := by
    norm_num [Decimal.toRat, Decimal.signed]
  have hten : Decimal.toRat ⟨false, 1, 1⟩ = 10 := by norm_num [Decimal.toRat, Decimal.signed]
  have h := display_nearest (x := ⟨false, 9995, -3⟩) (by rw [hvalue]; norm_num)
    (by rw [hvalue]; norm_num) "CHF"
  refine ⟨h.2.1 10 0 (by decide) (by rw [hvalue]; norm_num), ?_⟩
  refine (h.2.2 ⟨false, 1, 1⟩ (by rw [hten]; norm_num) (by rw [hten]; norm_num)).mpr ?_
  rw [hvalue, hten]
  norm_num

theorem displaySigned_eq_ok_iff {x : Decimal} {currency shown : String} :
    displaySigned x currency = .ok shown ↔
      x.hundredths < powerOfTen precision ∧ x.round.hundredths < powerOfTen precision ∧
        shown = signedCents (decide (nearestCents x.toRat < 0)) x.round.hundredths ++ " " ++
          currency := by
  have hsign : isBelowZero ⟨x.negative, x.hundredths, Decimal.centExponent⟩ =
      decide (nearestCents x.toRat < 0) := by
    rw [Decimal.nearestCents_toRat, Decimal.isBelowZero, Bool.eq_iff_iff]
    cases x.negative with
    | false => simp
    | true => simp [Nat.pos_iff_ne_zero]
  have hmagnitude : x.magnitude.isBelowZero = false := by
    rw [Decimal.isBelowZero, Decimal.negative_magnitude, Bool.false_and]
  unfold displaySigned
  simp only [bind_eq_ok, toCents_eq_ok_iff, display_eq_ok_iff, pure_eq, Except.ok.injEq, hmagnitude,
    Decimal.hundredths_magnitude, true_and]
  constructor
  · rintro ⟨_, ⟨hsmall, rfl⟩, _, ⟨hround, rfl⟩, rfl⟩
    refine ⟨hsmall, hround, ?_⟩
    rw [hsign, signedCents, String.append_assoc, String.append_assoc, String.append_assoc]
  · rintro ⟨hsmall, hround, rfl⟩
    refine ⟨_, ⟨hsmall, rfl⟩, _, ⟨hround, rfl⟩, ?_⟩
    rw [hsign, signedCents, String.append_assoc, String.append_assoc, String.append_assoc]

end Amount

end HouseLedger
