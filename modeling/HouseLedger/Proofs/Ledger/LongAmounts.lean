import HouseLedger.Proofs.Decimal.Numeral
import HouseLedger.Proofs.Decimal.Range
import HouseLedger.Proofs.Ledger.Grammar

/-!
# Amounts of many digits

The amount of a line has as many digits as it likes, and any other can stand in its place
(`InvoiceLine.spells_amount`, `PaymentLine.spells_amount`). So there are lines for small multiples
of the powers of ten (`WrittenAmount.vast`) and of their inverses (`WrittenAmount.tiny`), also for
those that are too large to be computed or finer than any computed decimal.
-/

namespace HouseLedger

open Decimal (powerOfTen)

namespace WrittenAmount

/-! ## Multiples of powers of ten -/

/-- A digit and that many zeros before the point, and one zero behind it. -/
def vast (n : ℕ) (digit : Char) : WrittenAmount := ⟨digit :: List.replicate n '0', ['0']⟩

theorem isProper_vast (n : ℕ) (digit : Char) (h : digit.isDigit = true) :
    (vast n digit).IsProper :=
  ⟨by simp [vast, List.mem_replicate, h], by simp [vast], by simp [vast], by simp [vast]⟩

theorem toDecimal_vast (n : ℕ) (digit : Char) :
    (vast n digit).toDecimal = ⟨false, (digit.toNat - '0'.toNat) * powerOfTen (n + 1), -1⟩ := by
  have hdigits : digit :: List.replicate n '0' ++ ['0'] = digit :: List.replicate (n + 1) '0' := by
    rw [List.cons_append, ← List.replicate_succ']
  rw [toDecimal, Decimal.ofDigits, Decimal.readDigits_eq, vast, hdigits, Nat.ofDigitChars_cons,
    Nat.ofDigitChars_replicate_zero, Decimal.powerOfTen_eq]
  simp [Nat.mul_comm]

theorem toRat_vast (n : ℕ) (digit : Char) :
    (vast n digit).toDecimal.toRat = (digit.toNat - '0'.toNat : ℕ) * 10 ^ n := by
  rw [toDecimal_vast, Decimal.toRat_of_not_negative rfl, Decimal.powerOfTen_eq]
  push_cast
  rw [zpow_neg_one]
  ring

theorem digit_le_nine {digit : Char} (h : digit.isDigit = true) :
    digit.toNat - '0'.toNat ≤ 9 :=
  Nat.sub_le_of_le_add (by simpa using (Char.isDigit_iff_toNat.mp h).2)

theorem isShort_vast (n : ℕ) (digit : Char) (h : digit.isDigit = true) :
    (vast n digit).toDecimal.IsShort := by
  refine ⟨digit.toNat - '0'.toNat, n, ?_, by rw [Decimal.finestPlace]; omega, ?_⟩
  · exact (digit_le_nine h).trans_lt (by decide)
  · rw [toRat_vast, zpow_natCast, abs_of_nonneg (by positivity)]

theorem not_inRange_vast (n : ℕ) (digit : Char) (hpos : '0'.toNat < digit.toNat)
    (hn : Decimal.largestPower < n) : ¬ Decimal.InRange (vast n digit).toDecimal.toRat := by
  have hdigit : (1 : ℚ) ≤ (digit.toNat - '0'.toNat : ℕ) := by
    exact_mod_cast Nat.sub_pos_of_lt hpos
  rw [Decimal.InRange, not_lt, toRat_vast, abs_of_nonneg (by positivity), Decimal.bound]
  calc (10 : ℚ) ^ (Decimal.largestPower + 1)
      ≤ 10 ^ (n : ℤ) := zpow_le_zpow_right₀ (by norm_num) (by omega)
    _ = 10 ^ n := zpow_natCast ..
    _ ≤ (digit.toNat - '0'.toNat : ℕ) * 10 ^ n := le_mul_of_one_le_left (by positivity) hdigit

theorem inRange_vast (n : ℕ) (digit : Char) (h : digit.isDigit = true)
    (hn : n ≤ Decimal.largestPower) : Decimal.InRange (vast n digit).toDecimal.toRat := by
  have hdigit : ((digit.toNat - '0'.toNat : ℕ) : ℚ) < 10 := by
    exact_mod_cast (digit_le_nine h).trans_lt (by norm_num)
  rw [Decimal.InRange, toRat_vast, abs_of_nonneg (by positivity), Decimal.bound]
  calc ((digit.toNat - '0'.toNat : ℕ) : ℚ) * 10 ^ n
      < 10 * 10 ^ n := mul_lt_mul_of_pos_right hdigit (by positivity)
    _ = 10 ^ ((n : ℤ) + 1) := by rw [Decimal.ten_zpow_add, zpow_natCast, zpow_one, mul_comm]
    _ ≤ 10 ^ (Decimal.largestPower + 1) := zpow_le_zpow_right₀ (by norm_num) (by omega)

/-- Two amounts that are only just in range are too large together. -/
theorem not_inRange_add_vast {n : ℕ} (hn : Decimal.largestPower ≤ n) :
    ¬ Decimal.InRange ((vast n '9').toDecimal + (vast n '9').toDecimal).toRat := by
  have hexact : ((vast n '9').toDecimal.exactSum (vast n '9').toDecimal).toRat = 18 * 10 ^ n := by
    rw [Decimal.toRat_exactSum, toRat_vast, show '9'.toNat - '0'.toNat = 9 from rfl]
    push_cast
    ring
  have hshort : ((vast n '9').toDecimal.exactSum (vast n '9').toDecimal).IsShort :=
    ⟨18, n, by decide, by rw [Decimal.finestPlace]; omega,
      by rw [hexact, zpow_natCast, abs_of_pos (by positivity)]; rfl⟩
  rw [Decimal.InRange, not_lt, Decimal.add_eq_round, Decimal.toRat_round_of_isShort hshort, hexact,
    abs_of_pos (by positivity), Decimal.bound]
  calc (10 : ℚ) ^ (Decimal.largestPower + 1)
      ≤ 10 ^ ((n : ℤ) + 1) := zpow_le_zpow_right₀ (by norm_num) (by omega)
    _ = 10 * 10 ^ n := by rw [Decimal.ten_zpow_add, zpow_natCast, zpow_one, mul_comm]
    _ ≤ 18 * 10 ^ n := by gcongr; norm_num

/-! ## Inverses of powers of ten -/

/-- A digit behind the point and that many zeros. -/
def tiny (n : ℕ) (digit : Char) : WrittenAmount := ⟨['0'], List.replicate n '0' ++ [digit]⟩

theorem isProper_tiny (n : ℕ) (digit : Char) (h : digit.isDigit = true) :
    (tiny n digit).IsProper := by
  refine ⟨by simp [tiny], fun c hc => ?_, by simp [tiny], by simp [tiny]⟩
  rcases List.mem_append.mp hc with hc | hc
  · rw [List.eq_of_mem_replicate hc]
    rfl
  · rwa [List.mem_singleton.mp hc]

theorem toDecimal_tiny (n : ℕ) (digit : Char) :
    (tiny n digit).toDecimal = ⟨false, digit.toNat - '0'.toNat, -(n + 1 : ℕ)⟩ := by
  rw [toDecimal, Decimal.ofDigits, Decimal.readDigits_eq, tiny]
  simp [Nat.ofDigitChars_append, Nat.ofDigitChars_cons, Nat.ofDigitChars_replicate_zero]

/-! ## More zeros -/

/-- The same amount with one zero more behind the point. -/
def withZero (w : WrittenAmount) : WrittenAmount := { w with fraction := w.fraction ++ ['0'] }

theorem IsProper.withZero {w : WrittenAmount} (h : w.IsProper) : w.withZero.IsProper := by
  refine ⟨h.whole, fun c hc => ?_, h.whole_ne, by simp [WrittenAmount.withZero]⟩
  rcases List.mem_append.mp hc with hc | hc
  · exact h.fraction c hc
  · rw [List.mem_singleton.mp hc]
    rfl

theorem toRat_withZero (w : WrittenAmount) : w.withZero.toDecimal.toRat = w.toDecimal.toRat := by
  have hpadded : w.withZero.toDecimal = w.toDecimal.padded 1 := by
    rw [toDecimal, toDecimal, Decimal.ofDigits, Decimal.ofDigits, Decimal.readDigits_eq,
      Decimal.readDigits_eq, WrittenAmount.withZero, Decimal.padded]
    simp [← List.append_assoc, Nat.ofDigitChars_append, Nat.ofDigitChars_cons, Nat.mul_comm]
    ring
  rw [hpadded, Decimal.toRat_padded]

/-! ## Lines -/

variable {w : WrittenAmount}

theorem IsProper.feed_notMem (hw : w.IsProper) : '\n' ∉ w.text.toList := by
  have hwhole : '\n' ∉ w.whole := fun hmem => by simpa using hw.whole _ hmem
  have hfraction : '\n' ∉ w.fraction := fun hmem => by simpa using hw.fraction _ hmem
  simp [text, hwhole, hfraction]

end WrittenAmount

variable {w : WrittenAmount} {text : List Char}

/-- Another amount can stand in the place of the one of a line. -/
theorem InvoiceLine.spells_amount {l : InvoiceLine} (h : (Line.invoice l).Spells text)
    (hw : w.IsProper) :
    (Line.invoice { l with amount := w }).Spells
      (spaced { l with amount := w : InvoiceLine }.words) :=
  ⟨{ h.1 with amount := hw }, isRow_spaced _⟩

theorem PaymentLine.spells_amount {l : PaymentLine} (h : (Line.payment l).Spells text)
    (hw : w.IsProper) :
    (Line.payment { l with amount := w }).Spells
      (spaced { l with amount := w : PaymentLine }.words) :=
  ⟨{ h.1 with amount := hw }, isRow_spaced _⟩

/-- A line feed does not come in with the amount. -/
theorem InvoiceLine.feed_notMem_amount {l : InvoiceLine} (h : (Line.invoice l).Spells text)
    (hfeed : '\n' ∉ text) (hw : w.IsProper) :
    '\n' ∉ spaced { l with amount := w : InvoiceLine }.words := by
  refine notMem_spaced (by decide) fun word hword => ?_
  have hold : word = w.text ∨ word ∈ l.words := by
    simp only [words, List.mem_append, List.mem_cons, List.not_mem_nil, or_false] at hword ⊢
    tauto
  rcases hold with rfl | hold
  · exact hw.feed_notMem
  · exact fun hmem => hfeed (mem_of_isRow h.2 hold hmem)

theorem PaymentLine.feed_notMem_amount {l : PaymentLine} (h : (Line.payment l).Spells text)
    (hfeed : '\n' ∉ text) (hw : w.IsProper) :
    '\n' ∉ spaced { l with amount := w : PaymentLine }.words := by
  refine notMem_spaced (by decide) fun word hword => ?_
  have hold : word = w.text ∨ word ∈ l.words := by
    simp only [words, List.mem_cons, List.not_mem_nil, or_false] at hword ⊢
    tauto
  rcases hold with rfl | hold
  · exact hw.feed_notMem
  · exact fun hmem => hfeed (mem_of_isRow h.2 hold hmem)

end HouseLedger
