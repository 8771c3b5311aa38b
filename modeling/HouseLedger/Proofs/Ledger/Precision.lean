import HouseLedger.Proofs.Ledger.Contents

/-!
# Balances longer than sums

Sums and opposites have at most `Decimal.precision` digits. The balance of two accounts is a sum
if they have two transactions or more, and an opposite if they have a single one that is an
invoice, as invoices count against their senders. What is left is a single payment
(`Entry.RestsOn`), which is stored with all the digits that it is written with.

* `Balance.Sums.precision_lt_iff`: no other balance has more digits than sums keep.
* `Balance.Running.computed_or`: no other is finer than the finest place or too large either.
* `Ledger.ofString_digits`: so it is in every ledger. A balance below zero is never that
  long, and whatever is computed of it alone is exact (`Decimal.Lossless`).
-/

namespace HouseLedger

open Outcome Text Decimal

/-! ## Decimals that are not rounded -/

/-- What is computed of the decimal alone is exact and not too large: its magnitude, its opposite,
and its sum with any zero. -/
structure Decimal.Lossless (x : Decimal) : Prop where
  magnitude : x.magnitude.checked.map toRat = .ok |x.toRat|
  opposite : (-x).checked.map toRat = .ok (-x.toRat)
  add_zero : ∀ z : Decimal, z.toRat = 0 → (x + z).checked.map toRat = .ok x.toRat
  zero_add : ∀ z : Decimal, z.toRat = 0 → (z + x).checked.map toRat = .ok x.toRat

theorem Decimal.map_checked_eq_ok_iff {x : Decimal} {v : ℚ} :
    x.checked.map toRat = .ok v ↔ InRange x.toRat ∧ x.toRat = v := by
  rw [map_eq_ok]
  constructor
  · rintro ⟨y, hy, rfl⟩
    obtain ⟨hrange, rfl⟩ := checked_eq_ok_iff.mp hy
    exact ⟨hrange, rfl⟩
  · rintro ⟨hrange, rfl⟩
    exact ⟨x, checked_of_inRange hrange, rfl⟩

theorem Decimal.lossless_iff {x : Decimal} : x.Lossless ↔ x.IsShort ∧ InRange x.toRat := by
  rw [← toRat_round_eq_iff]
  constructor
  · intro h
    obtain ⟨hrange, hvalue⟩ := map_checked_eq_ok_iff.mp (h.add_zero _ toRat_zero)
    rw [hvalue] at hrange
    rw [toRat_add_of_eq_zero x toRat_zero] at hvalue
    exact ⟨hvalue, hrange⟩
  · rintro ⟨hround, hrange⟩
    have hzero : ∀ z : Decimal, z.toRat = 0 → (x + z).toRat = x.toRat := fun z hz =>
      (toRat_add_of_eq_zero x hz).trans hround
    have hexact {y : Decimal} {v : ℚ} (hy : y.toRat = v) (hv : InRange v) :
        y.checked.map toRat = .ok v := map_checked_eq_ok_iff.mpr ⟨hy ▸ hv, hy⟩
    refine ⟨hexact (by rw [toRat_magnitude, hround]) ?_, hexact (by rw [toRat_neg, hround]) ?_,
      fun z hz => hexact (hzero z hz) hrange,
      fun z hz => hexact ((toRat_add_comm z x).trans (hzero z hz)) hrange⟩
    · rwa [InRange, abs_abs]
    · rwa [inRange_neg]

/-! ## Entries -/

/-- The accounts of the entry have this transaction and no other, and it is a payment. -/
structure Entry.RestsOn (e : Entry) (ts : List Transaction) (t : Transaction) : Prop where
  only : Balance.between ts e.sender e.recipient = [t]
  role_eq : t.role = .payment

namespace Balance

variable {ts : List Transaction} {e : Entry}

/-- A single payment is stored as it is. -/
theorem Sums.balance_of_restsOn (h : Sums ts e) {t : Transaction} (hrest : e.RestsOn ts t) :
    e.balance = t.amount := by
  rw [h.balance_of_singleton hrest.only, Transaction.signed, hrest.role_eq]

/-- Only a single payment can be stored with more digits than sums keep. -/
theorem Sums.precision_lt_iff (h : Sums ts e) :
    precision < digitCount e.balance.coefficient ↔
      ∃ t, e.RestsOn ts t ∧ precision < digitCount t.amount.coefficient := by
  constructor
  · intro hlong
    rcases h.round_eq_or with hround | ⟨t, honly, hrole, hamount⟩
    · rw [← hround] at hlong
      exact absurd (digitCount_round_le _) (Nat.not_le.mpr hlong)
    · exact ⟨t, ⟨honly, hrole⟩, hamount ▸ hlong⟩
  · rintro ⟨t, hrest, hlong⟩
    rwa [h.balance_of_restsOn hrest]

/-- A balance below zero is no payment. -/
theorem Sums.not_restsOn_of_neg (h : Sums ts e) (hvalid : ∀ t ∈ ts, t.Valid)
    (hneg : e.balance.toRat < 0) (t : Transaction) : ¬ e.RestsOn ts t := by
  intro hrest
  have ht : t ∈ between ts e.sender e.recipient := hrest.only ▸ List.mem_singleton_self t
  have hnonneg := (hvalid t (List.mem_of_mem_filter ht)).amount_nonneg
  rw [← h.balance_of_restsOn hrest] at hnonneg
  exact absurd hneg (not_lt.mpr hnonneg)

/-- A balance that is no single payment was computed, so that it is short and not too large. -/
theorem Running.computed_or {b : Balance} (h : Running b ts) (hnettable : Nettable [] ts)
    (he : e ∈ b.entries) : e.balance.IsShort ∧ InRange e.balance.toRat ∨ ∃ t, e.RestsOn ts t := by
  have hsums := h.sums e he
  have hshort (hround : e.balance.round = e.balance) : e.balance.IsShort :=
    toRat_round_eq_iff.mp (congrArg toRat hround)
  rcases hsums.round_eq_or with hround | ⟨t, honly, hrole, -⟩
  · match hts : between ts e.sender e.recipient with
    | [] =>
      have hhead := hsums.1
      rw [hts] at hhead
      cases hhead
    | [t] =>
      cases hrole : t.role with
      | payment => exact .inr ⟨t, hts, hrole⟩
      | invoice =>
        have ht : t ∈ between ts e.sender e.recipient := hts ▸ List.mem_singleton_self t
        obtain ⟨_, hbookable⟩ := hnettable.bookable (List.mem_of_mem_filter ht)
        exact .inl ⟨hshort hround, hsums.balance_of_singleton hts ▸ hbookable.signed hrole⟩
    | t :: u :: us =>
      refine .inl ⟨hshort hround, ?_⟩
      rw [hsums.2]
      exact inRange_summed hnettable (h.wf.proper e he) (by rw [hts]; simp)
  · exact .inr ⟨t, honly, hrole⟩

/-- What is computed of a balance alone is exact, unless it is a payment of which it is not. -/
theorem Running.lossless_iff {b : Balance} (h : Running b ts) (hnettable : Nettable [] ts)
    (he : e ∈ b.entries) :
    e.balance.Lossless ↔ ∀ t, e.RestsOn ts t → t.amount.IsShort ∧ InRange t.amount.toRat := by
  rw [Decimal.lossless_iff]
  constructor
  · intro hexact t hrest
    rwa [← (h.sums e he).balance_of_restsOn hrest]
  · intro hall
    rcases h.computed_or hnettable he with hcomputed | ⟨t, hrest⟩
    · exact hcomputed
    · rw [(h.sums e he).balance_of_restsOn hrest]
      exact hall t hrest

end Balance

/-! ## Ledgers -/

/-- The amount of the payment is the one that is written on a line, with all its digits. -/
def Transaction.IsPaidOn (t : Transaction) (line : List Char) : Prop :=
  ∃ fields : PaymentLine, (Line.payment fields).Spells line ∧
    t.amount = fields.amount.toDecimal

theorem PaymentLine.amount_of_paid {reference : Date} {r : Registry} {fields : PaymentLine}
    {ts : List Transaction} (h : fields.paid reference r = .ok ts) {t : Transaction}
    (ht : t ∈ ts) : t.amount = fields.amount.toDecimal := by
  obtain ⟨sender, -, h⟩ := bind_eq_ok.mp h
  obtain ⟨recipient, -, h⟩ := bind_eq_ok.mp h
  obtain ⟨date, -, h⟩ := bind_eq_ok.mp h
  split at h
  · cases h
    exact absurd ht List.not_mem_nil
  · cases h
    rw [List.mem_singleton.mp ht]

theorem isPaidOn_of_mem_paymentsOf {reference : Date} {r : Registry} {line : List Char}
    {t : Transaction} (ht : t ∈ paymentsOf reference r line) : t.IsPaidOn line := by
  unfold paymentsOf at ht
  cases hread : Line.ofText? line with
  | none =>
    rw [hread] at ht
    exact absurd ht List.not_mem_nil
  | some l =>
    rw [hread, Option.map_some, Option.getD_some] at ht
    cases l with
    | payment fields =>
      rw [Line.payments] at ht
      cases hpaid : fields.paid reference r with
      | error fault =>
        rw [hpaid] at ht
        exact absurd ht List.not_mem_nil
      | ok ts =>
        rw [hpaid] at ht
        exact ⟨fields, Line.ofText?_eq_some_iff.mp hread, PaymentLine.amount_of_paid hpaid ht⟩
    | _ => exact absurd ht List.not_mem_nil

namespace Ledger

theorem exists_isPaidOn {options : Options} {text : String} {l : Ledger}
    (h : ofString options text = .ok l) : ∃ header body, IsCut text.toList (header :: body) ∧
      ∀ t ∈ l.payments, ∃ line ∈ body, t.IsPaidOn line := by
  obtain ⟨lines, hcut⟩ := exists_isCut text.toList
  obtain ⟨header, body, rfl⟩ := hcut.exists_cons
  rw [ofString_eq_ofLines_of_isCut options hcut] at h
  obtain ⟨reference, -, -, rfl⟩ := ofLines_eq_ok_iff_written.mp h
  refine ⟨header, body, hcut, fun t ht => ?_⟩
  obtain ⟨line, hline, ht⟩ := List.mem_flatMap.mp ht
  exact ⟨line, hline, isPaidOn_of_mem_paymentsOf ht⟩

/-- In the balance of a ledger an entry has more digits than sums keep if and only if its accounts
have a single transaction, which is a payment of that many digits. A single payment is stored with
the digits that it is written with. So a balance below zero has at most as many digits as sums
keep, and the magnitude, the opposite and the sum with a zero are exact; so they are of every
balance but for single payments of too many digits, of digits below the finest place, or too large.
There is no balance if a sum is too large. -/
theorem ofString_digits {options : Options} {text : String} {l : Ledger}
    (h : ofString options text = .ok l) :
    FailsIff .overflow (¬ Balance.Nettable [] (l.invoices ++ l.payments)) l.balance ∧
      ∃ header body, IsCut text.toList (header :: body) ∧
        ∀ b, l.balance = .ok b → ∀ e ∈ b.entries,
          (precision < digitCount e.balance.coefficient ↔
            ∃ t, e.RestsOn (l.invoices ++ l.payments) t ∧
              precision < digitCount t.amount.coefficient) ∧
          (∀ t, e.RestsOn (l.invoices ++ l.payments) t →
            e.balance = t.amount ∧ ∃ line ∈ body, t.IsPaidOn line) ∧
          (e.balance.toRat < 0 →
            digitCount e.balance.coefficient ≤ precision ∧ e.balance.Lossless) ∧
          (e.balance.Lossless ↔ ∀ t, e.RestsOn (l.invoices ++ l.payments) t →
            t.amount.IsShort ∧ InRange t.amount.toRat) := by
  have hwf := wellFormed_of_ofString h
  obtain ⟨header, body, hcut, hpaid⟩ := exists_isPaidOn h
  refine ⟨hwf.failsIff_balance, header, body, hcut, fun b hb e he => ?_⟩
  have hrunning := hwf.running hb
  have hnettable : Balance.Nettable [] (l.invoices ++ l.payments) :=
    not_not.mp (hwf.failsIff_balance.exists_iff.mp ⟨b, hb⟩)
  have hsums := hrunning.sums e he
  have hlossless := hrunning.lossless_iff hnettable he
  refine ⟨hsums.precision_lt_iff, fun t hrest => ⟨hsums.balance_of_restsOn hrest, ?_⟩,
    fun hneg => ?_, hlossless⟩
  · have ht : t ∈ Balance.between (l.invoices ++ l.payments) e.sender e.recipient :=
      hrest.only ▸ List.mem_singleton_self t
    rcases List.mem_append.mp (List.mem_of_mem_filter ht) with ht | ht
    · exact nomatch (hwf.invoices t ht).role_eq.symm.trans hrest.role_eq
    · exact hpaid t ht
  · have hnone := hsums.not_restsOn_of_neg hwf.valid hneg
    refine ⟨?_, hlossless.mpr fun t hrest => absurd hrest (hnone t)⟩
    rw [← Nat.not_lt, hsums.precision_lt_iff]
    exact fun ⟨t, hrest, _⟩ => hnone t hrest

/-- A bill that is passed on and a payment, both of thirty digits. -/
def crumbsText : String :=
  "accounting_date 1.2.2024\naccount AA A\naccount BB B\naccount CC C\n" ++
    "invoice AA -> BB -> CC 0.00499999999999999999999999999999 1.1.2024 tea\n" ++
    "payment CC -> AA 0.00499999999999999999999999999999 2.1.2024 tea\n"

/-- What is passed on is not rounded before it is booked. -/
def crumbsEntries : List Entry :=
  [⟨0, 1, ⟨true, 5000000000000000000000000000, -30⟩⟩,
    ⟨1, 2, ⟨true, 5000000000000000000000000000, -30⟩⟩,
    ⟨2, 0, ⟨false, 499999999999999999999999999999, -32⟩⟩]

theorem ofString_digits_crumbs : ∃ l b t, ofString {} crumbsText = .ok l ∧ l.balance = .ok b ∧
    b.entries = crumbsEntries ∧
      (Entry.mk 2 0 ⟨false, 499999999999999999999999999999, -32⟩).RestsOn
        (l.invoices ++ l.payments) t ∧ precision < digitCount t.amount.coefficient ∧
      (Decimal.mk true 5000000000000000000000000000 (-30)).Lossless := by
  have hread : (do
      let l ← (ofString {} crumbsText).toOption
      let b ← l.balance.toOption
      return b.entries) = some crumbsEntries := by decide +kernel
  obtain ⟨l, hl, hread⟩ := Option.bind_eq_some_iff.mp hread
  obtain ⟨b, hb, hread⟩ := Option.bind_eq_some_iff.mp hread
  have hentries : b.entries = crumbsEntries := Option.some_inj.mp hread
  rw [toOption_eq_some] at hl hb
  obtain ⟨-, _, _, -, hall⟩ := ofString_digits hl
  replace hall := hall b hb
  rw [hentries, crumbsEntries, List.forall_mem_cons, List.forall_mem_cons,
    List.forall_mem_singleton] at hall
  obtain ⟨-, ⟨-, -, hneg, -⟩, hlong, -⟩ := hall
  obtain ⟨t, hrest, hdigits⟩ := hlong.mp (by decide +kernel)
  exact ⟨l, b, t, hl, hb, hentries, hrest, hdigits,
    (hneg ((isBelowZero_iff _).mp (by decide))).2⟩

end Ledger

end HouseLedger
