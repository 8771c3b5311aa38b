import HouseLedger.Proofs.Balance.Running
import HouseLedger.Proofs.Transaction

/-!
# What a balance nets

`Balance.tally` is the exact signed sum of the transactions between two accounts.
`Balance.Nets b ts` says that the entries of `b` are the tallies of the transactions
`ts`, each seen in the orientation that its entry happens to have. So it is as long as
no sum has to be rounded (`Running.nets`).

Sums need no rounding under `ExactTotals`: all amounts are multiples of one power of
ten, and their total takes at most `Decimal.precision` digits. Under it no sum is too large, and
the balance of two accounts is the sum of what they sent each other, each with its sign
(`net_ofTransactions`). The power of ten must not be below the finest place: an invoice below it
is rounded to nothing (`net_tinyInvoice`).
-/

namespace HouseLedger

open Decimal (HasPlaces Fits InRange precision finestPlace)

namespace Transaction

/-- What the transaction adds to the balance seen from its sender, exactly. -/
def signedValue (t : Transaction) : ℚ :=
  match t.role with
  | .invoice => -t.amount.toRat
  | .payment => t.amount.toRat

/-- What the transaction adds to the balance of two accounts seen from the first. -/
def contribution (t : Transaction) (i j : ℤ) : ℚ :=
  if t.sender = i ∧ t.recipient = j then t.signedValue
  else if t.sender = j ∧ t.recipient = i then -t.signedValue
  else 0

theorem contribution_of_pair_ne {t : Transaction} {i j : ℤ} (h : t.pair ≠ s(i, j)) :
    t.contribution i j = 0 := by
  rw [Ne, pair_eq_iff, not_or] at h
  rw [contribution, if_neg h.1, if_neg h.2]

theorem contribution_self (t : Transaction) :
    t.contribution t.sender t.recipient = t.signedValue := by
  simp [contribution]

theorem contribution_swap (t : Transaction) {i j : ℤ} (hne : i ≠ j) :
    t.contribution j i = -t.contribution i j := by
  unfold contribution
  split
  · next h =>
    have hij : ¬ (t.sender = i ∧ t.recipient = j) := fun h' => hne (h'.1.symm.trans h.1)
    rw [if_neg hij, neg_neg]
  · split
    · rfl
    · rw [neg_zero]

theorem abs_signedValue {t : Transaction} (h : t.Valid) : |t.signedValue| = t.amount.toRat := by
  unfold signedValue
  cases t.role with
  | invoice => rw [abs_neg, abs_of_nonneg h.amount_nonneg]
  | payment => exact abs_of_nonneg h.amount_nonneg

theorem abs_contribution_le {t : Transaction} (h : t.Valid) (i j : ℤ) :
    |t.contribution i j| ≤ t.amount.toRat := by
  unfold contribution
  split
  · exact (abs_signedValue h).le
  · split
    · rw [abs_neg]
      exact (abs_signedValue h).le
    · rw [abs_zero]
      exact h.amount_nonneg

theorem hasPlaces_contribution {f : ℕ} {t : Transaction} (h : HasPlaces f t.amount.toRat)
    (i j : ℤ) : HasPlaces f (t.contribution i j) := by
  have hsigned : HasPlaces f t.signedValue := by
    unfold signedValue
    cases t.role with
    | invoice => exact h.neg
    | payment => exact h
  unfold contribution
  split
  · exact hsigned
  · split
    · exact hsigned.neg
    · exact .zero f

theorem toRat_signed {t : Transaction} (h : t.amount.IsShort) :
    t.signed.toRat = t.signedValue := by
  unfold signed signedValue
  cases t.role with
  | invoice => exact h.toRat_neg
  | payment => rfl

/-! ## Exact totals -/

/-- The amounts are multiples of `10 ^ -f`, and their total takes at most `precision`
digits. -/
structure ExactTotals (f : ℕ) (ts : List Transaction) : Prop where
  places : ∀ t ∈ ts, HasPlaces f t.amount.toRat
  small : (ts.map (·.amount.toRat)).sum < 10 ^ ((precision : ℤ) - f)

/-- Nothing but the amounts has a say in it. -/
theorem exactTotals_iff {f : ℕ} {ts : List Transaction} :
    ExactTotals f ts ↔ (∀ x ∈ ts.map (·.amount), HasPlaces f x.toRat) ∧
      ((ts.map (·.amount)).map Decimal.toRat).sum < 10 ^ ((precision : ℤ) - f) := by
  rw [List.forall_mem_map, List.map_map]
  exact ⟨fun h => ⟨h.places, h.small⟩, fun h => ⟨h.1, h.2⟩⟩

theorem sum_amounts_nonneg {ts : List Transaction} (h : ∀ t ∈ ts, t.Valid) :
    0 ≤ (ts.map (·.amount.toRat)).sum := by
  apply List.sum_nonneg
  intro v hv
  obtain ⟨t, ht, rfl⟩ := List.mem_map.mp hv
  exact (h t ht).amount_nonneg

theorem sum_amounts_le_of_sublist {ts us : List Transaction} (h : ts.Sublist us)
    (hvalid : ∀ u ∈ us, u.Valid) :
    (ts.map (·.amount.toRat)).sum ≤ (us.map (·.amount.toRat)).sum := by
  refine List.Sublist.sum_le_sum (h.map _) fun v hv => ?_
  obtain ⟨t, ht, rfl⟩ := List.mem_map.mp hv
  exact (hvalid t ht).amount_nonneg

theorem amount_le_sum {ts : List Transaction} (hvalid : ∀ t ∈ ts, t.Valid) {t : Transaction}
    (ht : t ∈ ts) : t.amount.toRat ≤ (ts.map (·.amount.toRat)).sum := by
  simpa using sum_amounts_le_of_sublist (List.singleton_sublist.mpr ht) hvalid

theorem ExactTotals.of_append {f : ℕ} {ts us : List Transaction} (h : ExactTotals f (ts ++ us))
    (hvalid : ∀ t ∈ us, t.Valid) : ExactTotals f ts := by
  constructor
  · exact fun t ht => h.places t (List.mem_append_left us ht)
  · have hsmall := h.small
    rw [List.map_append, List.sum_append] at hsmall
    linarith [sum_amounts_nonneg hvalid]

theorem ExactTotals.fits_amount {f : ℕ} {ts : List Transaction} (h : ExactTotals f ts)
    (hvalid : ∀ t ∈ ts, t.Valid) {t : Transaction} (ht : t ∈ ts) : Fits f t.amount.toRat := by
  refine ⟨h.places t ht, ?_⟩
  rw [abs_of_nonneg (hvalid t ht).amount_nonneg]
  exact (amount_le_sum hvalid ht).trans_lt h.small

theorem ExactTotals.four_mul_sum_lt {f : ℕ} {ts : List Transaction} (h : ExactTotals f ts) :
    4 * (ts.map (·.amount.toRat)).sum < Decimal.bound := by
  have hscale : (10 : ℚ) ^ ((precision : ℤ) - f) ≤ 10 ^ (precision : ℤ) :=
    zpow_le_zpow_right₀ (by norm_num) (by omega)
  have hbound : 4 * (10 : ℚ) ^ (precision : ℤ) < Decimal.bound := by
    refine lt_of_le_of_lt ?_ Decimal.ten_pow_lt_bound
    norm_num [precision]
  linarith [h.small]

/-- Valid amounts are their own magnitudes. -/
theorem sum_abs_amounts {ts : List Transaction} (h : ∀ t ∈ ts, t.Valid) :
    (ts.map fun t => |t.amount.toRat|).sum = (ts.map (·.amount.toRat)).sum :=
  congrArg List.sum (List.map_congr_left fun t ht => abs_of_nonneg (h t ht).amount_nonneg)

end Transaction

namespace Balance

open Transaction (ExactTotals)

/-! ## Tallies -/

/-- The exact balance of two accounts after some transactions, seen from the first. -/
def tally (ts : List Transaction) (i j : ℤ) : ℚ := (ts.map (·.contribution i j)).sum

@[simp] theorem tally_nil (i j : ℤ) : tally [] i j = 0 := rfl

@[simp] theorem tally_cons (t : Transaction) (ts : List Transaction) (i j : ℤ) :
    tally (t :: ts) i j = t.contribution i j + tally ts i j := by
  simp [tally]

@[simp] theorem tally_append (ts us : List Transaction) (i j : ℤ) :
    tally (ts ++ us) i j = tally ts i j + tally us i j := by
  simp [tally]

theorem tally_swap (ts : List Transaction) {i j : ℤ} (hne : i ≠ j) :
    tally ts j i = -tally ts i j := by
  induction ts with
  | nil => simp
  | cons t ts ih => rw [tally_cons, tally_cons, t.contribution_swap hne, ih, neg_add]

/-- Two accounts without transactions have nothing to settle. -/
theorem tally_eq_zero {ts : List Transaction} {i j : ℤ} (h : s(i, j) ∉ ts.map Transaction.pair) :
    tally ts i j = 0 := by
  induction ts with
  | nil => rfl
  | cons t ts ih =>
    rw [List.map_cons, List.mem_cons, not_or] at h
    rw [tally_cons, t.contribution_of_pair_ne (Ne.symm h.1), ih h.2, add_zero]

theorem tally_self {ts : List Transaction} (hvalid : ∀ t ∈ ts, t.Valid) (i : ℤ) :
    tally ts i i = 0 := by
  refine tally_eq_zero fun hmem => ?_
  obtain ⟨t, ht, hpair⟩ := List.mem_map.mp hmem
  obtain ⟨hs, hr⟩ | ⟨hs, hr⟩ := (t.pair_eq_iff i i).mp hpair
  all_goals exact (hvalid t ht).parties_ne (hs.trans hr.symm)

theorem abs_tally_le {ts : List Transaction} (h : ∀ t ∈ ts, t.Valid) (i j : ℤ) :
    |tally ts i j| ≤ (ts.map (·.amount.toRat)).sum := by
  induction ts with
  | nil => simp
  | cons t ts ih =>
    obtain ⟨ht, hts⟩ := List.forall_mem_cons.mp h
    rw [tally_cons, List.map_cons, List.sum_cons]
    exact (abs_add_le _ _).trans (add_le_add (t.abs_contribution_le ht i j) (ih hts))

theorem hasPlaces_tally {f : ℕ} {ts : List Transaction}
    (h : ∀ t ∈ ts, HasPlaces f t.amount.toRat) (i j : ℤ) : HasPlaces f (tally ts i j) := by
  induction ts with
  | nil => exact .zero f
  | cons t ts ih =>
    obtain ⟨ht, hts⟩ := List.forall_mem_cons.mp h
    rw [tally_cons]
    exact (t.hasPlaces_contribution ht i j).add (ih hts)

/-- Where no sum is rounded, none is too large. -/
theorem nettable_of_exactTotals {f : ℕ} {ts : List Transaction} (h : ExactTotals f ts)
    (hvalid : ∀ t ∈ ts, t.Valid) : Nettable [] ts := by
  refine nettable_of_small ?_
  rw [List.nil_append, Transaction.sum_abs_amounts hvalid]
  exact h.four_mul_sum_lt

theorem fits_tally {f : ℕ} {ts : List Transaction} (h : ExactTotals f ts)
    (hvalid : ∀ t ∈ ts, t.Valid) (i j : ℤ) : Fits f (tally ts i j) :=
  ⟨hasPlaces_tally h.places i j, (abs_tally_le hvalid i j).trans_lt h.small⟩

/-! ## Netting -/

/-- The entries are the tallies of the transactions, one for each pair that has any. -/
structure Nets (b : Balance) (ts : List Transaction) : Prop where
  wf : b.WellFormed
  balance_eq : ∀ e ∈ b.entries, e.balance.toRat = tally ts e.sender e.recipient
  seen_iff : ∀ p, p ∈ b.entries.map Entry.pair ↔ p ∈ ts.map Transaction.pair

/-- Of the transactions between two accounts all amounts and sums are exact where those of
all transactions are. -/
theorem exactTotals_between {f : ℕ} {ts : List Transaction} (h : ExactTotals f ts)
    (hvalid : ∀ t ∈ ts, t.Valid) (i j : ℤ) : ExactTotals f (between ts i j) :=
  ⟨fun t ht => h.places t (List.mem_of_mem_filter ht),
    (Transaction.sum_amounts_le_of_sublist List.filter_sublist hvalid).trans_lt h.small⟩

theorem tally_between (ts : List Transaction) (i j : ℤ) :
    tally (between ts i j) i j = tally ts i j := by
  induction ts with
  | nil => rfl
  | cons t ts ih =>
    rw [← List.singleton_append, between_append, tally_append, tally_append, ih]
    by_cases hpair : t.pair = s(i, j)
    · rw [between_of_pair_eq hpair]
    · rw [between_of_pair_ne hpair, tally_cons, t.contribution_of_pair_ne hpair, tally_nil,
        add_zero]

theorem toRat_amountFrom {t : Transaction} {i j : ℤ} (hne : i ≠ j) (hpair : t.pair = s(i, j))
    (h : t.amount.IsShort) : (t.amountFrom i).toRat = t.contribution i j := by
  rcases (t.pair_eq_iff i j).mp hpair with ⟨rfl, rfl⟩ | ⟨rfl, rfl⟩
  · rw [t.amountFrom_sender, t.contribution_self, t.toRat_signed h]
  · rw [Transaction.amountFrom_recipient hne.symm, t.contribution_swap hne.symm,
      t.contribution_self, Decimal.toRat_flip, t.toRat_signed h]

section

variable {f : ℕ} (hf : finestPlace ≤ -(f : ℤ)) {ts : List Transaction}
include hf

/-- A running sum that is never rounded is the tally. -/
theorem toRat_runningSum {i j : ℤ} (hne : i ≠ j) (hpairs : ∀ t ∈ ts, t.pair = s(i, j))
    (hvalid : ∀ t ∈ ts, t.Valid) (h : ExactTotals f ts) :
    (Decimal.runningSum (ts.map (·.amountFrom i))).toRat = tally ts i j := by
  induction ts using List.reverseRecOn with
  | nil => simp [Decimal.runningSum]
  | append_singleton ts t ih =>
    have hlast : t ∈ ts ++ [t] := by simp
    have hinit : ∀ u ∈ ts, u ∈ ts ++ [t] := fun u hu => List.mem_append_left _ hu
    have hrest : ∀ u ∈ [t], u.Valid := fun u hu => hvalid u (List.mem_append_right _ hu)
    have hsum := ih (fun u hu => hpairs u (hinit u hu)) (fun u hu => hvalid u (hinit u hu))
      (h.of_append hrest)
    have hamount := toRat_amountFrom hne (hpairs t hlast)
      ((h.fits_amount hvalid hlast).isShort hf)
    rw [List.map_append, List.map_singleton]
    rcases List.eq_nil_or_concat ts with rfl | ⟨us, u, rfl⟩
    · simpa [Decimal.runningSum] using hamount
    · have hfits := fits_tally h hvalid i j
      rw [tally_append, tally_cons, tally_nil, add_zero, ← hsum, ← hamount] at hfits ⊢
      rw [Decimal.runningSum_append (by simp), Decimal.toRat_add_of_fits hf hfits]

theorem toRat_summed (hvalid : ∀ t ∈ ts, t.Valid) {i j : ℤ} (hne : i ≠ j)
    (hexact : ExactTotals f (between ts i j)) : (summed ts i j).toRat = tally ts i j := by
  rw [summed, ← tally_between]
  exact toRat_runningSum hf hne (fun t ht => pair_of_mem_between ht)
    (fun t ht => hvalid t (List.mem_of_mem_filter ht)) hexact

/-- Running sums that are never rounded are tallies. -/
theorem Running.nets {b : Balance} (h : Running b ts) (hexact : ExactTotals f ts)
    (hvalid : ∀ t ∈ ts, t.Valid) : Nets b ts := by
  refine ⟨h.wf, fun e he => ?_, h.seen_iff⟩
  rw [(h.sums e he).2]
  exact toRat_summed hf hvalid (h.wf.proper e he) (exactTotals_between hexact hvalid _ _)

/-- The balance of two accounts whose sums are never rounded is their tally, however the
transactions between other accounts come out. -/
theorem Running.map_net_eq_tally {b : Balance} (h : Running b ts) (hvalid : ∀ t ∈ ts, t.Valid)
    {i j : ℤ} (hne : i ≠ j) (hexact : ExactTotals f (between ts i j)) :
    (b.net i j).map Decimal.toRat = .ok (tally ts i j) := by
  have hvalid' : ∀ t ∈ between ts i j, t.Valid := fun t ht =>
    hvalid t (List.mem_of_mem_filter ht)
  have hsum := toRat_summed hf hvalid hne hexact
  have hrange : InRange (tally ts i j) := by
    rw [InRange, ← tally_between]
    linarith [abs_tally_le hvalid' i j, Transaction.sum_amounts_nonneg hvalid',
      hexact.four_mul_sum_lt]
  have hfits := fits_tally hexact hvalid' i j
  rw [tally_between] at hfits
  rw [← hsum] at hrange hfits ⊢
  exact h.map_net_of_isShort hne (hfits.isShort hf) hrange

end

/-! ## Sums in one direction -/

/-- The sum of the amounts from the first account to the second. -/
def sent (ts : List Transaction) (i j : ℤ) : ℚ :=
  ((ts.filter fun t => t.sender == i && t.recipient == j).map (·.amount.toRat)).sum

theorem sent_cons (t : Transaction) (ts : List Transaction) (i j : ℤ) :
    sent (t :: ts) i j =
      (if t.sender = i ∧ t.recipient = j then t.amount.toRat else 0) + sent ts i j := by
  by_cases h : t.sender = i ∧ t.recipient = j
  · simp [sent, h.1, h.2]
  · have h' : (t.sender == i && t.recipient == j) = false := by simpa using h
    simp [sent, h, h']

/-- Where all amounts count with one factor, a tally is the difference of two sums. -/
theorem tally_of_factor {c : ℚ} {ts : List Transaction}
    (h : ∀ t ∈ ts, t.signedValue = c * t.amount.toRat) {i j : ℤ} (hne : i ≠ j) :
    tally ts i j = c * (sent ts i j - sent ts j i) := by
  induction ts with
  | nil => simp [sent]
  | cons t ts ih =>
    obtain ⟨ht, hts⟩ := List.forall_mem_cons.mp h
    rw [tally_cons, ih hts, sent_cons, sent_cons, Transaction.contribution, ht]
    by_cases hij : t.sender = i ∧ t.recipient = j
    · have hji : ¬ (t.sender = j ∧ t.recipient = i) := fun h' => hne (hij.1.symm.trans h'.1)
      rw [if_pos hij, if_neg hji, if_pos hij]
      ring
    · rw [if_neg hij, if_neg hij]
      split <;> ring

theorem tally_of_invoices {ts : List Transaction} (h : ∀ t ∈ ts, t.role = .invoice) {i j : ℤ}
    (hne : i ≠ j) : tally ts i j = sent ts j i - sent ts i j := by
  have hfactor : ∀ t ∈ ts, t.signedValue = -1 * t.amount.toRat := by
    intro t ht
    rw [Transaction.signedValue, h t ht, neg_one_mul]
  rw [tally_of_factor hfactor hne, neg_one_mul, neg_sub]

theorem tally_of_payments {ts : List Transaction} (h : ∀ t ∈ ts, t.role = .payment) {i j : ℤ}
    (hne : i ≠ j) : tally ts i j = sent ts i j - sent ts j i := by
  have hfactor : ∀ t ∈ ts, t.signedValue = 1 * t.amount.toRat := by
    intro t ht
    rw [Transaction.signedValue, h t ht, one_mul]
  rw [tally_of_factor hfactor hne, one_mul]

/-! ## Balances of two accounts -/

/-- Netting gives every two accounts the exact sum of what they sent each other, invoices
against the sender and payments for it, and the opposite to the other side, for amounts of no
digit below the finest place. -/
theorem net_ofTransactions {f : ℕ} (hf : f ≤ 1000026) {invoices payments : List Transaction}
    (hinvoices : ∀ t ∈ invoices, t.role = .invoice ∧ t.Valid)
    (hpayments : ∀ t ∈ payments, t.role = .payment ∧ t.Valid)
    (hexact : ExactTotals f (invoices ++ payments)) :
    ∃ b, ofTransactions invoices payments = .ok b ∧ ∀ i j : ℤ, i ≠ j →
      ∃ x y, b.net i j = .ok x ∧ b.net j i = .ok y ∧
        x.toRat = -sent invoices i j + sent invoices j i + sent payments i j -
          sent payments j i ∧
        y.toRat = -x.toRat := by
  have hplace := Decimal.finestPlace_le_neg hf
  have hvalid : ∀ t ∈ invoices ++ payments, t.Valid := fun t ht =>
    (List.mem_append.mp ht).elim (fun ht => (hinvoices t ht).2) (fun ht => (hpayments t ht).2)
  have hparties : ∀ t ∈ invoices ++ payments, t.sender ≠ t.recipient := fun t ht =>
    (hvalid t ht).parties_ne
  obtain ⟨b, hall⟩ := (exists_addAll_iff hparties).mpr (nettable_of_exactTotals hexact hvalid)
  have hnet (i j : ℤ) (hne : i ≠ j) :
      ∃ x, b.net i j = .ok x ∧ x.toRat = tally (invoices ++ payments) i j :=
    Outcome.map_eq_ok.mp ((Running.of_addAll hparties hall).map_net_eq_tally hplace hvalid hne
      (exactTotals_between hexact hvalid i j))
  refine ⟨b, hall, fun i j hne => ?_⟩
  obtain ⟨x, hx, hvalue⟩ := hnet i j hne
  obtain ⟨y, hy, hvalue'⟩ := hnet j i hne.symm
  refine ⟨x, y, hx, hy, ?_, ?_⟩
  · rw [hvalue, tally_append, tally_of_invoices (fun t ht => (hinvoices t ht).1) hne,
      tally_of_payments (fun t ht => (hpayments t ht).1) hne]
    ring
  · rw [hvalue, hvalue', tally_swap _ hne]

/-- Two bills that go in opposite directions. -/
def mutualInvoices : List Transaction :=
  [⟨0, 1, ⟨false, 1000, -2⟩, septemberFirst, "rent", .invoice⟩,
    ⟨1, 0, ⟨false, 25, -1⟩, septemberFirst, "milk", .invoice⟩]

/-- A part of the larger bill, paid back. -/
def partPayment : List Transaction := [⟨0, 1, ⟨false, 4000, -3⟩, septemberFirst, "rent", .payment⟩]

theorem net_ofTransactions_mutual :
    (∀ t ∈ mutualInvoices, t.role = .invoice ∧ t.Valid) ∧
      (∀ t ∈ partPayment, t.role = .payment ∧ t.Valid) ∧
      ExactTotals 3 (mutualInvoices ++ partPayment) ∧
      ∃ b x y, ofTransactions mutualInvoices partPayment = .ok b ∧ b.net 0 1 = .ok x ∧
        b.net 1 0 = .ok y ∧ x.toRat = -(7 / 2 : ℚ) ∧ y.toRat = -x.toRat := by
  have hvalid : (∀ t ∈ mutualInvoices, t.role = .invoice ∧ t.Valid) ∧
      ∀ t ∈ partPayment, t.role = .payment ∧ t.Valid := by
    simp only [mutualInvoices, partPayment, List.forall_mem_cons]
    exact ⟨⟨⟨trivial, by decide, Decimal.toRat_nonneg_of_not_negative rfl⟩,
      ⟨trivial, by decide, Decimal.toRat_nonneg_of_not_negative rfl⟩, by simp⟩,
      ⟨trivial, by decide, Decimal.toRat_nonneg_of_not_negative rfl⟩, by simp⟩
  have hexact : ExactTotals 3 (mutualInvoices ++ partPayment) := by
    constructor
    · simp only [mutualInvoices, partPayment, List.cons_append, List.nil_append,
        List.forall_mem_cons, HasPlaces]
      refine ⟨⟨10000, ?_⟩, ⟨2500, ?_⟩, ⟨4000, ?_⟩, by simp⟩ <;>
        norm_num [Decimal.toRat, Decimal.signed]
    · norm_num [mutualInvoices, partPayment, Decimal.toRat, Decimal.signed, precision]
  obtain ⟨b, hb, hnet⟩ := net_ofTransactions (by norm_num) hvalid.1 hvalid.2 hexact
  obtain ⟨x, y, hx, hy, hvalue, hopposite⟩ := hnet 0 1 (by decide)
  refine ⟨hvalid.1, hvalid.2, hexact, b, x, y, hb, hx, hy, hvalue.trans ?_, hopposite⟩
  norm_num [sent, mutualInvoices, partPayment, Decimal.toRat, Decimal.signed]

/-- A bill with a digit below the finest place. -/
def tinyInvoice : List Transaction :=
  [⟨0, 1, ⟨false, 1, -1000031⟩, septemberFirst, "dust", .invoice⟩]

theorem valid_tinyInvoice : ∀ t ∈ tinyInvoice, t.Valid := by
  rw [tinyInvoice, List.forall_mem_singleton]
  exact ⟨by decide, Decimal.toRat_nonneg_of_not_negative rfl⟩

theorem toRat_tinyAmount : (Decimal.mk false 1 (-1000031)).toRat = 10 ^ (-1000031 : ℤ) := by
  rw [Decimal.toRat_of_not_negative rfl, Nat.cast_one, one_mul]

theorem exactTotals_tinyInvoice : ExactTotals 1000031 tinyInvoice := by
  constructor
  · rw [tinyInvoice, List.forall_mem_singleton, toRat_tinyAmount]
    exact ⟨1, by rw [Int.cast_one, one_mul]; rfl⟩
  · rw [tinyInvoice, List.map_singleton, List.sum_singleton, toRat_tinyAmount]
    exact zpow_lt_zpow_right₀ (by norm_num) (by decide)

theorem addAll_tinyInvoice :
    empty.addAll tinyInvoice = .ok ⟨[⟨0, 1, ⟨true, 0, -1000026⟩⟩]⟩ :=
  Outcome.toOption_eq_some.mp (by decide)

/-- Its opposite is rounded to nothing. -/
theorem net_tinyInvoice :
    (∀ t ∈ tinyInvoice, t.role = .invoice ∧ t.Valid) ∧ ExactTotals 1000031 (tinyInvoice ++ []) ∧
      ∃ b x, ofTransactions tinyInvoice [] = .ok b ∧ b.net 0 1 = .ok x ∧
        x.toRat ≠ -sent tinyInvoice 0 1 + sent tinyInvoice 1 0 + sent [] 0 1 - sent [] 1 0 := by
  refine ⟨fun t ht => ⟨List.mem_singleton.mp ht ▸ rfl, valid_tinyInvoice t ht⟩,
    (List.append_nil tinyInvoice).symm ▸ exactTotals_tinyInvoice, _, _, addAll_tinyInvoice, rfl, ?_⟩
  rw [(Decimal.toRat_eq_zero_iff _).mpr rfl]
  have hsent : sent tinyInvoice 0 1 = 10 ^ (-1000031 : ℤ) := by
    rw [tinyInvoice, sent_cons, if_pos ⟨rfl, rfl⟩, toRat_tinyAmount]
    exact add_zero _
  have hback : sent tinyInvoice 1 0 = 0 := by
    rw [tinyInvoice, sent_cons, if_neg (by decide)]
    exact add_zero _
  rw [hsent, hback, show sent [] 0 1 = 0 from rfl, show sent [] 1 0 = 0 from rfl]
  linarith [Decimal.ten_zpow_pos (-1000031)]

end Balance

end HouseLedger
