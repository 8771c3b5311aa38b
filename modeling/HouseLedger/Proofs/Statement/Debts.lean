import HouseLedger.Statement
import HouseLedger.Proofs.Amount
import HouseLedger.Proofs.Balance.Netting
import HouseLedger.Proofs.Decimal.Cents
import HouseLedger.Proofs.Ledger.WellFormed
import HouseLedger.Proofs.Sorting

/-!
# Open debts

`Debt.ofClaim i j x` is the debt that an exact claim of `x` leaves between two accounts,
once it is rounded to the cent.

* `Entry.debt?_eq`: an entry leaves the debt of what its balance says.
* `Balance.debtsOf_eq`: the debts of an account are those of its entries.
* `Balance.NetsCents`: to the cent, the entries are the tallies of the transactions. So they are
  where no sum is rounded, and also where all amounts together are less than half a cent.
* `Balance.NetsCents.debtsOf`: between two accounts there is the debt of their tally.
* `Statement.owedTo` is the claim that the four sections of a statement come to; the debts
  of a statement are what these claims leave.
-/

namespace HouseLedger

open Outcome
open Decimal (nearestCents)
open Transaction (ExactTotals)

/-! ## Claims -/

/-- The debt between two accounts of which the first owes `x` to the second; a claim below
zero is a debt of the second, and one that rounds to no cents is none. -/
def Debt.ofClaim (i j : ℤ) (x : ℚ) : Option Debt :=
  if nearestCents x = 0 then none
  else some ⟨if 0 < x then i else j, if 0 < x then j else i,
    ⟨false, (nearestCents x).natAbs, Decimal.centExponent⟩⟩

/-- Whether the debt is one between the two accounts. -/
def Debt.isBetween (i j : ℤ) (d : Debt) : Bool :=
  d.debtor == i && d.creditor == j || d.debtor == j && d.creditor == i

namespace Debt

/-- Less than half a cent is no debt. -/
theorem ofClaim_of_abs_lt (i j : ℤ) {x : ℚ} (h : |x| < 1 / 200) : ofClaim i j x = none :=
  if_pos (Decimal.nearestCents_eq_zero h)

theorem ofClaim_zero (i j : ℤ) : ofClaim i j 0 = none := if_pos Decimal.nearestCents_zero

/-- What the first owes to the second is the opposite of what the second owes to the first. -/
theorem ofClaim_neg (i j : ℤ) (x : ℚ) : ofClaim j i (-x) = ofClaim i j x := by
  unfold ofClaim
  rw [Decimal.nearestCents_neg, Int.natAbs_neg]
  by_cases hcents : nearestCents x = 0
  · rw [if_pos hcents, if_pos (neg_eq_zero.mpr hcents)]
  · rw [if_neg hcents, if_neg (neg_ne_zero.mpr hcents)]
    rcases lt_trichotomy x 0 with hx | rfl | hx
    · rw [if_pos (neg_pos.mpr hx), if_pos (neg_pos.mpr hx), if_neg hx.not_gt, if_neg hx.not_gt]
    · exact absurd Decimal.nearestCents_zero hcents
    · have hneg : ¬ 0 < -x := by linarith
      rw [if_neg hneg, if_neg hneg, if_pos hx, if_pos hx]

theorem isBetween_of_ofClaim {i j k l : ℤ} {x : ℚ} {d : Debt} (h : ofClaim k l x = some d) :
    d.isBetween i j = true ↔ s(k, l) = s(i, j) := by
  unfold ofClaim at h
  split at h
  · cases h
  · cases h
    simp only [isBetween, Bool.or_eq_true, Bool.and_eq_true, beq_iff_eq, Sym2.eq_iff]
    split <;> tauto

end Debt

/-! ## Entries -/

theorem Decimal.finestPlace_le_centExponent : Decimal.finestPlace ≤ Decimal.centExponent := by
  decide

/-- An amount to the cent has no digits to round. -/
theorem Decimal.magnitude_cents (negative : Bool) {n : ℕ} (h : n < 10 ^ Decimal.precision) :
    Decimal.magnitude ⟨negative, n, Decimal.centExponent⟩ = ⟨false, n, Decimal.centExponent⟩ := by
  have hcount := (Decimal.digitCount_le_iff (by decide)).mpr h
  unfold Decimal.magnitude
  rcases Nat.eq_zero_or_pos n with rfl | hpos
  · rfl
  · exact Decimal.round_of_surplus_eq_zero hpos.ne'
      (Decimal.surplus_eq_zero_iff.mpr ⟨hcount, finestPlace_le_centExponent⟩)

theorem Amount.lt_cent_iff (n : ℕ) :
    (⟨false, n, Decimal.centExponent⟩ : Decimal) < Amount.cent ↔ n = 0 := by
  rw [Decimal.lt_iff_toRat_lt, Decimal.toRat_of_not_negative rfl, Amount.cent,
    Decimal.toRat_of_not_negative rfl, mul_lt_mul_iff_left₀ (Decimal.ten_zpow_pos _),
    Nat.cast_lt, Nat.lt_one_iff]

/-- An entry leaves what its balance, seen from the other side, claims. -/
theorem Entry.debt?_eq {e : Entry} (h : |e.balance.toRat| < 10 ^ 26 - 1 / 200) :
    e.debt? = .ok (Debt.ofClaim e.sender e.recipient (-e.balance.toRat)) := by
  have hsize : (nearestCents e.balance.toRat).natAbs < 10 ^ Decimal.precision := by
    rw [Decimal.natAbs_nearestCents_toRat]
    exact (Decimal.hundredths_lt_iff e.balance).mpr h
  have hcents : Amount.toCents e.balance = .ok ⟨e.balance.negative,
      (nearestCents e.balance.toRat).natAbs, Decimal.centExponent⟩ := by
    rw [Amount.toCents, Decimal.toCents?_eq h]
  unfold Entry.debt? Debt.ofClaim
  rw [hcents, bind_ok, Decimal.magnitude_cents _ hsize, Decimal.nearestCents_neg, Int.natAbs_neg]
  by_cases hzero : nearestCents e.balance.toRat = 0
  · -- Less than a cent is settled.
    rw [if_pos ((Amount.lt_cent_iff _).mpr (Int.natAbs_eq_zero.mpr hzero)),
      if_pos (neg_eq_zero.mpr hzero)]
    rfl
  · -- The sign of the decimal is that of its value, which is not zero.
    have hbalance : e.balance.toRat ≠ 0 := by
      intro hnone
      rw [hnone] at hzero
      exact hzero Decimal.nearestCents_zero
    rw [if_neg (mt (Amount.lt_cent_iff _).mp (mt Int.natAbs_eq_zero.mp hzero)),
      if_neg (neg_ne_zero.mpr hzero)]
    cases hsign : e.balance.negative with
    | true =>
      have hneg : e.balance.toRat < 0 := by
        refine lt_of_le_of_ne ?_ hbalance
        rw [Decimal.toRat_of_negative hsign, neg_nonpos]
        exact mul_nonneg (Nat.cast_nonneg _) (Decimal.ten_zpow_pos _).le
      rw [if_pos (by simp [Decimal.isBelowZero, hzero]), if_pos (neg_pos.mpr hneg),
        if_pos (neg_pos.mpr hneg)]
      rfl
    | false =>
      have hpos : ¬ 0 < -e.balance.toRat := by
        have := Decimal.toRat_nonneg_of_not_negative hsign
        linarith
      rw [if_neg (by simp [Decimal.isBelowZero]), if_neg hpos, if_neg hpos]
      rfl

/-- Only a balance that is too long to the cent keeps an entry from leaving anything. -/
theorem Entry.exists_debt?_iff (e : Entry) :
    (∃ debt, e.debt? = .ok debt) ↔ |e.balance.toRat| < 10 ^ 26 - 1 / 200 := by
  constructor
  · rintro ⟨debt, hdebt⟩
    obtain ⟨cents, hcents, -⟩ := bind_eq_ok.mp hdebt
    exact (Decimal.hundredths_lt_iff _).mp (Amount.toCents_eq_ok_iff.mp hcents).1
  · exact fun h => ⟨_, e.debt?_eq h⟩

/-- What an entry leaves open. -/
def Entry.claim (e : Entry) : Option Debt :=
  Debt.ofClaim e.sender e.recipient (-e.balance.toRat)

/-! ## Balances -/

namespace Balance

theorem stableSort_entriesFor (b : Balance) (account : ℤ) :
    StableSort (fun e : Entry => e.balance.toRat) (b.entriesFor account)
      ((b.entriesFor account).mergeSort fun x y => x.balance ≤ y.balance) := by
  simp only [Decimal.le_iff_toRat_le]
  exact .mergeSort le_refl le_trans le_total _

/-- The debts of an account are what its entries leave, those of the lowest balances first. -/
theorem debtsOf_eq {b : Balance} (account : ℤ)
    (hsmall : ∀ e ∈ b.entriesFor account, |e.balance.toRat| < 10 ^ 26 - 1 / 200) :
    ∃ es, StableSort (fun e : Entry => e.balance.toRat) (b.entriesFor account) es ∧
      b.debtsOf account = .ok (es.filterMap Entry.claim) := by
  have hsort := b.stableSort_entriesFor account
  refine ⟨_, hsort, ?_⟩
  have hmap := mapM_of_forall (f := Entry.debt?) (g := Entry.claim) fun e he =>
    Entry.debt?_eq (hsmall e (hsort.perm.mem_iff.mp he))
  unfold debtsOf
  dsimp only
  rw [hmap, bind_ok, List.filterMap_map]
  rfl

theorem exists_debtsOf_iff (b : Balance) (account : ℤ) :
    (∃ debts, b.debtsOf account = .ok debts) ↔
      ∀ e ∈ b.entriesFor account, |e.balance.toRat| < 10 ^ 26 - 1 / 200 := by
  constructor
  · rintro ⟨debts, hdebts⟩ e he
    obtain ⟨all, hall, -⟩ := bind_eq_ok.mp hdebts
    obtain ⟨debt, -, hdebt⟩ := exists_ok_of_mapM_eq_ok hall e
      ((b.stableSort_entriesFor account).perm.mem_iff.mpr he)
    exact e.exists_debt?_iff.mp ⟨debt, hdebt⟩
  · intro hsmall
    obtain ⟨es, -, hdebts⟩ := debtsOf_eq account hsmall
    exact ⟨_, hdebts⟩

/-- The debts between two accounts come from the entries of their pair. -/
theorem filter_claims (es : List Entry) (i j : ℤ) :
    (es.filterMap Entry.claim).filter (Debt.isBetween i j) =
      (es.filter fun e => e.pair = s(i, j)).filterMap Entry.claim := by
  rw [List.filter_filterMap, List.filterMap_filter]
  congr 1
  funext e
  cases hclaim : e.claim with
  | none => simp
  | some d =>
    have hbetween := Debt.isBetween_of_ofClaim (i := i) (j := j) hclaim
    by_cases hpair : e.pair = s(i, j)
    · simp [hpair, hbetween.mpr hpair]
    · have hother : d.isBetween i j = false := by
        rw [← Bool.not_eq_true]
        exact mt hbetween.mp hpair
      simp [hpair, hother]

/-- An account has one entry with another one, or none. -/
theorem WellFormed.filter_pair {b : Balance} (wf : b.WellFormed) {es : List Entry} {i j : ℤ}
    (hes : es.Perm (b.entriesFor i)) :
    (∃ e ∈ b.entries, e.pair = s(i, j) ∧ (es.filter fun e => e.pair = s(i, j)) = [e]) ∨
      s(i, j) ∉ b.entries.map Entry.pair ∧ (es.filter fun e => e.pair = s(i, j)) = [] := by
  have hmem : ∀ e, e ∈ (es.filter fun e => e.pair = s(i, j)) ↔
      e ∈ b.entries ∧ e.pair = s(i, j) := by
    intro e
    rw [List.mem_filter, hes.mem_iff, entriesFor, List.mem_filter, decide_eq_true_iff,
      and_assoc, and_congr_right_iff, and_iff_right_iff_imp]
    intro he hpair
    rcases (e.pair_eq_iff i j).mp hpair with h | h
    · simp [Entry.involves, h.1]
    · simp [Entry.involves, h.2]
  by_cases hseen : s(i, j) ∈ b.entries.map Entry.pair
  · obtain ⟨e, he, hpair⟩ := List.mem_map.mp hseen
    refine .inl ⟨e, he, hpair, ?_⟩
    have hnodup : (es.filter fun e => e.pair = s(i, j)).Nodup :=
      (hes.nodup_iff.mpr (wf.nodup.of_map.filter _)).filter _
    rw [← List.perm_singleton, List.perm_ext_iff_of_nodup hnodup (List.nodup_singleton e)]
    intro x
    rw [hmem, List.mem_singleton]
    constructor
    · rintro ⟨hx, hxpair⟩
      exact wf.eq_of_pair_eq hx he (hxpair.trans hpair.symm)
    · rintro rfl
      exact ⟨he, hpair⟩
  · refine .inr ⟨hseen, List.eq_nil_iff_forall_not_mem.mpr fun e he => hseen ?_⟩
    obtain ⟨he, hpair⟩ := (hmem e).mp he
    exact List.mem_map.mpr ⟨e, he, hpair⟩

/-- Each account of an entry has what the entry leaves, and nothing else, with the other. -/
theorem WellFormed.debtsOf_entry {b : Balance} (wf : b.WellFormed)
    (hsmall : ∀ e ∈ b.entries, |e.balance.toRat| < 10 ^ 26 - 1 / 200) {e : Entry}
    (he : e ∈ b.entries) {i : ℤ} (hi : i = e.sender ∨ i = e.recipient) :
    ∃ debts, b.debtsOf i = .ok debts ∧
      debts.filter (Debt.isBetween e.sender e.recipient) = e.claim.toList := by
  obtain ⟨es, hes, hdebts⟩ := debtsOf_eq i fun e he => hsmall e (List.mem_of_mem_filter he)
  refine ⟨_, hdebts, ?_⟩
  have hentry : (es.filter fun x => x.pair = s(e.sender, e.recipient)) = [e] := by
    obtain ⟨j, hj⟩ : ∃ j, s(i, j) = s(e.sender, e.recipient) := by
      rcases hi with rfl | rfl
      · exact ⟨e.recipient, rfl⟩
      · exact ⟨e.sender, Sym2.eq_swap⟩
    rw [← hj]
    rcases wf.filter_pair (j := j) hes.perm with ⟨x, hx, hpair, heq⟩ | ⟨hseen, -⟩
    · rw [heq, wf.eq_of_pair_eq hx he (hpair.trans hj)]
    · exact absurd (hj ▸ List.mem_map_of_mem (f := Entry.pair) he) hseen
  rw [filter_claims, hentry]
  rfl

/-- To the cent, the entries are the tallies of the transactions, one for each pair that has
any. -/
structure NetsCents (b : Balance) (ts : List Transaction) : Prop where
  wf : b.WellFormed
  small : ∀ e ∈ b.entries, |e.balance.toRat| < 10 ^ 26 - 1 / 200
  claim_eq : ∀ e ∈ b.entries,
    e.claim = Debt.ofClaim e.sender e.recipient (-tally ts e.sender e.recipient)
  seen_iff : ∀ p, p ∈ b.entries.map Entry.pair ↔ p ∈ ts.map Transaction.pair

/-- Amounts that have no digit above the finest place are next to nothing, also if they are
rounded. -/
theorem four_mul_sum_lt_of_tiny {f : ℕ} (hf : ¬ f ≤ 1000026) {ts : List Transaction}
    (hexact : ExactTotals f ts) : 4 * (ts.map (·.amount.toRat)).sum < 1 / 200 := by
  have hscale : (10 : ℚ) ^ ((Decimal.precision : ℤ) - f) ≤ 10 ^ (-4 : ℤ) := by
    refine zpow_le_zpow_right₀ (by norm_num) ?_
    have hdigits : Decimal.precision = 28 := rfl
    omega
  calc 4 * (ts.map (·.amount.toRat)).sum
      ≤ 4 * 10 ^ (-4 : ℤ) :=
        mul_le_mul_of_nonneg_left (hexact.small.le.trans hscale) (by norm_num)
    _ < 1 / 200 := by norm_num

theorem Running.netsCents {b : Balance} {ts : List Transaction} (h : Running b ts) {f : ℕ}
    (hf : 2 ≤ f) (hexact : ExactTotals f ts) (hvalid : ∀ t ∈ ts, t.Valid) : NetsCents b ts := by
  by_cases hplace : f ≤ 1000026
  · -- No sum is rounded.
    have hnets := h.nets (Decimal.finestPlace_le_neg hplace) hexact hvalid
    refine ⟨h.wf, fun e he => ?_, fun e he => ?_, h.seen_iff⟩
    · rw [hnets.balance_eq e he]
      exact (fits_tally hexact hvalid e.sender e.recipient).lt_of_two_le hf
    · rw [Entry.claim, hnets.balance_eq e he]
  · -- Whatever the sums are rounded to, it is no cent.
    have htiny := four_mul_sum_lt_of_tiny hplace hexact
    have hbalance : ∀ e ∈ b.entries, |e.balance.toRat| < 1 / 200 := by
      intro e he
      rw [(h.sums e he).2]
      refine (abs_toRat_summed_le ts e.sender e.recipient).trans_lt ?_
      rwa [Transaction.sum_abs_amounts hvalid]
    refine ⟨h.wf, fun e he => (hbalance e he).trans (by norm_num), fun e he => ?_, h.seen_iff⟩
    have htally : |tally ts e.sender e.recipient| < 1 / 200 := by
      linarith [abs_tally_le hvalid e.sender e.recipient, Transaction.sum_amounts_nonneg hvalid]
    rw [Entry.claim, Debt.ofClaim_of_abs_lt _ _ (by rw [abs_neg]; exact hbalance e he),
      Debt.ofClaim_of_abs_lt _ _ (by rwa [abs_neg])]

/-- Between two accounts there is the debt that their transactions leave. -/
theorem NetsCents.debtsOf {b : Balance} {ts : List Transaction} (h : NetsCents b ts) (i : ℤ) :
    ∃ debts, b.debtsOf i = .ok debts ∧ ∀ j, j ≠ i →
      debts.filter (Debt.isBetween i j) = (Debt.ofClaim i j (-tally ts i j)).toList := by
  obtain ⟨es, hes, hdebts⟩ := debtsOf_eq i fun e he => h.small e (List.mem_of_mem_filter he)
  refine ⟨_, hdebts, fun j hne => ?_⟩
  rw [filter_claims]
  rcases h.wf.filter_pair (j := j) hes.perm with ⟨e, he, hpair, heq⟩ | ⟨hseen, heq⟩
  · have hclaim : e.claim = Debt.ofClaim i j (-tally ts i j) := by
      rw [h.claim_eq e he]
      rcases (e.pair_eq_iff i j).mp hpair with ⟨hs, hr⟩ | ⟨hs, hr⟩
      · rw [hs, hr]
      · -- Seen from the other account, the claim and the tally both change sign.
        rw [hs, hr, ← Debt.ofClaim_neg, tally_swap ts hne]
    rw [heq, ← hclaim]
    rfl
  · rw [heq, tally_eq_zero (mt (h.seen_iff _).mpr hseen), neg_zero, Debt.ofClaim_zero]
    rfl

end Balance

/-! ## Statements -/

/-- The exact sum of the amounts. -/
def Transaction.total (ts : List Transaction) : ℚ := (ts.map (·.amount.toRat)).sum

theorem Transaction.total_perm {ts us : List Transaction} (h : ts.Perm us) :
    total ts = total us :=
  (h.map _).sum_eq

namespace Statement

/-- What the account owes another one by the four sections of its statement. -/
def owedTo (s : Statement) (j : ℤ) : ℚ :=
  Transaction.total (s.toPay.filter (·.recipient == j)) -
    Transaction.total (s.credited.filter (·.sender == j)) -
    Transaction.total (s.paid.filter (·.recipient == j)) +
    Transaction.total (s.received.filter (·.sender == j))

theorem byDate_perm (ts : List Transaction) : (byDate ts).Perm ts := List.mergeSort_perm _ _

theorem total_byDate_sender (ts : List Transaction) (i j : ℤ) :
    Transaction.total ((byDate (ts.filter (·.sender == i))).filter (·.recipient == j)) =
      Balance.sent ts i j := by
  rw [Transaction.total_perm ((byDate_perm _).filter _), List.filter_filter, Transaction.total,
    Balance.sent]
  simp only [Bool.and_comm]

theorem total_byDate_recipient (ts : List Transaction) (i j : ℤ) :
    Transaction.total ((byDate (ts.filter (·.recipient == i))).filter (·.sender == j)) =
      Balance.sent ts j i := by
  rw [Transaction.total_perm ((byDate_perm _).filter _), List.filter_filter]
  rfl

/-- The statement of the account with an index, given its debts. -/
def ofIndex (l : Ledger) (i : ℕ) (account : Account) (debts : List Debt) : Statement where
  index := i
  account := account
  referenceDate := l.referenceDate
  toPay := byDate (l.invoices.filter (·.sender == (i : ℤ)))
  credited := byDate (l.invoices.filter (·.recipient == (i : ℤ)))
  paid := byDate (l.payments.filter (·.sender == (i : ℤ)))
  received := byDate (l.payments.filter (·.recipient == (i : ℤ)))
  outstanding := debts

/-- The statement of an account is found by its acronym, if its debts can be told. -/
theorem ofAcronym_eq_ok_iff {l : Ledger} (hl : l.accounts.Distinct) {b : Balance} {i : ℕ}
    {account : Account} (haccount : l.accounts.accounts[i]? = some account) {s : Statement} :
    ofAcronym l b account.acronym = .ok s ↔
      ∃ debts, b.debtsOf i = .ok debts ∧ s = ofIndex l i account debts := by
  have hresolve : l.accounts.resolve account.acronym = .ok i :=
    Registry.resolve_eq_ok_iff.mpr (hl.find?_eq_some_iff.mpr ⟨account, haccount, rfl⟩)
  rw [ofAcronym, hresolve, bind_ok, Registry.get_of_getElem? haccount, bind_ok, bind_eq_ok]
  refine exists_congr fun debts => and_congr_right fun _ => ?_
  rw [pure_eq, Except.ok.injEq, eq_comm]
  rfl

theorem ofAcronym_eq_ok {l : Ledger} (hl : l.accounts.Distinct) {b : Balance} {i : ℕ}
    {account : Account} (haccount : l.accounts.accounts[i]? = some account) {debts : List Debt}
    (hdebts : b.debtsOf i = .ok debts) :
    ofAcronym l b account.acronym = .ok (ofIndex l i account debts) :=
  (ofAcronym_eq_ok_iff hl haccount).mpr ⟨debts, hdebts, rfl⟩

theorem owedTo_ofIndex (l : Ledger) (i : ℕ) (account : Account) (debts : List Debt) (j : ℤ) :
    (ofIndex l i account debts).owedTo j =
      Balance.sent l.invoices i j - Balance.sent l.invoices j i -
        Balance.sent l.payments i j + Balance.sent l.payments j i := by
  unfold owedTo ofIndex
  rw [total_byDate_sender, total_byDate_recipient, total_byDate_sender, total_byDate_recipient]

end Statement

/-- The sections of a statement say what its account owes by all transactions. -/
theorem Ledger.WellFormed.tally_eq {l : Ledger} (h : l.WellFormed) {i j : ℤ} (hne : i ≠ j) :
    -Balance.tally (l.invoices ++ l.payments) i j =
      Balance.sent l.invoices i j - Balance.sent l.invoices j i -
        Balance.sent l.payments i j + Balance.sent l.payments j i := by
  have hinvoices : ∀ t ∈ l.invoices, t.role = .invoice := fun t ht => (h.invoices t ht).role_eq
  have hpayments : ∀ t ∈ l.payments, t.role = .payment := fun t ht => (h.payments t ht).role_eq
  rw [Balance.tally_append, Balance.tally_of_invoices hinvoices hne,
    Balance.tally_of_payments hpayments hne]
  ring

/-- The debts of a statement are explained by its own sections. -/
theorem Statement.outstanding_eq {options : Options} {text : String} {l : Ledger}
    (h : Ledger.ofString options text = .ok l) {f : ℕ} (hf : 2 ≤ f)
    (hexact : ExactTotals f (l.invoices ++ l.payments)) :
    ∃ b, l.balance = .ok b ∧
      ∀ (i : ℕ) (account : Account), l.accounts.accounts[i]? = some account →
        ∃ s, Statement.ofAcronym l b account.acronym = .ok s ∧ s.index = i ∧
          ∀ j : ℤ, j ≠ i →
            s.outstanding.filter (Debt.isBetween i j) =
              (Debt.ofClaim i j (s.owedTo j)).toList := by
  have hl := Ledger.wellFormed_of_ofString h
  obtain ⟨b, hb⟩ := hl.failsIff_balance.exists_iff.mpr
    (not_not.mpr (Balance.nettable_of_exactTotals hexact hl.valid))
  have hnets := (hl.running hb).netsCents hf hexact hl.valid
  refine ⟨b, hb, fun i account haccount => ?_⟩
  obtain ⟨debts, hdebts, hbetween⟩ := hnets.debtsOf i
  refine ⟨_, Statement.ofAcronym_eq_ok hl.distinct haccount hdebts, rfl, fun j hne => ?_⟩
  rw [Statement.owedTo_ofIndex, ← hl.tally_eq (Ne.symm hne)]
  exact hbetween j hne

/-- A bill of which a part is paid. -/
def lunchText : String :=
  "accounting_date 7.7.2023\naccount AA Anna\naccount BB Bert\n" ++
    "invoice AA -> BB 10.00 5.5.2023 lunch\npayment AA -> BB 4.00 6.6.2023 lunch\n"

/-- The ledger of the text. -/
def lunchLedger : Ledger where
  referenceDate := ⟨2023, 7, 7, by decide, by decide, by decide⟩
  accounts := ⟨[⟨"AA", "Anna"⟩, ⟨"BB", "Bert"⟩], true⟩
  invoices := [⟨0, 1, ⟨false, 1000, -2⟩, ⟨2023, 5, 5, by decide, by decide, by decide⟩, "lunch",
    .invoice⟩]
  payments := [⟨0, 1, ⟨false, 400, -2⟩, ⟨2023, 6, 6, by decide, by decide, by decide⟩, "lunch",
    .payment⟩]

theorem Statement.outstanding_eq_lunch :
    Ledger.ofString {} lunchText = .ok lunchLedger ∧
      ExactTotals 2 (lunchLedger.invoices ++ lunchLedger.payments) ∧
      ∃ b, lunchLedger.balance = .ok b ∧
        ∀ (i : ℕ) (account : Account), lunchLedger.accounts.accounts[i]? = some account →
          ∃ s, Statement.ofAcronym lunchLedger b account.acronym = .ok s ∧ s.index = i ∧
            ∀ j : ℤ, j ≠ i →
              s.outstanding.filter (Debt.isBetween i j) =
                (Debt.ofClaim i j (s.owedTo j)).toList := by
  have hread : Ledger.ofString {} lunchText = .ok lunchLedger :=
    toOption_eq_some.mp (by decide +kernel)
  have hexact : ExactTotals 2 (lunchLedger.invoices ++ lunchLedger.payments) := by
    constructor
    · simp only [lunchLedger, List.singleton_append, List.forall_mem_cons, Decimal.HasPlaces]
      exact ⟨⟨1000, rfl⟩, ⟨400, rfl⟩, fun t ht => absurd ht List.not_mem_nil⟩
    · norm_num [lunchLedger, Decimal.toRat, Decimal.signed, Decimal.precision]
  exact ⟨hread, hexact, Statement.outstanding_eq hread (Nat.le_refl 2) hexact⟩

end HouseLedger
