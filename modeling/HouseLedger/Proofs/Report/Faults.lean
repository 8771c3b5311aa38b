import HouseLedger.Proofs.Decimal.Error
import HouseLedger.Proofs.Related
import HouseLedger.Proofs.Statement.Sections
import HouseLedger.Report.StatementText

/-!
# Amounts that are too long to be shown

Amounts are shown to the cent, for which they have to be less than half a cent below `10 ^ 26`:
others are too long (`Decimal.TooLong`). Nothing else can go wrong in a report on a ledger that
was read and has a balance, for its transactions and entries are between accounts that exist, and
none of its amounts is below zero:

* `Ledger.WellFormed.overview_failsIff`: the overview fails if it has an amount that is too long;
* `Statement.ofAcronym_failsIff`: a statement cannot be made if an entry of its account is too
  long;
* `Ledger.WellFormed.statement_failsIff`: a statement cannot be shown if one of its transactions
  is too long;
* `Ledger.reports_failsIff`: so for every ledger that is read.
-/

namespace HouseLedger

open Outcome
open Decimal (precision powerOfTen)

/-! ## Amounts -/

namespace Decimal

/-- Written to the cent, the amount has more digits than decimals keep. -/
def TooLong (x : Decimal) : Prop := 10 ^ 26 - 1 / 200 ≤ |x.toRat|

theorem not_tooLong_iff {x : Decimal} : ¬ x.TooLong ↔ x.hundredths < powerOfTen precision := by
  rw [hundredths_lt_iff, TooLong, not_le]

/-- An amount to the cent is itself in cents. -/
theorem hundredths_cents (negative : Bool) (n : ℕ) :
    hundredths ⟨negative, n, centExponent⟩ = n := by
  simp [hundredths, powerOfTen]

/-- A rounded decimal is either a whole number of cents or far below `10 ^ 26`. -/
theorem not_tooLong_of_digitCount_le {x : Decimal} (h : digitCount x.coefficient ≤ precision)
    (hlt : |x.toRat| < 10 ^ 26) : ¬ x.TooLong := by
  have hdigits : x.coefficient < 10 ^ 28 := (digitCount_le_iff (by decide)).mp h
  rw [TooLong, not_le]
  rw [abs_toRat] at hlt ⊢
  rcases lt_or_ge x.exponent (-2) with hlow | hhigh
  · have hplace : (10 : ℚ) ^ x.exponent ≤ 10 ^ (-3 : ℤ) :=
      zpow_le_zpow_right₀ (by norm_num) (by omega)
    calc (x.coefficient : ℚ) * 10 ^ x.exponent ≤ 10 ^ 28 * 10 ^ (-3 : ℤ) := by
          gcongr
          exact_mod_cast hdigits.le
      _ < 10 ^ 26 - 1 / 200 := by norm_num
  · obtain ⟨k, hk⟩ : ∃ k : ℕ, x.exponent = k - 2 := ⟨(x.exponent + 2).toNat, by omega⟩
    have hcents : (x.coefficient : ℚ) * 10 ^ x.exponent = (x.coefficient * 10 ^ k : ℕ) / 100 := by
      rw [hk, zpow_sub₀ (by norm_num), zpow_natCast]
      push_cast
      ring
    rw [hcents] at hlt ⊢
    have hwhole : x.coefficient * 10 ^ k + 1 ≤ 10 ^ 28 := by
      rw [Nat.add_one_le_iff]
      rw [div_lt_iff₀ (by norm_num)] at hlt
      have hlt' : ((x.coefficient * 10 ^ k : ℕ) : ℚ) < (10 ^ 28 : ℕ) := by
        push_cast at hlt ⊢
        linarith
      exact_mod_cast hlt'
    have hwhole' : ((x.coefficient * 10 ^ k : ℕ) : ℚ) + 1 ≤ 10 ^ 28 := by exact_mod_cast hwhole
    rw [div_lt_iff₀ (by norm_num)]
    linarith

/-- Rounding makes no amount too long. -/
theorem not_tooLong_round {x : Decimal} (h : ¬ x.TooLong) : ¬ x.round.TooLong := by
  rw [TooLong, not_le] at h
  refine not_tooLong_of_digitCount_le (digitCount_round_le x) ?_
  have hplace : max ((26 : ℤ) - precision) finestPlace = -2 := by decide
  have hround : |x.round.toRat - x.toRat| ≤ 10 ^ (-2 : ℤ) / 2 :=
    hplace ▸ abs_toRat_round_sub_le (by norm_num at h ⊢; linarith)
  norm_num at hround
  linarith [abs_sub_abs_le_abs_sub x.round.toRat x.toRat]

end Decimal

namespace Amount

theorem toCents_failsIff (x : Decimal) : FailsIff .centsTooLong x.TooLong (toCents x) := by
  unfold toCents Decimal.toCents?
  by_cases h : x.hundredths < powerOfTen precision
  · rw [if_pos h]
    exact .ok _ (Decimal.not_tooLong_iff.mpr h)
  · rw [if_neg h]
    exact .error (not_not.mp (mt Decimal.not_tooLong_iff.mp h))

theorem display_failsIff {x : Decimal} (h : 0 ≤ x.toRat) (currency : String) :
    FailsIff .centsTooLong x.TooLong (display x currency) := by
  unfold display
  rw [(Decimal.isBelowZero_eq_false_iff x).mpr h]
  exact (toCents_failsIff x).map

theorem displaySigned_failsIff (x : Decimal) (currency : String) :
    FailsIff .centsTooLong x.TooLong (displaySigned x currency) := by
  have hmagnitude : x.magnitude.TooLong ↔ x.round.TooLong := by
    rw [← not_iff_not, Decimal.not_tooLong_iff, Decimal.not_tooLong_iff,
      Decimal.hundredths_magnitude]
  have hnonneg := Decimal.toRat_nonneg_of_not_negative (Decimal.negative_magnitude x)
  refine ((toCents_failsIff x).bind fun _ _ => (display_failsIff hnonneg currency).map).of_iff ?_
  rw [hmagnitude]
  exact ⟨fun h => h.elim id (not_imp_not.mp Decimal.not_tooLong_round), .inl⟩

end Amount

/-! ## What can be shown -/

/-- A report can show the transaction if its amount is short enough: both accounts are there, and
the amount is not below zero. -/
structure Transaction.Presentable (r : Registry) (t : Transaction) : Prop where
  sender : ∃ a, r.get t.sender = .ok a
  recipient : ∃ a, r.get t.recipient = .ok a
  amount_nonneg : 0 ≤ t.amount.toRat

structure Entry.Presentable (r : Registry) (e : Entry) : Prop where
  sender : ∃ a, r.get e.sender = .ok a
  recipient : ∃ a, r.get e.recipient = .ok a

structure Debt.Presentable (r : Registry) (d : Debt) : Prop where
  debtor : ∃ a, r.get d.debtor = .ok a
  creditor : ∃ a, r.get d.creditor = .ok a
  amount_nonneg : 0 ≤ d.amount.toRat

/-- The debt that an entry leaves can be shown, and is not too long if the entry is not. -/
theorem Entry.Presentable.of_claim {r : Registry} {e : Entry} (he : e.Presentable r)
    (hshort : ¬ e.balance.TooLong) {d : Debt} (h : e.claim = some d) :
    d.Presentable r ∧ ¬ d.amount.TooLong := by
  rw [Decimal.not_tooLong_iff] at hshort
  unfold claim Debt.ofClaim at h
  split at h
  · cases h
  · cases h
    refine ⟨⟨?_, ?_, Decimal.toRat_nonneg_of_not_negative rfl⟩, ?_⟩
    · dsimp only
      split
      · exact he.sender
      · exact he.recipient
    · dsimp only
      split
      · exact he.recipient
      · exact he.sender
    · rw [Decimal.nearestCents_neg, Int.natAbs_neg, Decimal.natAbs_nearestCents_toRat,
        Decimal.not_tooLong_iff, Decimal.hundredths_cents]
      exact hshort

namespace Ledger

variable {l : Ledger}

theorem WellFormed.presentable (h : l.WellFormed) {t : Transaction}
    (ht : t ∈ l.invoices ++ l.payments) : t.Presentable l.accounts := by
  obtain ⟨⟨i, hi, hi'⟩, j, hj, hj'⟩ := h.exists_indices ht
  refine ⟨?_, ?_, (h.valid t ht).amount_nonneg⟩
  · rw [hi]
    exact ⟨_, Registry.get_of_getElem? (List.getElem?_eq_getElem hi')⟩
  · rw [hj]
    exact ⟨_, Registry.get_of_getElem? (List.getElem?_eq_getElem hj')⟩

theorem WellFormed.presentable_entry (h : l.WellFormed) {b : Balance} (hb : l.balance = .ok b)
    {e : Entry} (he : e ∈ b.entries) : e.Presentable l.accounts := by
  obtain ⟨i, j, sender, recipient, hi, hj, hsender, hrecipient⟩ := h.exists_accounts hb he
  refine ⟨?_, ?_⟩
  · rw [hi]
    exact ⟨sender, Registry.get_of_getElem? hsender⟩
  · rw [hj]
    exact ⟨recipient, Registry.get_of_getElem? hrecipient⟩

end Ledger

/-! ## The overview -/

namespace Report

variable {r : Registry} {l : Ledger} {b : Balance}

theorem transactionLine_failsIff {t : Transaction} (h : t.Presentable r) (currency : String) :
    FailsIff .centsTooLong t.amount.TooLong (transactionLine r currency t) := by
  obtain ⟨sender, hsender⟩ := h.sender
  obtain ⟨recipient, hrecipient⟩ := h.recipient
  unfold transactionLine
  rw [hsender, bind_ok, hrecipient, bind_ok]
  exact (Amount.display_failsIff h.amount_nonneg currency).map

theorem entryLine_failsIff {e : Entry} (h : e.Presentable r) (currency : String) :
    FailsIff .centsTooLong e.balance.TooLong (entryLine r currency e) := by
  obtain ⟨sender, hsender⟩ := h.sender
  obtain ⟨recipient, hrecipient⟩ := h.recipient
  unfold entryLine
  rw [hsender, bind_ok, hrecipient, bind_ok]
  exact (Amount.displaySigned_failsIff e.balance currency).map

/-- An overview fails exactly if an amount or a balance is too long. -/
theorem overview_failsIff (hts : ∀ t ∈ l.invoices ++ l.payments, t.Presentable l.accounts)
    (hes : ∀ e ∈ b.entries, e.Presentable l.accounts) (currency : String) :
    FailsIff .centsTooLong
      ((∃ t ∈ l.invoices ++ l.payments, t.amount.TooLong) ∨ ∃ e ∈ b.entries, e.balance.TooLong)
      (overview l b currency) := by
  have hinvoices := FailsIff.mapM fun t ht =>
    transactionLine_failsIff (hts t (List.mem_append_left l.payments ht)) currency
  have hpayments := FailsIff.mapM fun t ht =>
    transactionLine_failsIff (hts t (List.mem_append_right l.invoices ht)) currency
  have hentries := FailsIff.mapM fun e he => entryLine_failsIff (hes e he) currency
  refine (FailsIff.map (hinvoices.bind fun _ _ => hpayments.bind fun _ _ =>
    hentries.map)).of_iff ?_
  simp only [List.mem_append, or_and_right, exists_or, or_assoc]

end Report

/-! ## Statements -/

theorem Entry.debt?_failsIff (e : Entry) : FailsIff .centsTooLong e.balance.TooLong e.debt? := by
  unfold debt?
  refine ((Amount.toCents_failsIff e.balance).bind fun rounded _ => ?_).of_iff
    (iff_of_eq (or_false _))
  split
  · exact .of_ok rfl
  · split
    · exact .of_ok rfl
    · exact .of_ok rfl

namespace Statement

variable {l : Ledger} {b : Balance}

/-- The transactions of the four sections. -/
def transactions (s : Statement) : List Transaction :=
  s.toPay ++ s.credited ++ s.paid ++ s.received

theorem ofAcronym_of_unknown {acronym : String} (h : l.accounts.contains acronym = false) :
    ofAcronym l b acronym = .error (.accountUnknown acronym) := by
  have hnone : l.accounts.find? acronym = none := by
    rw [← Option.not_isSome_iff_eq_none, Bool.not_eq_true]
    exact h
  unfold ofAcronym
  rw [Registry.resolve_eq_error_iff.mpr ⟨hnone, rfl⟩]
  rfl

/-- An account has a statement exactly if none of its entries is too long. -/
theorem ofAcronym_failsIff (hl : l.accounts.Distinct) {i : ℕ} {account : Account}
    (haccount : l.accounts.accounts[i]? = some account) :
    FailsIff .centsTooLong (∃ e ∈ b.entriesFor i, e.balance.TooLong)
      (ofAcronym l b account.acronym) := by
  have hresolve : l.accounts.resolve account.acronym = .ok i :=
    Registry.resolve_eq_ok_iff.mpr (hl.find?_eq_some_iff.mpr ⟨account, haccount, rfl⟩)
  have hdebts : FailsIff .centsTooLong (∃ e ∈ b.entriesFor i, e.balance.TooLong)
      (b.debtsOf i) := by
    refine (FailsIff.mapM fun e _ => e.debt?_failsIff).map.of_iff ?_
    simp only [(b.stableSort_entriesFor i).perm.mem_iff]
  unfold ofAcronym
  rw [hresolve, bind_ok, Registry.get_of_getElem? haccount, bind_ok]
  exact hdebts.map

/-- Why an account has no statement. -/
theorem ofAcronym_eq_error_iff (hl : l.accounts.Distinct) {acronym : String} {fault : Fault} :
    ofAcronym l b acronym = .error fault ↔
      l.accounts.contains acronym = false ∧ fault = .accountUnknown acronym ∨
        ∃ (i : ℕ) (account : Account), l.accounts.accounts[i]? = some account ∧
          account.acronym = acronym ∧ (∃ e ∈ b.entriesFor i, e.balance.TooLong) ∧
            fault = .centsTooLong := by
  cases hknown : l.accounts.contains acronym with
  | false =>
    rw [ofAcronym_of_unknown hknown]
    constructor
    · intro h
      exact .inl ⟨rfl, (Except.error.inj h).symm⟩
    · rintro (⟨-, rfl⟩ | ⟨i, account, haccount, rfl, -⟩)
      · rfl
      · have hfind := hl.find?_eq_some_iff.mpr ⟨account, haccount, rfl⟩
        rw [Registry.contains, hfind] at hknown
        cases hknown
  | true =>
    obtain ⟨i, hi⟩ := Option.isSome_iff_exists.mp hknown
    obtain ⟨account, haccount, rfl⟩ := Registry.getElem?_of_find? hi
    rw [(ofAcronym_failsIff hl haccount).eq_error_iff]
    constructor
    · exact fun h => .inr ⟨i, account, haccount, rfl, h⟩
    · rintro (⟨⟨⟩, -⟩ | ⟨j, other, hother, hsame, h⟩)
      have hj := hl.find?_eq_some_iff.mpr ⟨other, hother, hsame⟩
      rwa [Option.some_inj.mp (hi.symm.trans hj)]

/-- What a statement tells of is part of the ledger. -/
theorem mem_of_ofAcronym (hl : l.accounts.Distinct) {acronym : String} {s : Statement}
    (hs : ofAcronym l b acronym = .ok s) :
    (∀ t ∈ s.transactions, t ∈ l.invoices ++ l.payments) ∧
      ∀ d ∈ s.outstanding, ∃ e ∈ b.entries, ¬ e.balance.TooLong ∧ e.claim = some d := by
  obtain ⟨index, hindex, -⟩ := bind_eq_ok.mp hs
  obtain ⟨account, haccount, rfl⟩ :=
    Registry.getElem?_of_find? (Registry.resolve_eq_ok_iff.mp hindex)
  obtain ⟨debts, hdebts, rfl⟩ := (ofAcronym_eq_ok_iff hl haccount).mp hs
  refine ⟨fun t ht => ?_, fun d hd => ?_⟩
  · simp only [transactions, ofIndex, List.mem_append, mem_byDate_filter] at ht
    rw [List.mem_append]
    tauto
  · have hshort := (Balance.exists_debtsOf_iff b index).mp ⟨debts, hdebts⟩
    obtain ⟨es, hes, hdebts'⟩ := Balance.debtsOf_eq index hshort
    obtain rfl := ok_unique hdebts' hdebts
    obtain ⟨e, he, hclaim⟩ := List.mem_filterMap.mp hd
    rw [hes.perm.mem_iff] at he
    exact ⟨e, List.mem_of_mem_filter he, not_le.mpr (hshort e he), hclaim⟩

/-- The sections tell of everything that the account takes part in. -/
theorem mem_transactions_iff (hl : l.accounts.Distinct) {i : ℕ} {account : Account}
    (haccount : l.accounts.accounts[i]? = some account) {s : Statement}
    (hs : ofAcronym l b account.acronym = .ok s) {t : Transaction} :
    t ∈ s.transactions ↔ t ∈ l.invoices ++ l.payments ∧ t.involves i = true := by
  obtain ⟨debts, -, rfl⟩ := (ofAcronym_eq_ok_iff hl haccount).mp hs
  simp only [transactions, ofIndex, List.mem_append, mem_byDate_filter, Transaction.involves,
    Bool.or_eq_true, beq_iff_eq, eq_comm (a := (i : ℤ))]
  tauto

end Statement

namespace Report

variable {r : Registry} {l : Ledger} {b : Balance}

theorem sectionLines_failsIff {ts : List Transaction} (hts : ∀ t ∈ ts, t.Presentable r)
    (currency heading : String) (c : Counterpart) :
    FailsIff .centsTooLong (∃ t ∈ ts, t.amount.TooLong) (sectionLines r currency heading c ts) := by
  have hline : ∀ t ∈ ts, FailsIff .centsTooLong t.amount.TooLong (sectionLine r currency c t) := by
    intro t ht
    obtain ⟨other, hother⟩ : ∃ a, r.get (c.index t) = .ok a := by
      cases c with
      | sender => exact (hts t ht).sender
      | recipient => exact (hts t ht).recipient
    unfold sectionLine
    rw [hother, bind_ok]
    exact (Amount.display_failsIff (hts t ht).amount_nonneg currency).map
  unfold sectionLines
  split
  · next hempty =>
    rw [List.isEmpty_iff.mp hempty]
    exact (FailsIff.of_ok rfl).of_iff (by simp)
  · exact (FailsIff.mapM hline).map

theorem debtLine_failsIff {d : Debt} (h : d.Presentable r) (currency : String) :
    FailsIff .centsTooLong d.amount.TooLong (debtLine r currency d) := by
  obtain ⟨debtor, hdebtor⟩ := h.debtor
  obtain ⟨creditor, hcreditor⟩ := h.creditor
  unfold debtLine
  rw [hdebtor, bind_ok, hcreditor, bind_ok]
  exact (Amount.display_failsIff h.amount_nonneg currency).map

/-- A statement cannot be shown exactly if a transaction or a debt is too long. -/
theorem statement_failsIff {s : Statement} (hts : ∀ t ∈ s.transactions, t.Presentable r)
    (hds : ∀ d ∈ s.outstanding, d.Presentable r) (currency : String) :
    FailsIff .centsTooLong
      ((∃ t ∈ s.transactions, t.amount.TooLong) ∨ ∃ d ∈ s.outstanding, d.amount.TooLong)
      (statement s r currency) := by
  simp only [Statement.transactions, List.forall_mem_append] at hts
  obtain ⟨⟨⟨htoPay, hcredited⟩, hpaid⟩, hreceived⟩ := hts
  have hlines := FailsIff.mapM fun d hd => debtLine_failsIff (hds d hd) currency
  refine (FailsIff.map ((sectionLines_failsIff htoPay currency _ _).bind fun _ _ =>
    (sectionLines_failsIff hcredited currency _ _).bind fun _ _ =>
    (sectionLines_failsIff hpaid currency _ _).bind fun _ _ =>
    (sectionLines_failsIff hreceived currency _ _).bind fun _ _ => hlines.map)).of_iff ?_
  simp only [Statement.transactions, List.mem_append, or_and_right, exists_or, or_assoc]

end Report

/-! ## Reports on ledgers that were read -/

namespace Ledger.WellFormed

variable {l : Ledger} {b : Balance}

theorem overview_failsIff (hl : l.WellFormed) (hb : l.balance = .ok b) (currency : String) :
    FailsIff .centsTooLong
      ((∃ t ∈ l.invoices ++ l.payments, t.amount.TooLong) ∨ ∃ e ∈ b.entries, e.balance.TooLong)
      (Report.overview l b currency) :=
  Report.overview_failsIff (fun _ ht => hl.presentable ht) (fun _ he => hl.presentable_entry hb he)
    currency

/-- A statement that was made can be shown unless one of its transactions is too long: its debts
never are. -/
theorem statement_failsIff (hl : l.WellFormed) (hb : l.balance = .ok b) {acronym : String}
    {s : Statement} (hs : Statement.ofAcronym l b acronym = .ok s) (currency : String) :
    FailsIff .centsTooLong (∃ t ∈ s.transactions, t.amount.TooLong)
      (Report.statement s l.accounts currency) := by
  obtain ⟨htransactions, hclaims⟩ := Statement.mem_of_ofAcronym hl.distinct hs
  have hdebts : ∀ d ∈ s.outstanding, d.Presentable l.accounts ∧ ¬ d.amount.TooLong := by
    intro d hd
    obtain ⟨e, he, hshort, hclaim⟩ := hclaims d hd
    exact (hl.presentable_entry hb he).of_claim hshort hclaim
  refine (Report.statement_failsIff (fun t ht => hl.presentable (htransactions t ht))
    (fun d hd => (hdebts d hd).1) currency).of_iff (or_iff_left ?_)
  rintro ⟨d, hd, hlong⟩
  exact (hdebts d hd).2 hlong

end Ledger.WellFormed

namespace Ledger

/-- What is read and has a balance can be reported up to half a cent below `10 ^ 26`. The overview
fails exactly if an amount or a balance is beyond; the statement of an account, exactly if that is
one of its own.
No report fails for another reason: no amount is below zero, and no account is missing. -/
theorem reports_failsIff {options : Options} {text : String} {l : Ledger}
    (h : ofString options text = .ok l) (currency : String) :
    FailsIff .overflow (¬ Balance.Nettable [] (l.invoices ++ l.payments)) l.balance ∧
      ∀ b, l.balance = .ok b →
        FailsIff .centsTooLong
          ((∃ t ∈ l.invoices ++ l.payments, t.amount.TooLong) ∨ ∃ e ∈ b.entries, e.balance.TooLong)
          (Report.overview l b currency) ∧
        ∀ (i : ℕ) (account : Account), l.accounts.accounts[i]? = some account →
          FailsIff .centsTooLong
            ((∃ t ∈ l.invoices ++ l.payments, t.involves i = true ∧ t.amount.TooLong) ∨
              ∃ e ∈ b.entriesFor i, e.balance.TooLong)
            (Statement.ofAcronym l b account.acronym >>= fun s =>
              Report.statement s l.accounts currency) := by
  have hl := wellFormed_of_ofString h
  refine ⟨hl.failsIff_balance, fun b hb => ⟨hl.overview_failsIff hb currency,
    fun i account haccount => ?_⟩⟩
  refine ((Statement.ofAcronym_failsIff hl.distinct haccount).bind fun s hs => ?_).of_iff or_comm
  refine (hl.statement_failsIff hb hs currency).of_iff ?_
  simp only [Statement.mem_transactions_iff hl.distinct haccount hs, and_assoc]

/-- A bill of `10 ^ 26` between two accounts, and a third account without bills. -/
def fortuneText : String :=
  "accounting_date 1.2.2024\naccount AA Anna\naccount BB Bert\naccount CC Carl\n" ++
    "invoice AA -> BB 100000000000000000000000000.00 4.1.2024 castle\n"

theorem reports_failsIff_fortune :
    ∃ l b, ofString {} fortuneText = .ok l ∧ l.balance = .ok b ∧
      Report.overview l b "EUR" = .error .centsTooLong ∧
      (Statement.ofAcronym l b "AA" >>= fun s => Report.statement s l.accounts "EUR") =
        .error .centsTooLong ∧
      ∃ shown, (Statement.ofAcronym l b "CC" >>= fun s => Report.statement s l.accounts "EUR") =
        .ok shown := by
  have hread : ((ofString {} fortuneText).toOption.bind fun l =>
      l.balance.toOption.map fun b =>
        (l.accounts.accounts, (l.invoices ++ l.payments).map fun t =>
          (t.sender, t.recipient, t.amount), b.entries)) =
        some ([⟨"AA", "Anna"⟩, ⟨"BB", "Bert"⟩, ⟨"CC", "Carl"⟩], [(0, 1, ⟨false, 10 ^ 27, -1⟩)],
          [⟨0, 1, ⟨true, 10 ^ 27, -1⟩⟩]) := by
    decide +kernel
  obtain ⟨l, hl, hread⟩ := Option.bind_eq_some_iff.mp hread
  obtain ⟨b, hb, hread⟩ := Option.map_eq_some_iff.mp hread
  rw [toOption_eq_some] at hl hb
  obtain ⟨haccounts, hcontents⟩ := Prod.mk.inj hread
  obtain ⟨htransactions, hentries⟩ := Prod.mk.inj hcontents
  obtain ⟨t, hts, ht⟩ := List.map_eq_singleton_iff.mp htransactions
  obtain ⟨hsender, hparty⟩ := Prod.mk.inj ht
  obtain ⟨hrecipient, hamount⟩ := Prod.mk.inj hparty
  have hmem : t ∈ l.invoices ++ l.payments := by
    rw [hts]
    exact List.mem_singleton_self t
  have hlong : t.amount.TooLong := by
    rw [hamount]
    norm_num [Decimal.TooLong, Decimal.toRat, Decimal.signed]
  have hinvolved : t.involves (0 : ℕ) = true := by rw [Transaction.involves, hsender]; rfl
  obtain ⟨-, hreports⟩ := reports_failsIff hl "EUR"
  obtain ⟨hoverview, hstatement⟩ := hreports b hb
  have hanna := hstatement 0 ⟨"AA", "Anna"⟩ (by rw [haccounts]; rfl)
  have hcarl := hstatement 2 ⟨"CC", "Carl"⟩ (by rw [haccounts]; rfl)
  refine ⟨l, b, hl, hb, hoverview.eq_error_iff.mpr ⟨.inl ⟨t, hmem, hlong⟩, rfl⟩,
    hanna.eq_error_iff.mpr ⟨.inl ⟨t, hmem, hinvolved, hlong⟩, rfl⟩, hcarl.exists_iff.mpr ?_⟩
  rw [hts, Balance.entriesFor, hentries]
  simp [Transaction.involves, Entry.involves, hsender, hrecipient]

end Ledger

end HouseLedger
