import HouseLedger.Proofs.Ledger.Matching
import HouseLedger.Proofs.Report.Faults

/-!
# What ledgers that match report

Reports name accounts and show amounts to the cent. So two ledgers that match have the same
reports, although an account has another index in the one and an amount other digits:

* `Statement.related_ofAcronym`: the statements of one acronym match.
* `Report.statement_eq`, `Report.title_eq`, `Report.fileName_eq`: statements that match read the
  same.
* `Report.overview_eq`: so do the overviews, as long as the accounts are declared in one order.

What cannot be shown is an amount that is too long, and nothing else: `Report.overview_fails` and
`Report.statementOf_fails`.
-/

namespace HouseLedger

open Outcome

variable {V : Decimal → Decimal → Prop} {I : ℤ → ℤ → Prop}

/-! ## Statements -/

/-- Two debts of one amount, which is not below zero, between related accounts. -/
structure Debt.Matches (I : ℤ → ℤ → Prop) (d d' : Debt) : Prop where
  debtor : I d.debtor d'.debtor
  creditor : I d.creditor d'.creditor
  amount : d.amount = d'.amount
  nonneg : 0 ≤ d.amount.toRat

/-- Two statements of one account, with transactions and debts that match. -/
structure Statement.Matches (V : Decimal → Decimal → Prop) (I : ℤ → ℤ → Prop)
    (s s' : Statement) : Prop where
  account : s.account = s'.account
  referenceDate : s.referenceDate = s'.referenceDate
  toPay : List.Forall₂ (Transaction.Matches V I) s.toPay s'.toPay
  credited : List.Forall₂ (Transaction.Matches V I) s.credited s'.credited
  paid : List.Forall₂ (Transaction.Matches V I) s.paid s'.paid
  received : List.Forall₂ (Transaction.Matches V I) s.received s'.received
  outstanding : List.Forall₂ (Debt.Matches I) s.outstanding s'.outstanding

/-- Entries that match leave the same open. -/
theorem Entry.Matches.related_debt? (hV : Decimal.Congruence V) {e e' : Entry}
    (h : e.Matches V I e') : Related (Option.Rel (Debt.Matches I)) e.debt? e'.debt? := by
  unfold Entry.debt?
  rw [(hV.same h.balance).toCents_eq]
  refine (Related.of_eq rfl).bind fun rounded _ heq => ?_
  subst heq
  have hnonneg : 0 ≤ rounded.magnitude.toRat :=
    Decimal.toRat_nonneg_of_not_negative (Decimal.negative_magnitude rounded)
  split
  · exact .ok .none
  · split
    · exact .ok (.some ⟨h.sender, h.recipient, rfl, hnonneg⟩)
    · exact .ok (.some ⟨h.recipient, h.sender, rfl, hnonneg⟩)

theorem Balance.Matches.related_debtsOf (hV : Decimal.Congruence V) (hI : Relator.BiUnique I)
    {b b' : Balance} (h : b.Matches V I b') {i i' : ℤ} (hi : I i i') :
    Related (List.Forall₂ (Debt.Matches I)) (b.debtsOf i) (b'.debtsOf i') := by
  have hsorted := forall₂_mergeSort (r := fun x y => decide (x.balance ≤ y.balance))
    (s := fun x y => decide (x.balance ≤ y.balance)) (h.entriesFor hI hi)
    fun x x' hx y y' hy =>
      decide_eq_decide.mpr ((hV.same hx.balance).le_iff (hV.same hy.balance))
  exact (Related.mapM hsorted fun _ _ he => he.related_debt? hV).bind fun _ _ hds =>
    .ok (List.rel_filterMap (fun _ _ hd => hd) hds)

namespace Statement

theorem forall₂_byDate {ts ts' : List Transaction}
    (h : List.Forall₂ (Transaction.Matches V I) ts ts') :
    List.Forall₂ (Transaction.Matches V I) (byDate ts) (byDate ts') :=
  forall₂_mergeSort h fun x x' hx y y' hy => by rw [hx.date, hy.date]

theorem forall₂_section (hI : Relator.BiUnique I) {ts ts' : List Transaction}
    (h : List.Forall₂ (Transaction.Matches V I) ts ts') {i i' : ℤ} (hi : I i i') :
    List.Forall₂ (Transaction.Matches V I) (byDate (ts.filter (·.sender == i)))
        (byDate (ts'.filter (·.sender == i'))) ∧
      List.Forall₂ (Transaction.Matches V I) (byDate (ts.filter (·.recipient == i)))
        (byDate (ts'.filter (·.recipient == i'))) :=
  ⟨forall₂_byDate (forall₂_filter h fun _ _ ht => beq_eq_of_biUnique hI ht.sender hi),
    forall₂_byDate (forall₂_filter h fun _ _ ht => beq_eq_of_biUnique hI ht.recipient hi)⟩

/-- The statements of one acronym match; where there is none, there is none for the same
reason. -/
theorem related_ofAcronym (hV : Decimal.Congruence V) {l l' : Ledger} (hl : l.Matches V l')
    {b b' : Balance} (hb : b.Matches V (l.accounts.Shares l'.accounts) b') (acronym : String) :
    Related (Matches V (l.accounts.Shares l'.accounts)) (ofAcronym l b acronym)
      (ofAcronym l' b' acronym) := by
  have hI := hl.accounts.biUnique
  unfold ofAcronym
  refine (hl.accounts.related_resolve acronym).bind fun m n hmn => ?_
  refine (Related.of_eq hmn.get_eq).bind fun account _ haccount => ?_
  refine (hb.related_debtsOf hV hI hmn).bind fun debts debts' hdebts => ?_
  have hinvoices := forall₂_section hI hl.invoices hmn
  have hpayments := forall₂_section hI hl.payments hmn
  exact .ok ⟨haccount, hl.referenceDate, hinvoices.1, hinvoices.2, hpayments.1, hpayments.2, hdebts⟩

end Statement

/-! ## Texts -/

namespace Report

variable {r r' : Registry} {t t' : Transaction} {s s' : Statement}

theorem display_eq (hV : Decimal.Congruence V) (h : t.Matches V I t') (currency : String) :
    Amount.display t.amount currency = Amount.display t'.amount currency :=
  (hV.same h.amount).display_eq h.valid.amount_nonneg currency

theorem transactionLine_eq (hV : Decimal.Congruence V) (h : t.Matches V (r.Shares r') t')
    (currency : String) : transactionLine r currency t = transactionLine r' currency t' := by
  rw [transactionLine, transactionLine, h.sender.get_eq, h.recipient.get_eq,
    display_eq hV h, h.date, h.note]

theorem entryLine_eq (hV : Decimal.Congruence V) {e e' : Entry}
    (h : e.Matches V (r.Shares r') e') (currency : String) :
    entryLine r currency e = entryLine r' currency e' := by
  rw [entryLine, entryLine, h.sender.get_eq, h.recipient.get_eq,
    (hV.same h.balance).displaySigned_eq]

theorem sectionLine_eq (hV : Decimal.Congruence V) (h : t.Matches V (r.Shares r') t')
    (currency : String) (c : Counterpart) :
    sectionLine r currency c t = sectionLine r' currency c t' := by
  have hother : r.get (c.index t) = r'.get (c.index t') := by
    cases c with
    | sender => exact h.sender.get_eq
    | recipient => exact h.recipient.get_eq
  rw [sectionLine, sectionLine, hother, display_eq hV h, h.date, h.note]

theorem sectionLines_eq (hV : Decimal.Congruence V) {ts ts' : List Transaction}
    (h : List.Forall₂ (Transaction.Matches V (r.Shares r')) ts ts') (currency heading : String)
    (c : Counterpart) :
    sectionLines r currency heading c ts = sectionLines r' currency heading c ts' := by
  rw [sectionLines, sectionLines, isEmpty_eq_of_forall₂ h,
    Related.mapM_eq h fun _ _ ht => sectionLine_eq hV ht currency c]

theorem debtLine_eq {d d' : Debt} (h : d.Matches (r.Shares r') d') (currency : String) :
    debtLine r currency d = debtLine r' currency d' := by
  rw [debtLine, debtLine, h.debtor.get_eq, h.creditor.get_eq, h.amount]

theorem title_eq (h : s.Matches V I s') : title s = title s' := by
  rw [title, title, h.referenceDate, h.account]

theorem fileName_eq (h : s.Matches V I s') : fileName s = fileName s' := by
  rw [fileName, fileName, title_eq h]

/-- Statements that match read the same. -/
theorem statement_eq (hV : Decimal.Congruence V) (h : s.Matches V (r.Shares r') s')
    (currency : String) : statement s r currency = statement s' r' currency := by
  have hsettled : s.isSettled = s'.isSettled := isEmpty_eq_of_forall₂ h.outstanding
  rw [statement, statement, statementLines, statementLines, sectionLines_eq hV h.toPay,
    sectionLines_eq hV h.credited, sectionLines_eq hV h.paid, sectionLines_eq hV h.received,
    Related.mapM_eq h.outstanding fun _ _ hd => debtLine_eq hd currency, title_eq h, hsettled]

/-- The statement of an acronym as text. -/
def statementOf (l : Ledger) (b : Balance) (currency acronym : String) : Except Fault String := do
  statement (← Statement.ofAcronym l b acronym) l.accounts currency

/-- Ledgers that match have the same statements. -/
theorem statementOf_eq (hV : Decimal.Congruence V) {l l' : Ledger} (hl : l.Matches V l')
    {b b' : Balance} (hb : b.Matches V (l.accounts.Shares l'.accounts) b')
    (currency acronym : String) :
    statementOf l b currency acronym = statementOf l' b' currency acronym :=
  ((Statement.related_ofAcronym hV hl hb acronym).bind fun _ _ hs =>
    Related.of_eq (statement_eq hV hs currency)).eq

/-- Ledgers that match have one overview, if they declare their accounts in one order. -/
theorem overview_eq (hV : Decimal.Congruence V) {l l' : Ledger} (hl : l.Matches V l')
    (haccounts : l.accounts = l'.accounts) {b b' : Balance}
    (hb : b.Matches V (l.accounts.Shares l'.accounts) b') (currency : String) :
    overview l b currency = overview l' b' currency := by
  rw [overview, overview, overviewLines, overviewLines,
    Related.mapM_eq hl.invoices fun _ _ ht => transactionLine_eq hV ht currency,
    Related.mapM_eq hl.payments fun _ _ ht => transactionLine_eq hV ht currency,
    Related.mapM_eq hb fun _ _ he => entryLine_eq hV he currency, hl.referenceDate, haccounts]

/-! ## Faults -/

theorem exists_get_of_shares {i j : ℤ} (h : r.Shares r' i j) : ∃ a, r.get i = .ok a := by
  obtain ⟨m, -, account, rfl, -, hm, -⟩ := h
  exact ⟨account, Registry.get_of_getElem? hm⟩

theorem forall_presentable {ts ts' : List Transaction}
    (h : List.Forall₂ (Transaction.Matches V (r.Shares r')) ts ts') :
    ∀ t ∈ ts, t.Presentable r := by
  intro t ht
  obtain ⟨t', -, ht'⟩ := exists_of_forall₂ h ht
  exact ⟨exists_get_of_shares ht'.sender, exists_get_of_shares ht'.recipient,
    ht'.valid.amount_nonneg⟩

theorem forall_presentable_entries {es es' : List Entry}
    (h : List.Forall₂ (Entry.Matches V (r.Shares r')) es es') : ∀ e ∈ es, e.Presentable r := by
  intro e he
  obtain ⟨e', -, he'⟩ := exists_of_forall₂ h he
  exact ⟨exists_get_of_shares he'.sender, exists_get_of_shares he'.recipient⟩

theorem forall_presentable_debts {ds ds' : List Debt}
    (h : List.Forall₂ (Debt.Matches (r.Shares r')) ds ds') : ∀ d ∈ ds, d.Presentable r := by
  intro d hd
  obtain ⟨d', -, hd'⟩ := exists_of_forall₂ h hd
  exact ⟨exists_get_of_shares hd'.debtor, exists_get_of_shares hd'.creditor, hd'.nonneg⟩

/-- A statement can be shown but for amounts that are too long. -/
theorem statement_fails (h : s.Matches V (r.Shares r') s') (currency : String) :
    FailsOnly .centsTooLong (statement s r currency) := by
  have htransactions : ∀ t ∈ s.transactions, t.Presentable r := by
    simp only [Statement.transactions, List.forall_mem_append]
    exact ⟨⟨⟨forall_presentable h.toPay, forall_presentable h.credited⟩,
      forall_presentable h.paid⟩, forall_presentable h.received⟩
  exact (statement_failsIff htransactions (forall_presentable_debts h.outstanding)
    currency).failsOnly

variable {l l' : Ledger} {b b' : Balance}

/-- The statement of an account that is declared fails only for amounts that are too long. -/
theorem statementOf_fails (hV : Decimal.Congruence V) (hl : l.Matches V l')
    (hb : b.Matches V (l.accounts.Shares l'.accounts) b') {acronym : String}
    (hknown : l.accounts.contains acronym = true) (currency : String) :
    FailsOnly .centsTooLong (statementOf l b currency acronym) := by
  obtain ⟨i, hi⟩ := Option.isSome_iff_exists.mp hknown
  obtain ⟨account, haccount, rfl⟩ := Registry.getElem?_of_find? hi
  refine (Statement.ofAcronym_failsIff hl.accounts.distinct haccount).failsOnly.bind fun s hs => ?_
  have hmatches := Statement.related_ofAcronym hV hl hb account.acronym
  rw [hs] at hmatches
  generalize Statement.ofAcronym l' b' account.acronym = x' at hmatches
  cases hmatches with
  | ok h => exact statement_fails h currency

/-- An overview can be shown but for amounts that are too long. -/
theorem overview_fails (hl : l.Matches V l') (hb : b.Matches V (l.accounts.Shares l'.accounts) b')
    (currency : String) : FailsOnly .centsTooLong (overview l b currency) :=
  (overview_failsIff (List.forall_mem_append.mpr
    ⟨forall_presentable hl.invoices, forall_presentable hl.payments⟩)
    (forall_presentable_entries hb) currency).failsOnly

end Report

end HouseLedger
