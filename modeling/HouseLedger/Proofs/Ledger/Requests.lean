import HouseLedger.Proofs.Ledger.Run
import HouseLedger.Proofs.Registry

/-!
# What lines ask for

A line declares an account, or asks for invoices or for a payment between accounts that are
declared before it. What it asks for depends on these accounts, on the reference date and on the
options, and not on the draft that it is carried out on: `InvoiceLine.billed` and
`PaymentLine.paid` give it without one.

* `InvoiceLine.billed_of_isPrefix`: a line asks for the same once more accounts are declared.
* `Draft.consists_of_addLines`: the draft behind lines holds what they ask for, and nothing else.
-/

namespace HouseLedger

open Outcome

/-! ## What a line asks for -/

/-- The invoices of a line, none of them merged, in the order in which they are recorded. -/
def InvoiceLine.billed (options : Options) (reference : Date) (accounts : Registry)
    (l : InvoiceLine) : Except Fault (List Transaction) := do
  let senders ← (l.sender :: l.sharers).mapM accounts.resolve
  let recipient ← accounts.resolve l.recipient
  let chain ← l.chain.mapM accounts.resolve
  let start ← l.start.toDate
  let finish ← l.recurrence.mapM fun r => r.1.toDate
  if reference < start then return []
  let _ ← (l.amount.toDecimal.share senders.length).checked
  let dates ← Recurrence.occurrences start finish
    (l.recurrence.map fun r => r.2.toPeriod options.legacyYears) reference
  return dates.flatMap
    (Draft.invoicesOn l.note (Draft.sharedOut senders recipient chain l.amount.toDecimal))

/-- The payment of a line, unless it is too late or from an account to itself. -/
def PaymentLine.paid (reference : Date) (accounts : Registry) (l : PaymentLine) :
    Except Fault (List Transaction) := do
  let sender ← accounts.resolve l.sender
  let recipient ← accounts.resolve l.recipient
  let date ← l.date.toDate
  if reference < date ∨ sender = recipient then return []
  return [⟨sender, recipient, l.amount.toDecimal, date, l.note, .payment⟩]

namespace Line

/-- The account that a line declares, if it declares one. -/
def declares : Line → List Account
  | account acronym name => [⟨acronym, name⟩]
  | _ => []

/-- The invoices that a line asks for. -/
def invoices (options : Options) (reference : Date) (accounts : Registry) :
    Line → List Transaction
  | invoice l => (l.billed options reference accounts).toOption.getD []
  | _ => []

/-- The payments that a line asks for. -/
def payments (reference : Date) (accounts : Registry) : Line → List Transaction
  | payment l => (l.paid reference accounts).toOption.getD []
  | _ => []

end Line

/-! ## What lines ask for -/

/-- The account that the text of a line declares, if it declares one. -/
def accountsOf (text : List Char) : List Account := ((Line.ofText? text).map Line.declares).getD []

/-- The accounts that lines declare. -/
def declared (lines : List (List Char)) : List Account := lines.flatMap accountsOf

/-- The registry behind lines that are carried out. -/
def accountsBehind (lines : List (List Char)) : Registry := ⟨declared lines, false⟩

/-- The invoices that the text of a line asks for. -/
def invoicesOf (options : Options) (reference : Date) (accounts : Registry) (text : List Char) :
    List Transaction :=
  ((Line.ofText? text).map (Line.invoices options reference accounts)).getD []

/-- The invoices that lines ask for, merged where they are to be, the latest first. -/
def invoicesBehind (options : Options) (reference : Date) (lines : List (List Char)) :
    List Transaction :=
  (lines.flatMap (invoicesOf options reference (accountsBehind lines))).foldl
    (Draft.recorded options.mergeInvoices) []

/-- The payments that the text of a line asks for. -/
def paymentsOf (reference : Date) (accounts : Registry) (text : List Char) : List Transaction :=
  ((Line.ofText? text).map (Line.payments reference accounts)).getD []

variable {options : Options} {reference : Date} {r r' : Registry}

/-! ## More accounts -/

/-- A line asks for the same once more accounts are known. -/
theorem InvoiceLine.billed_of_isPrefix {l : InvoiceLine} {ts : List Transaction}
    (h : l.billed options reference r = .ok ts) (hkept : r.accounts <+: r'.accounts)
    (hr' : r'.Distinct) : l.billed options reference r' = .ok ts := by
  unfold billed at h ⊢
  obtain ⟨senders, hsenders, h⟩ := bind_eq_ok.mp h
  obtain ⟨recipient, hrecipient, h⟩ := bind_eq_ok.mp h
  obtain ⟨chain, hchain, h⟩ := bind_eq_ok.mp h
  rw [Registry.mapM_resolve_of_isPrefix hsenders hkept hr', bind_ok,
    Registry.resolve_of_isPrefix hrecipient hkept hr', bind_ok,
    Registry.mapM_resolve_of_isPrefix hchain hkept hr', bind_ok]
  exact h

theorem PaymentLine.paid_of_isPrefix {l : PaymentLine} {ts : List Transaction}
    (h : l.paid reference r = .ok ts) (hkept : r.accounts <+: r'.accounts) (hr' : r'.Distinct) :
    l.paid reference r' = .ok ts := by
  unfold paid at h ⊢
  obtain ⟨sender, hsender, h⟩ := bind_eq_ok.mp h
  obtain ⟨recipient, hrecipient, h⟩ := bind_eq_ok.mp h
  rw [Registry.resolve_of_isPrefix hsender hkept hr', bind_ok,
    Registry.resolve_of_isPrefix hrecipient hkept hr', bind_ok]
  exact h

namespace Draft

variable {d d' : Draft} {merging : Bool} {note : String}

/-! ## One line -/

theorem payments_addOccurrences (ts : List Transfer) (dates : List Date) (d : Draft) :
    (dates.foldl (addOccurrence merging note ts) d).payments = d.payments := by
  have htransfer : ∀ (date : Date) (t : Transfer) (d : Draft),
      (addTransfer merging date note d t).payments = d.payments := by
    intro date t d
    unfold addTransfer
    split
    · rfl
    · obtain ⟨events, heq⟩ := recordInvoice_eq merging d
        ⟨t.sender, t.recipient, t.amount, date, note, .invoice⟩
      rw [heq]
  have hdate : ∀ (date : Date) (d : Draft),
      (addOccurrence merging note ts d date).payments = d.payments := by
    intro date d
    unfold addOccurrence
    induction ts generalizing d with
    | nil => rfl
    | cons t ts ih => rw [List.foldl_cons, ih, htransfer]
  induction dates generalizing d with
  | nil => rfl
  | cons date dates ih => rw [List.foldl_cons, ih, hdate]

/-- How a draft takes the invoices that a line asks for: it records them, unless there are none
to be had or a sum with an alike one is too large. -/
inductive Takes (merging : Bool) (d : Draft) :
    Except Fault (List Transaction) → Except Fault Draft → Prop
  | error (fault : Fault) : Takes merging d (.error fault) (.error fault)
  | ok {ts : List Transaction} {d' : Draft} : Enterable merging d.invoices ts →
      d'.accounts = d.accounts → d'.invoices = ts.foldl (recorded merging) d.invoices →
      d'.payments = d.payments → Takes merging d (.ok ts) (.ok d')
  | overflow {ts : List Transaction} : ¬ Enterable merging d.invoices ts →
      Takes merging d (.ok ts) (.error .overflow)

theorem takes_addInvoice (options : Options) (reference : Date) (d : Draft) (l : InvoiceLine) :
    Takes options.mergeInvoices d (l.billed options reference d.accounts)
      (d.addInvoice options reference l) := by
  unfold InvoiceLine.billed addInvoice
  refine bind_both .error fun senders _ => bind_both .error fun recipient _ =>
    bind_both .error fun chain _ => bind_both .error fun start _ =>
    bind_both .error fun finish _ => ?_
  by_cases hlate : reference < start
  · simp only [if_pos hlate]
    exact .ok trivial rfl rfl rfl
  · simp only [if_neg hlate]
    refine bind_both .error fun share hshare => bind_both .error fun dates _ => ?_
    obtain ⟨-, rfl⟩ := Decimal.checked_eq_ok_iff.mp hshare
    have hnonneg : ∀ t ∈ sharedOut senders recipient chain l.amount.toDecimal,
        0 ≤ t.amount.toRat := fun _ ht => amount_nonneg_of_mem_sharedOut rfl ht
    obtain ⟨hinvoices, ⟨hall, heq⟩ | ⟨hnot, heq⟩⟩ :=
      enterOccurrences_cases options.mergeInvoices l.note hnonneg dates d
    · rw [← sharedOut, heq]
      exact .ok hall (addOccurrences_accounts ..) hinvoices (payments_addOccurrences ..)
    · rw [← sharedOut, heq]
      exact .overflow hnot

/-- An invoice line that is carried out records the invoices that it asks for. -/
theorem billed_of_addInvoice {l : InvoiceLine}
    (h : d.addInvoice options reference l = .ok d') :
    ∃ ts, l.billed options reference d.accounts = .ok ts ∧
      Enterable options.mergeInvoices d.invoices ts ∧ d'.accounts = d.accounts ∧
      d'.invoices = ts.foldl (recorded options.mergeInvoices) d.invoices ∧
      d'.payments = d.payments := by
  have htakes := takes_addInvoice options reference d l
  rw [h] at htakes
  generalize l.billed options reference d.accounts = billed at htakes
  cases htakes with
  | ok hall haccounts hinvoices hpayments => exact ⟨_, rfl, hall, haccounts, hinvoices, hpayments⟩

theorem paid_of_addPayment {l : PaymentLine} (h : d.addPayment reference l = .ok d') :
    ∃ ts, l.paid reference d.accounts = .ok ts ∧ d'.accounts = d.accounts ∧
      d'.invoices = d.invoices ∧ d'.payments = ts.reverse ++ d.payments := by
  obtain ⟨sender, recipient, date, hsender, hrecipient, hdate, hcase⟩ := addPayment_eq_ok h
  unfold PaymentLine.paid
  rw [hsender, bind_ok, hrecipient, bind_ok, hdate, bind_ok]
  rcases hcase with ⟨hlate, rfl⟩ | ⟨-, hself, rfl⟩ | ⟨hintime, hne, rfl⟩
  · exact ⟨[], by rw [if_pos (.inl hlate)]; rfl, rfl, rfl, rfl⟩
  · exact ⟨[], by rw [if_pos (.inr hself)]; rfl, rfl, rfl, rfl⟩
  · rw [if_neg (by simp [hintime, hne])]
    exact ⟨_, rfl, rfl, rfl, rfl⟩

/-! ## All lines -/

/-- The draft holds what the lines ask for. It makes no difference whether the accounts of a
line are looked up among those declared before it or among all there are later. -/
structure Consists (options : Options) (reference : Date) (lines : List (List Char))
    (d : Draft) : Prop where
  accounts_eq : d.accounts = accountsBehind lines
  distinct : d.accounts.Distinct
  invoices : ∀ r : Registry, r.Distinct → d.accounts.accounts <+: r.accounts →
    d.invoices = (lines.flatMap (invoicesOf options reference r)).foldl
      (recorded options.mergeInvoices) []
  enterable : ∀ r : Registry, r.Distinct → d.accounts.accounts <+: r.accounts →
    Enterable options.mergeInvoices [] (lines.flatMap (invoicesOf options reference r))
  payments : ∀ r : Registry, r.Distinct → d.accounts.accounts <+: r.accounts →
    d.payments = (lines.flatMap (paymentsOf reference r)).reverse

theorem Consists.empty : Consists options reference [] {} :=
  ⟨rfl, .empty, fun _ _ _ => rfl, fun _ _ _ => trivial, fun _ _ _ => rfl⟩

theorem Consists.invoices_eq {lines : List (List Char)} (h : d.Consists options reference lines) :
    d.invoices = invoicesBehind options reference lines := by
  rw [h.invoices d.accounts h.distinct (List.prefix_refl _), h.accounts_eq]
  rfl

theorem Consists.payments_eq {lines : List (List Char)} (h : d.Consists options reference lines) :
    d.payments = (lines.flatMap (paymentsOf reference (accountsBehind lines))).reverse := by
  rw [h.payments d.accounts h.distinct (List.prefix_refl _), h.accounts_eq]

/-- A line that is carried out adds what it declares and what it asks for. -/
theorem carryOut_adds {line : Line} (hd' : d.carryOut options reference line = .ok d') :
    d'.accounts = { d.accounts with accounts := d.accounts.accounts ++ line.declares } ∧
      (d.accounts.Distinct → d'.accounts.Distinct) ∧
      ∀ r : Registry, r.Distinct → d'.accounts.accounts <+: r.accounts →
        Enterable options.mergeInvoices d.invoices (line.invoices options reference r) ∧
          d'.invoices = (line.invoices options reference r).foldl (recorded options.mergeInvoices)
            d.invoices ∧
          d'.payments = (line.payments reference r).reverse ++ d.payments := by
  have hsame : d.accounts = { d.accounts with accounts := d.accounts.accounts ++ [] } := by
    rw [List.append_nil]
  cases line with
  | blank =>
    cases hd'
    exact ⟨hsame, id, fun _ _ _ => ⟨trivial, rfl, rfl⟩⟩
  | comment =>
    cases hd'
    exact ⟨hsame, id, fun _ _ _ => ⟨trivial, rfl, rfl⟩⟩
  | account acronym name =>
    obtain ⟨accounts, hadd, rfl⟩ := carryOut_account_eq_ok hd'
    exact ⟨(Registry.add_eq_ok hadd).2, fun h => h.of_add hadd, fun _ _ _ =>
      ⟨trivial, rfl, rfl⟩⟩
  | invoice l =>
    obtain ⟨ts, hts, hall, haccounts, hinvoices, hpayments⟩ := billed_of_addInvoice hd'
    refine ⟨haccounts.trans hsame, fun h => haccounts ▸ h, fun r hr hkept => ?_⟩
    rw [haccounts] at hkept
    rw [Line.invoices, InvoiceLine.billed_of_isPrefix hts hkept hr]
    exact ⟨hall, hinvoices, hpayments⟩
  | payment l =>
    obtain ⟨ts, hts, haccounts, hinvoices, hpayments⟩ := paid_of_addPayment hd'
    refine ⟨haccounts.trans hsame, fun h => haccounts ▸ h, fun r hr hkept => ?_⟩
    rw [haccounts] at hkept
    rw [Line.payments, PaymentLine.paid_of_isPrefix hts hkept hr]
    exact ⟨trivial, hinvoices, hpayments⟩

theorem Consists.carryOut {lines : List (List Char)} (h : d.Consists options reference lines)
    {text : List Char} {line : Line} (htext : Line.ofText? text = some line)
    (hd' : d.carryOut options reference line = .ok d') :
    d'.Consists options reference (lines ++ [text]) := by
  obtain ⟨haccounts, hdistinct, hadds⟩ := carryOut_adds hd'
  have hkept : d.accounts.accounts <+: d'.accounts.accounts :=
    haccounts ▸ List.prefix_append _ _
  refine ⟨?_, hdistinct h.distinct, fun r hr hr' => ?_, fun r hr hr' => ?_, fun r hr hr' => ?_⟩
  · rw [haccounts, h.accounts_eq, accountsBehind, accountsBehind, declared, declared,
      List.flatMap_append, List.flatMap_singleton, accountsOf, htext]
    rfl
  · rw [(hadds r hr hr').2.1, h.invoices r hr (hkept.trans hr'), List.flatMap_append,
      List.foldl_append, List.flatMap_singleton, invoicesOf, htext]
    rfl
  · rw [List.flatMap_append, enterable_append, ← h.invoices r hr (hkept.trans hr'),
      List.flatMap_singleton, invoicesOf, htext]
    exact ⟨h.enterable r hr (hkept.trans hr'), (hadds r hr hr').1⟩
  · rw [(hadds r hr hr').2.2, h.payments r hr (hkept.trans hr'), List.flatMap_append,
      List.reverse_append, List.flatMap_singleton, paymentsOf, htext]
    rfl

theorem consists_of_addLines {lines : List (List Char)} {number : ℕ}
    (h : ({} : Draft).addLines options reference number lines = (d, none)) :
    d.Consists options reference lines :=
  addLines_keeps_behind (P := Consists options reference)
    (fun _ _ _ _ _ hd hread hcarry => hd.carryOut hread hcarry) Consists.empty h

end Draft

end HouseLedger
