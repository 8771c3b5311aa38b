import HouseLedger.Proofs.Balance.Netting
import HouseLedger.Proofs.Ledger.Files
import HouseLedger.Proofs.Registry

/-!
# Well-formed ledgers

What every ledger that is read can be relied on for (`Ledger.WellFormed`): no acronym
stands for two accounts, and each transaction is of the role of its list, between two
different accounts of the ledger, of an amount that is not below zero, and not after the
reference date.

The lines keep this for a draft one by one (`Draft.WellFormed.carryOut`), and so a reading
does (`Ledger.wellFormed_of_ofString`).
-/

namespace HouseLedger

open Outcome

variable {reference : Date} {size : ℕ}

/-- A transaction as a ledger with `size` accounts may hold it. -/
structure Transaction.Recorded (role : Role) (size : ℕ) (reference : Date) (t : Transaction) :
    Prop where
  role_eq : t.role = role
  valid : t.Valid
  sender_mem : 0 ≤ t.sender ∧ t.sender < size
  recipient_mem : 0 ≤ t.recipient ∧ t.recipient < size
  date_le : t.date ≤ reference

theorem Transaction.Recorded.mono {role : Role} {t : Transaction}
    (h : t.Recorded role size reference) {size' : ℕ} (hsize : size ≤ size') :
    t.Recorded role size' reference :=
  { h with
    sender_mem := ⟨h.sender_mem.1, by have := h.sender_mem.2; omega⟩
    recipient_mem := ⟨h.recipient_mem.1, by have := h.recipient_mem.2; omega⟩ }

/-- The parties of a recorded transaction are indices of accounts. -/
theorem Transaction.Recorded.exists_indices {role : Role} {t : Transaction}
    (h : t.Recorded role size reference) :
    (∃ i : ℕ, t.sender = i ∧ i < size) ∧ ∃ j : ℕ, t.recipient = j ∧ j < size := by
  obtain ⟨i, hi⟩ := Int.eq_ofNat_of_zero_le h.sender_mem.1
  obtain ⟨j, hj⟩ := Int.eq_ofNat_of_zero_le h.recipient_mem.1
  have hs := h.sender_mem.2
  have hr := h.recipient_mem.2
  exact ⟨⟨i, hi, by omega⟩, j, hj, by omega⟩

/-- A transfer between accounts of a ledger. -/
structure Transfer.Sound (size : ℕ) (t : Transfer) : Prop where
  sender_lt : t.sender < size
  recipient_lt : t.recipient < size
  amount_nonneg : 0 ≤ t.amount.toRat

namespace Draft

/-- A draft whose transactions may stand in a ledger. -/
structure WellFormed (reference : Date) (d : Draft) : Prop where
  distinct : d.accounts.Distinct
  invoices : ∀ t ∈ d.invoices, t.Recorded .invoice d.accounts.size reference
  payments : ∀ t ∈ d.payments, t.Recorded .payment d.accounts.size reference

variable {d : Draft}

theorem WellFormed.empty (reference : Date) : WellFormed reference {} :=
  ⟨.empty, fun _ ht => absurd ht List.not_mem_nil, fun _ ht => absurd ht List.not_mem_nil⟩

theorem WellFormed.log (h : d.WellFormed reference) (event : Event) :
    (d.log event).WellFormed reference :=
  ⟨h.distinct, h.invoices, h.payments⟩

/-! ## Invoices -/

theorem role_mergeInvoices (old new : Transaction) :
    (mergeInvoices old new).role = new.role := by
  obtain ⟨-, heq⟩ | ⟨-, heq⟩ := mergeInvoices_cases old new
  · rw [heq]
  · rw [heq]

theorem pair_mergeInvoices (old new : Transaction) :
    (mergeInvoices old new).pair = new.pair := by
  obtain ⟨-, heq⟩ | ⟨-, heq⟩ := mergeInvoices_cases old new
  · rw [heq]
    rfl
  · rw [heq]
    exact Sym2.eq_swap

theorem note_mergeInvoices (old new : Transaction) :
    (mergeInvoices old new).note = new.note := by
  obtain ⟨-, heq⟩ | ⟨-, heq⟩ := mergeInvoices_cases old new
  · rw [heq]
  · rw [heq]

/-- Two invoices merged are an invoice, in whichever direction. -/
theorem recorded_mergeInvoices (old : Transaction) {t : Transaction}
    (h : t.Recorded .invoice size reference) :
    (mergeInvoices old t).Recorded .invoice size reference := by
  have hvalid := valid_mergeInvoices old h.valid.parties_ne
  obtain ⟨-, heq⟩ | ⟨-, heq⟩ := mergeInvoices_cases old t
  · rw [heq] at hvalid ⊢
    exact { h with valid := hvalid }
  · rw [heq] at hvalid ⊢
    exact ⟨h.role_eq, hvalid, h.recipient_mem, h.sender_mem, h.date_le⟩

/-- Recording leaves the invoices as they are but for the one that is recorded. -/
theorem mem_recorded {merging : Bool} {ts : List Transaction} {t x : Transaction}
    (h : x ∈ recorded merging ts t) :
    x ∈ ts ∨ x = t ∨ ∃ old ∈ ts, x = mergeInvoices old t := by
  unfold recorded at h
  cases hfind : (if merging then ts.find? t.isAlike else none) with
  | none =>
    rw [hfind] at h
    rcases List.mem_cons.mp h with rfl | h
    · exact .inr (.inl rfl)
    · exact .inl h
  | some old =>
    rw [hfind] at h
    have hold : old ∈ ts := by
      cases merging with
      | false => cases hfind
      | true => exact List.mem_of_find?_eq_some hfind
    rcases List.mem_cons.mp h with rfl | h
    · exact .inr (.inr ⟨old, hold, rfl⟩)
    · exact .inl (List.mem_of_mem_eraseP h)

theorem WellFormed.recordInvoice (h : d.WellFormed reference) (merging : Bool) {t : Transaction}
    (ht : t.Recorded .invoice d.accounts.size reference) :
    (recordInvoice merging d t).WellFormed reference := by
  obtain ⟨events, heq⟩ := recordInvoice_eq merging d t
  rw [heq]
  refine ⟨h.distinct, fun x hx => ?_, h.payments⟩
  rcases mem_recorded hx with hx | rfl | ⟨old, -, rfl⟩
  · exact h.invoices x hx
  · exact ht
  · exact recorded_mergeInvoices old ht

/-- A well-formed draft with the accounts that an invoice was looked up in. -/
def Holds (reference : Date) (accounts : Registry) (d : Draft) : Prop :=
  d.WellFormed reference ∧ d.accounts = accounts

variable {accounts : Registry} {merging : Bool} {note : String} {date : Date}

theorem Holds.addTransfer (h : d.Holds reference accounts) (hdate : date ≤ reference)
    {t : Transfer} (ht : t.Sound accounts.size) :
    (addTransfer merging date note d t).Holds reference accounts := by
  obtain ⟨hd, rfl⟩ := h
  unfold Draft.addTransfer
  by_cases hself : t.sender = t.recipient
  · rw [if_pos hself]
    exact ⟨hd.log _, rfl⟩
  · rw [if_neg hself]
    refine ⟨hd.recordInvoice merging ⟨rfl, ⟨?_, ht.amount_nonneg⟩, ?_, ?_, hdate⟩,
      recordInvoice_accounts ..⟩
    · exact fun heq => hself (Int.ofNat_inj.mp heq)
    · exact ⟨Int.natCast_nonneg _, Int.ofNat_lt.mpr ht.sender_lt⟩
    · exact ⟨Int.natCast_nonneg _, Int.ofNat_lt.mpr ht.recipient_lt⟩

theorem Holds.addOccurrence (h : d.Holds reference accounts) (hdate : date ≤ reference)
    {ts : List Transfer} (hts : ∀ t ∈ ts, t.Sound accounts.size) :
    (addOccurrence merging note ts d date).Holds reference accounts := by
  unfold Draft.addOccurrence
  induction ts generalizing d with
  | nil => exact h
  | cons t ts ih =>
    obtain ⟨ht, hts⟩ := List.forall_mem_cons.mp hts
    exact ih (h.addTransfer hdate ht) hts

theorem Holds.addOccurrences (h : d.Holds reference accounts) {dates : List Date}
    (hdates : ∀ date ∈ dates, date ≤ reference) {ts : List Transfer}
    (hts : ∀ t ∈ ts, t.Sound accounts.size) :
    (dates.foldl (Draft.addOccurrence merging note ts) d).Holds reference accounts := by
  induction dates generalizing d with
  | nil => exact h
  | cons date dates ih =>
    obtain ⟨hdate, hdates⟩ := List.forall_mem_cons.mp hdates
    exact ih (h.addOccurrence hdate hts) hdates

/-! ## Lines -/

/-- The transfers of a bill go between the accounts that it names. -/
theorem parties_of_mem_sharedOut {senders chain : List ℕ} {recipient : ℕ} {total : Decimal}
    {t : Transfer} (ht : t ∈ sharedOut senders recipient chain total) :
    t.sender ∈ senders ++ recipient :: chain ∧ t.recipient ∈ senders ++ recipient :: chain := by
  unfold sharedOut transfers at ht
  rcases List.mem_append.mp ht with ht | ht
  · obtain ⟨s, hs, rfl⟩ := List.mem_map.mp ht
    exact ⟨List.mem_append_left _ hs, List.mem_append_right _ List.mem_cons_self⟩
  · obtain ⟨⟨a, b⟩, hab, rfl⟩ := List.mem_map.mp ht
    obtain ⟨ha, hb⟩ := List.of_mem_zip hab
    exact ⟨List.mem_append_right _ ha, List.mem_append_right _ (List.mem_cons_of_mem _ hb)⟩

theorem sound_of_mem_sharedOut {senders chain : List ℕ} {recipient : ℕ} {total : Decimal}
    (hsenders : ∀ s ∈ senders, s < size) (hrecipient : recipient < size)
    (hchain : ∀ r ∈ chain, r < size) (htotal : total.negative = false) {t : Transfer}
    (ht : t ∈ sharedOut senders recipient chain total) : t.Sound size := by
  obtain ⟨hs, hr⟩ := parties_of_mem_sharedOut ht
  have hall : ∀ i ∈ senders ++ recipient :: chain, i < size := by
    rw [List.forall_mem_append, List.forall_mem_cons]
    exact ⟨hsenders, hrecipient, hchain⟩
  exact ⟨hall _ hs, hall _ hr, amount_nonneg_of_mem_sharedOut htotal ht⟩

theorem lt_size_of_resolve {r : Registry} {acronym : String} {i : ℕ}
    (h : r.resolve acronym = .ok i) : i < r.size :=
  Registry.lt_size_of_find? (Registry.resolve_eq_ok_iff.mp h)

theorem forall_lt_size_of_mapM {r : Registry} {acronyms : List String} {indices : List ℕ}
    (h : acronyms.mapM r.resolve = .ok indices) : ∀ i ∈ indices, i < r.size := by
  intro i hi
  obtain ⟨acronym, -, hresolve⟩ := mapM_eq_ok h i hi
  exact lt_size_of_resolve hresolve

theorem WellFormed.addInvoice (h : d.WellFormed reference) {options : Options}
    {line : InvoiceLine} {d' : Draft} (hd' : d.addInvoice options reference line = .ok d') :
    d'.WellFormed reference := by
  obtain ⟨senders, recipient, chain, start, finish, hsenders, hrecipient, hchain, -, -, hcase⟩ :=
    addInvoice_eq_ok hd'
  rcases hcase with ⟨-, rfl⟩ | ⟨hintime, -, dates, hdates, -, rfl⟩
  · exact h.log _
  · have hbefore : ∀ date ∈ dates, date ≤ reference := fun date =>
      Recurrence.le_of_mem_occurrences (line.isForward_of_isEmpty options.legacyYears) hdates
        (Date.not_lt.mp hintime)
    have hsound : ∀ t ∈ sharedOut senders recipient chain line.amount.toDecimal,
        t.Sound d.accounts.size := fun t ht =>
      sound_of_mem_sharedOut (forall_lt_size_of_mapM hsenders) (lt_size_of_resolve hrecipient)
        (forall_lt_size_of_mapM hchain) rfl ht
    exact (Holds.addOccurrences ⟨h, rfl⟩ hbefore hsound).1

theorem WellFormed.addPayment (h : d.WellFormed reference) {line : PaymentLine} {d' : Draft}
    (hd' : d.addPayment reference line = .ok d') : d'.WellFormed reference := by
  obtain ⟨sender, recipient, date, hsender, hrecipient, -, hcase⟩ := addPayment_eq_ok hd'
  rcases hcase with ⟨-, rfl⟩ | ⟨-, -, rfl⟩ | ⟨hintime, hne, rfl⟩
  · exact h.log _
  · exact h.log _
  · refine ⟨h.distinct, h.invoices, fun t ht => ?_⟩
    rcases List.mem_cons.mp ht with rfl | ht
    · refine ⟨rfl, ⟨fun heq => hne (Int.ofNat_inj.mp heq), ?_⟩, ?_, ?_, Date.not_lt.mp hintime⟩
      · exact Decimal.toRat_nonneg_of_not_negative rfl
      · exact ⟨Int.natCast_nonneg _, Int.ofNat_lt.mpr (lt_size_of_resolve hsender)⟩
      · exact ⟨Int.natCast_nonneg _, Int.ofNat_lt.mpr (lt_size_of_resolve hrecipient)⟩
    · exact h.payments t ht

/-- Carrying out a line keeps a draft well formed. -/
theorem WellFormed.carryOut (h : d.WellFormed reference) {options : Options} {line : Line}
    {d' : Draft} (hd' : d.carryOut options reference line = .ok d') : d'.WellFormed reference := by
  cases line with
  | blank =>
    cases hd'
    exact h
  | comment =>
    cases hd'
    exact h
  | account acronym name =>
    obtain ⟨accounts, hadd, rfl⟩ := carryOut_account_eq_ok hd'
    have hsize := Registry.size_le_of_add hadd
    exact ⟨h.distinct.of_add hadd, fun t ht => (h.invoices t ht).mono hsize,
      fun t ht => (h.payments t ht).mono hsize⟩
  | invoice fields => exact h.addInvoice hd'
  | payment fields => exact h.addPayment hd'

end Draft

namespace Ledger

/-- What holds of every ledger that is read. -/
structure WellFormed (l : Ledger) : Prop where
  frozen : l.accounts.frozen = true
  distinct : l.accounts.Distinct
  invoices : ∀ t ∈ l.invoices, t.Recorded .invoice l.accounts.size l.referenceDate
  payments : ∀ t ∈ l.payments, t.Recorded .payment l.accounts.size l.referenceDate

theorem wellFormed_of_ofString {options : Options} {text : String} {l : Ledger}
    (h : ofString options text = .ok l) : l.WellFormed := by
  obtain ⟨reference, d, -, hlines, rfl⟩ := ofString_eq_ok_iff.mp h
  have hd : d.WellFormed reference :=
    Draft.addLines_keeps (fun _ _ _ hd hline => hd.carryOut hline) (.empty reference) hlines
  exact ⟨rfl, hd.distinct, fun t ht => hd.invoices t (List.mem_reverse.mp ht),
    fun t ht => hd.payments t (List.mem_reverse.mp ht)⟩

theorem wellFormed_of_ofFile {options : Options} {bytes : ByteArray} {l : Ledger}
    (h : ofFile options bytes = .ok l) : l.WellFormed := by
  by_cases htext : String.fromUTF8? bytes = none
  · exact nomatch (ofFile_of_notText htext options).symm.trans h
  · obtain ⟨text, hread⟩ := exists_ofFile_eq htext options
    exact wellFormed_of_ofString (hread.symm.trans h)

theorem WellFormed.valid {l : Ledger} (h : l.WellFormed) :
    ∀ t ∈ l.invoices ++ l.payments, t.Valid := by
  intro t ht
  rcases List.mem_append.mp ht with ht | ht
  · exact (h.invoices t ht).valid
  · exact (h.payments t ht).valid

/-- A ledger has a balance unless a sum is too large. -/
theorem WellFormed.failsIff_balance {l : Ledger} (h : l.WellFormed) :
    FailsIff .overflow (¬ Balance.Nettable [] (l.invoices ++ l.payments)) l.balance :=
  Balance.failsIff_addAll fun t ht => (h.valid t ht).parties_ne

/-- The balance of a ledger stores the running sums of its transactions. -/
theorem WellFormed.running {l : Ledger} (h : l.WellFormed) {b : Balance}
    (hb : l.balance = .ok b) : Balance.Running b (l.invoices ++ l.payments) :=
  Balance.Running.of_addAll (fun t ht => (h.valid t ht).parties_ne) hb

/-- The parties of a transaction are indices of accounts. -/
theorem WellFormed.exists_indices {l : Ledger} (h : l.WellFormed) {t : Transaction}
    (ht : t ∈ l.invoices ++ l.payments) :
    (∃ i : ℕ, t.sender = i ∧ i < l.accounts.size) ∧
      ∃ j : ℕ, t.recipient = j ∧ j < l.accounts.size := by
  rcases List.mem_append.mp ht with ht | ht
  · exact (h.invoices t ht).exists_indices
  · exact (h.payments t ht).exists_indices

/-- Both accounts of an entry are accounts of the ledger. -/
theorem WellFormed.exists_accounts {l : Ledger} (h : l.WellFormed) {b : Balance}
    (hb : l.balance = .ok b) {e : Entry} (he : e ∈ b.entries) :
    ∃ (i j : ℕ) (sender recipient : Account), e.sender = i ∧ e.recipient = j ∧
      l.accounts.accounts[i]? = some sender ∧ l.accounts.accounts[j]? = some recipient := by
  obtain ⟨t, ht, hpair⟩ := List.mem_map.mp
    (((h.running hb).seen_iff e.pair).mp (List.mem_map_of_mem he))
  obtain ⟨⟨i, hi, hi'⟩, j, hj, hj'⟩ := h.exists_indices ht
  rcases (t.pair_eq_iff _ _).mp hpair with ⟨hs, hr⟩ | ⟨hs, hr⟩
  · exact ⟨i, j, _, _, hs.symm.trans hi, hr.symm.trans hj, List.getElem?_eq_getElem hi',
      List.getElem?_eq_getElem hj'⟩
  · exact ⟨j, i, _, _, hr.symm.trans hj, hs.symm.trans hi, List.getElem?_eq_getElem hj',
      List.getElem?_eq_getElem hi'⟩

end Ledger

end HouseLedger
