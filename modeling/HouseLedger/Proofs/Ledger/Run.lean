import HouseLedger.Proofs.Ledger.Recording
import HouseLedger.Proofs.Recurrence

/-!
# Runs of the reader

Reading a ledger goes on as long as lines can be carried out. This module says what a
line did that was carried out (`Draft.addInvoice_eq_ok`, `Draft.addPayment_eq_ok`),
and what it takes for a text to be a ledger (`Ledger.ofString_eq_ok_iff`). What every
line keeps, the whole reading keeps (`Draft.addLines_keeps`).
-/

namespace HouseLedger

open Outcome
open Decimal (InRange)

/-! ## Written periods -/

/-- A period that is written is forward if it moves dates at all, since no number is
written with a sign. -/
theorem WrittenDate.toPeriod_isForward (w : WrittenDate) (legacyYears : Bool)
    (h : (w.toPeriod legacyYears).isEmpty = false) : (w.toPeriod legacyYears).IsForward := by
  refine ⟨Int.natCast_nonneg _, Int.natCast_nonneg _, ?_, h⟩
  cases legacyYears with
  | true => exact Int.natCast_nonneg _
  | false => exact Int.natCast_nonneg _

theorem InvoiceLine.isForward_of_isEmpty (line : InvoiceLine) (legacyYears : Bool) (p : Period)
    (hp : line.recurrence.map (fun r => r.2.toPeriod legacyYears) = some p)
    (hempty : p.isEmpty = false) : p.IsForward := by
  obtain ⟨r, -, rfl⟩ := Option.map_eq_some_iff.mp hp
  exact r.2.toPeriod_isForward legacyYears hempty

namespace Draft

/-! ## One line -/

/-- What an invoice line did: its accounts and dates exist, and it was either left out
or, since neither a share nor a sum was too large, recorded on all its dates. -/
theorem addInvoice_eq_ok {options : Options} {reference : Date} {d d' : Draft}
    {line : InvoiceLine} (h : d.addInvoice options reference line = .ok d') :
    ∃ senders recipient chain start finish,
      (line.sender :: line.sharers).mapM d.accounts.resolve = .ok senders ∧
      d.accounts.resolve line.recipient = .ok recipient ∧
      line.chain.mapM d.accounts.resolve = .ok chain ∧
      line.start.toDate = .ok start ∧
      line.recurrence.mapM (fun r => r.1.toDate) = .ok finish ∧
      (reference < start ∧ d' = d.log (.ignored .invoice line.note start) ∨
        ¬ reference < start ∧ InRange (line.amount.toDecimal.share senders.length).toRat ∧
          ∃ dates,
            Recurrence.occurrences start finish
              (line.recurrence.map fun r => r.2.toPeriod options.legacyYears) reference =
                .ok dates ∧
            Enterable options.mergeInvoices d.invoices (dates.flatMap (invoicesOn line.note
              (sharedOut senders recipient chain line.amount.toDecimal))) ∧
            d' = dates.foldl (addOccurrence options.mergeInvoices line.note
              (sharedOut senders recipient chain line.amount.toDecimal)) d) := by
  unfold addInvoice at h
  obtain ⟨senders, hsenders, h⟩ := bind_eq_ok.mp h
  obtain ⟨recipient, hrecipient, h⟩ := bind_eq_ok.mp h
  obtain ⟨chain, hchain, h⟩ := bind_eq_ok.mp h
  obtain ⟨start, hstart, h⟩ := bind_eq_ok.mp h
  obtain ⟨finish, hfinish, h⟩ := bind_eq_ok.mp h
  refine ⟨senders, recipient, chain, start, finish, hsenders, hrecipient, hchain, hstart,
    hfinish, ?_⟩
  by_cases hlate : reference < start
  · simp only [if_pos hlate, pure_eq, Except.ok.injEq] at h
    exact .inl ⟨hlate, h.symm⟩
  · simp only [if_neg hlate] at h
    obtain ⟨share, hshare, h⟩ := bind_eq_ok.mp h
    obtain ⟨dates, hdates, h⟩ := bind_eq_ok.mp h
    obtain ⟨hrange, rfl⟩ := Decimal.checked_eq_ok_iff.mp hshare
    refine .inr ⟨hlate, hrange, dates, hdates, ?_⟩
    have hnonneg : ∀ t ∈ sharedOut senders recipient chain line.amount.toDecimal,
        0 ≤ t.amount.toRat := fun _ ht => amount_nonneg_of_mem_sharedOut rfl ht
    rcases (enterOccurrences_cases options.mergeInvoices line.note hnonneg dates d).2 with
      ⟨hall, heq⟩ | ⟨-, heq⟩
    · exact ⟨hall, ok_unique h heq⟩
    · cases h.symm.trans heq

/-- What a payment line did: its accounts and its date exist, and it was left out as
too late, left out as a payment to oneself, or recorded. -/
theorem addPayment_eq_ok {reference : Date} {d d' : Draft} {line : PaymentLine}
    (h : d.addPayment reference line = .ok d') :
    ∃ sender recipient date,
      d.accounts.resolve line.sender = .ok sender ∧
      d.accounts.resolve line.recipient = .ok recipient ∧
      line.date.toDate = .ok date ∧
      (reference < date ∧ d' = d.log (.ignored .payment line.note date) ∨
        ¬ reference < date ∧ sender = recipient ∧ d' = d.log (.dropped .payment sender date) ∨
        ¬ reference < date ∧ sender ≠ recipient ∧
          d' = { d with payments :=
            ⟨sender, recipient, line.amount.toDecimal, date, line.note, .payment⟩ ::
              d.payments }) := by
  unfold addPayment at h
  obtain ⟨sender, hsender, h⟩ := bind_eq_ok.mp h
  obtain ⟨recipient, hrecipient, h⟩ := bind_eq_ok.mp h
  obtain ⟨date, hdate, h⟩ := bind_eq_ok.mp h
  refine ⟨sender, recipient, date, hsender, hrecipient, hdate, ?_⟩
  by_cases hlate : reference < date
  · simp only [if_pos hlate, pure_eq, Except.ok.injEq] at h
    exact .inl ⟨hlate, h.symm⟩
  · by_cases hself : sender = recipient
    · simp only [if_neg hlate, if_pos hself, pure_eq, Except.ok.injEq] at h
      exact .inr (.inl ⟨hlate, hself, h.symm⟩)
    · simp only [if_neg hlate, if_neg hself, create_payment_eq hself, bind_ok, pure_eq,
        Except.ok.injEq] at h
      exact .inr (.inr ⟨hlate, hself, h.symm⟩)

theorem carryOut_account_eq_ok {options : Options} {reference : Date} {d d' : Draft}
    {acronym name : String}
    (h : d.carryOut options reference (.account acronym name) = .ok d') :
    ∃ accounts, d.accounts.add acronym name = .ok accounts ∧
      d' = { d with accounts := accounts } := by
  obtain ⟨accounts, hadd, h⟩ := bind_eq_ok.mp h
  exact ⟨accounts, hadd, (Except.ok.inj h).symm⟩

theorem addLine_eq_ok_iff {options : Options} {reference : Date} {d d' : Draft} {number : Nat}
    {text : List Char} :
    d.addLine options reference number text = .ok d' ↔
      ∃ line, Line.ofText? text = some line ∧ d.carryOut options reference line = .ok d' := by
  unfold addLine
  cases Line.ofText? text with
  | none => simp
  | some line => simp [mapError_eq_ok]

/-! ## Many lines -/

theorem addLines_cons_eq_none_iff {options : Options} {reference : Date} {d d' : Draft}
    {number : Nat} {text : List Char} {rest : List (List Char)} :
    d.addLines options reference number (text :: rest) = (d', none) ↔
      ∃ d₁, d.addLine options reference number text = .ok d₁ ∧
        d₁.addLines options reference (number + 1) rest = (d', none) := by
  rw [addLines]
  cases d.addLine options reference number text with
  | error fault => simp
  | ok d₁ => simp

theorem addLines_append {options : Options} {reference : Date} (d : Draft) (number : Nat)
    (lines more : List (List Char)) :
    d.addLines options reference number (lines ++ more) =
      match d.addLines options reference number lines with
      | (d', some fault) => (d', some fault)
      | (d', none) => d'.addLines options reference (number + lines.length) more := by
  induction lines generalizing d number with
  | nil => rfl
  | cons text lines ih =>
    rw [List.cons_append, addLines, addLines]
    cases d.addLine options reference number text with
    | error fault => rfl
    | ok d₁ =>
      dsimp only
      rw [ih, List.length_cons, Nat.add_assoc, Nat.add_comm 1]

theorem addLines_append_eq_none_iff {options : Options} {reference : Date} {d d' : Draft}
    {number : Nat} {lines more : List (List Char)} :
    d.addLines options reference number (lines ++ more) = (d', none) ↔
      ∃ d₁, d.addLines options reference number lines = (d₁, none) ∧
        d₁.addLines options reference (number + lines.length) more = (d', none) := by
  rw [addLines_append]
  rcases d.addLines options reference number lines with ⟨d₁, _ | fault⟩
  · simp
  · simp

/-- A reading to the end keeps what every line keeps of the draft and of the lines so far. -/
theorem addLines_keeps_behind {options : Options} {reference : Date}
    {P : List (List Char) → Draft → Prop}
    (step : ∀ earlier d text line d', P earlier d → Line.ofText? text = some line →
      d.carryOut options reference line = .ok d' → P (earlier ++ [text]) d')
    {earlier lines : List (List Char)} {number : Nat} {d d' : Draft} (hd : P earlier d)
    (h : d.addLines options reference number lines = (d', none)) : P (earlier ++ lines) d' := by
  induction lines generalizing number earlier d with
  | nil =>
    cases h
    rwa [List.append_nil]
  | cons text rest ih =>
    obtain ⟨d₁, hline, hrest⟩ := addLines_cons_eq_none_iff.mp h
    obtain ⟨line, hread, hcarry⟩ := addLine_eq_ok_iff.mp hline
    rw [List.append_cons]
    exact ih (step earlier d text line d₁ hd hread hcarry) hrest

theorem addLines_keeps {options : Options} {reference : Date} {P : Draft → Prop}
    (step : ∀ d line d', P d → d.carryOut options reference line = .ok d' → P d')
    {lines : List (List Char)} {number : Nat} {d d' : Draft} (hd : P d)
    (h : d.addLines options reference number lines = (d', none)) : P d' :=
  @addLines_keeps_behind options reference (fun _ => P)
    (fun _ d _ line d' hd _ hcarry => step d line d' hd hcarry) [] lines number d d' hd h

end Draft

/-! ## Whole texts -/

/-- The texts that are ledgers, and the ledgers that they are. -/
theorem Ledger.ofString_eq_ok_iff {options : Options} {text : String} {l : Ledger} :
    ofString options text = .ok l ↔
      ∃ reference d,
        readHeader options (Text.splitLines text.toList).1 = .ok reference ∧
        ({} : Draft).addLines options reference 2 (Text.splitLines text.toList).2 = (d, none) ∧
        l = d.finish reference := by
  unfold ofString read
  dsimp only
  cases readHeader options (Text.splitLines text.toList).1 with
  | error fault => simp
  | ok reference =>
    rcases hlines : ({} : Draft).addLines options reference 2 (Text.splitLines text.toList).2 with
      ⟨d, _ | fault⟩
    · simp [hlines, eq_comm]
    · simp [hlines]

end HouseLedger
