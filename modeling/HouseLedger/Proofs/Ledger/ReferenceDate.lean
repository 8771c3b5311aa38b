import HouseLedger.Proofs.Ledger.Requests

/-!
# Earlier reference dates

The same lines are read with two reference dates. With the earlier one a line asks for those
invoices and payments that it asks for with the later one and that are not after it
(`filter_invoicesOf`, `filter_paymentsOf`), whether or not it can be carried out with either.
Alike invoices are of one day, so merging comes to the same (`filter_invoicesBehind`). So a
ledger of an earlier reference date has the transactions of a later one that are not after it,
in the same order and with the same amounts.
-/

namespace HouseLedger

open Outcome

variable {options : Options} {cut reference : Date} {r : Registry}

/-! ## What a line asks for -/

/-- The second list of transactions is the first one up to a date. One that cannot be had is
empty. -/
def CutTo (cut : Date) (later earlier : Except Fault (List Transaction)) : Prop :=
  (later.toOption.getD []).filter (·.date ≤ cut) = earlier.toOption.getD []

theorem CutTo.error (fault : Fault) : CutTo cut (.error fault) (.error fault) := rfl

theorem Transfer.date_of_invoice? {note : String} {date : Date} {t : Transfer} {x : Transaction}
    (h : t.invoice? note date = some x) : x.date = date := by
  unfold invoice? at h
  split at h
  · cases h
  · cases h
    rfl

theorem Draft.date_of_mem_invoicesOn {note : String} {ts : List Transfer} {date : Date}
    {x : Transaction} (hx : x ∈ Draft.invoicesOn note ts date) : x.date = date := by
  obtain ⟨t, -, ht⟩ := List.mem_filterMap.mp hx
  exact Transfer.date_of_invoice? ht

/-- Of the invoices on many dates those up to a date are those on the dates up to it. -/
theorem Draft.filter_flatMap_invoicesOn (note : String) (ts : List Transfer) (dates : List Date) :
    (dates.flatMap (Draft.invoicesOn note ts)).filter (·.date ≤ cut) =
      (dates.filter (· ≤ cut)).flatMap (Draft.invoicesOn note ts) := by
  induction dates with
  | nil => rfl
  | cons date dates ih =>
    rw [List.flatMap_cons, List.filter_append, ih]
    by_cases hdate : date ≤ cut
    · rw [List.filter_cons_of_pos (by simpa using hdate), List.flatMap_cons,
        List.filter_eq_self.mpr]
      intro x hx
      rw [Draft.date_of_mem_invoicesOn hx]
      exact decide_eq_true hdate
    · rw [List.filter_cons_of_neg (by simpa using hdate), List.filter_eq_nil_iff.mpr,
        List.nil_append]
      intro x hx
      rw [Draft.date_of_mem_invoicesOn hx]
      simpa using hdate

theorem InvoiceLine.cutTo_billed (hcut : cut ≤ reference) (l : InvoiceLine) :
    CutTo cut (l.billed options reference r) (l.billed options cut r) := by
  unfold billed
  refine bind_both .error fun senders _ => bind_both .error fun recipient _ =>
    bind_both .error fun chain _ => bind_both .error fun start _ =>
    bind_both .error fun finish _ => ?_
  have hforward := l.isForward_of_isEmpty options.legacyYears
  by_cases hlate : reference < start
  · simp only [if_pos hlate, if_pos (Date.lt_of_le_of_lt hcut hlate)]
    rfl
  simp only [if_neg hlate]
  by_cases hbetween : cut < start
  · -- The invoice begins between the two reference dates: all its dates are cut off.
    simp only [if_pos hbetween]
    cases (l.amount.toDecimal.share senders.length).checked with
    | error fault => rfl
    | ok share =>
      rw [bind_ok]
      cases hdates : Recurrence.occurrences start finish
          (l.recurrence.map fun r => r.2.toPeriod options.legacyYears) reference with
      | error fault => rfl
      | ok dates =>
        refine (Draft.filter_flatMap_invoicesOn _ _ dates).trans ?_
        rw [List.filter_eq_nil_iff.mpr]
        · rfl
        · intro date hdate
          rw [decide_eq_true_iff, Date.not_le]
          exact Date.lt_of_lt_of_le hbetween
            (Recurrence.start_le_of_mem_occurrences hforward hdates hdate)
  · simp only [if_neg hbetween]
    refine bind_both .error fun share _ => ?_
    cases hdates : Recurrence.occurrences start finish
        (l.recurrence.map fun r => r.2.toPeriod options.legacyYears) reference with
    | error fault =>
      rw [Recurrence.occurrences_eq_error hdates cut]
      rfl
    | ok dates =>
      rw [Recurrence.occurrences_filter hforward hdates hcut (Date.not_lt.mp hbetween)]
      exact Draft.filter_flatMap_invoicesOn _ _ dates

theorem PaymentLine.cutTo_paid (hcut : cut ≤ reference) (l : PaymentLine) :
    CutTo cut (l.paid reference r) (l.paid cut r) := by
  unfold paid
  refine bind_both .error fun sender _ => bind_both .error fun recipient _ =>
    bind_both .error fun date _ => ?_
  by_cases hnone : reference < date ∨ sender = recipient
  · rw [if_pos hnone, if_pos (hnone.imp_left (Date.lt_of_le_of_lt hcut))]
    rfl
  · obtain ⟨hintime, hne⟩ := not_or.mp hnone
    rw [if_neg hnone]
    by_cases hlate : cut < date
    · rw [if_pos (.inl hlate)]
      exact List.filter_cons_of_neg (by simpa using Date.not_le.mpr hlate)
    · rw [if_neg (not_or.mpr ⟨hlate, hne⟩)]
      exact List.filter_cons_of_pos (by simpa using Date.not_lt.mp hlate)

/-! ## What lines ask for -/

theorem filter_invoicesOf (hcut : cut ≤ reference) (text : List Char) :
    (invoicesOf options reference r text).filter (·.date ≤ cut) =
      invoicesOf options cut r text := by
  unfold invoicesOf
  cases Line.ofText? text with
  | none => rfl
  | some line =>
    cases line with
    | invoice l => exact l.cutTo_billed hcut
    | _ => rfl

theorem filter_paymentsOf (hcut : cut ≤ reference) (text : List Char) :
    (paymentsOf reference r text).filter (·.date ≤ cut) = paymentsOf cut r text := by
  unfold paymentsOf
  cases Line.ofText? text with
  | none => rfl
  | some line =>
    cases line with
    | payment l => exact l.cutTo_paid hcut
    | _ => rfl

/-- The cut spares all of some alike invoices, or none. -/
theorem date_le_of_isAlike (cut : Date) (a b : Transaction) (h : a.isAlike b = true) :
    decide (b.date ≤ cut) = decide (a.date ≤ cut) := by
  rw [Draft.date_eq_of_isAlike h]

theorem filter_invoicesBehind (hcut : cut ≤ reference) (lines : List (List Char)) :
    (invoicesBehind options reference lines).filter (·.date ≤ cut) =
      invoicesBehind options cut lines := by
  unfold invoicesBehind
  rw [Draft.filter_foldl_recorded (date_le_of_isAlike cut), List.filter_nil, List.filter_flatMap]
  simp only [filter_invoicesOf hcut]

/-! ## Two ledgers -/

/-- Two texts that differ in their first line only, and that are both ledgers: the one of
the earlier reference date has the same accounts, and of the invoices and payments of the
other those up to its reference date. -/
theorem Ledger.ofString_filter {options : Options} {text text' : String} {l l' : Ledger}
    (hbody : (Text.splitLines text.toList).2 = (Text.splitLines text'.toList).2)
    (h : ofString options text = .ok l) (h' : ofString options text' = .ok l')
    (hcut : l.referenceDate ≤ l'.referenceDate) :
    l.accounts = l'.accounts ∧
      l.invoices = l'.invoices.filter (·.date ≤ l.referenceDate) ∧
      l.payments = l'.payments.filter (·.date ≤ l.referenceDate) := by
  obtain ⟨cut, d, -, hlines, rfl⟩ := ofString_eq_ok_iff.mp h
  obtain ⟨reference, d', -, hlines', rfl⟩ := ofString_eq_ok_iff.mp h'
  rw [← hbody] at hlines'
  have hd := Draft.consists_of_addLines hlines
  have hd' := Draft.consists_of_addLines hlines'
  have hcut : cut ≤ reference := hcut
  unfold Draft.finish
  dsimp only
  rw [hd.accounts_eq, hd'.accounts_eq, hd.invoices_eq, hd'.invoices_eq, hd.payments_eq,
    hd'.payments_eq, List.filter_reverse, filter_invoicesBehind hcut, List.reverse_reverse,
    List.reverse_reverse, List.filter_flatMap]
  simp only [filter_paymentsOf hcut, and_self]

/-- A monthly rent and a payment, up to a reference date. -/
def rentText (reference : String) : String :=
  "accounting_date " ++ reference ++ "\naccount AA Anna\naccount BB Bert\n" ++
    "invoice AA -> BB 10.00 31.1.2024 - 1.5.2024 : 0.1.0000 rent\n" ++
    "payment AA -> BB 4.00 1.2.2024 rent\n"

/-- In February the invoice of January and the payment are there, and in April two invoices
more. -/
theorem Ledger.ofString_filter_rent :
    ∃ l l', ofString {} (rentText "1.2.2024") = .ok l ∧
      ofString {} (rentText "30.4.2024") = .ok l' ∧ l.referenceDate ≤ l'.referenceDate ∧
      (l.accounts = l'.accounts ∧
        l.invoices = l'.invoices.filter (·.date ≤ l.referenceDate) ∧
        l.payments = l'.payments.filter (·.date ≤ l.referenceDate)) ∧
      l.invoices.map (·.date) = [⟨2024, 1, 31, by decide, by decide, by decide⟩] ∧
      l.payments.map (·.date) = [⟨2024, 2, 1, by decide, by decide, by decide⟩] ∧
      l'.invoices.map (·.date) = [⟨2024, 1, 31, by decide, by decide, by decide⟩,
        ⟨2024, 2, 29, by decide, by decide, by decide⟩,
        ⟨2024, 3, 31, by decide, by decide, by decide⟩,
        ⟨2024, 4, 30, by decide, by decide, by decide⟩] := by
  have hearly : (ofString {} (rentText "1.2.2024")).toOption.map (fun l =>
        (l.referenceDate, l.invoices.map (·.date), l.payments.map (·.date))) =
      some (⟨2024, 2, 1, by decide, by decide, by decide⟩,
        [⟨2024, 1, 31, by decide, by decide, by decide⟩],
        [⟨2024, 2, 1, by decide, by decide, by decide⟩]) := by decide +kernel
  have hlate : (ofString {} (rentText "30.4.2024")).toOption.map (fun l =>
        (l.referenceDate, l.invoices.map (·.date))) =
      some (⟨2024, 4, 30, by decide, by decide, by decide⟩,
        [⟨2024, 1, 31, by decide, by decide, by decide⟩,
          ⟨2024, 2, 29, by decide, by decide, by decide⟩,
          ⟨2024, 3, 31, by decide, by decide, by decide⟩,
          ⟨2024, 4, 30, by decide, by decide, by decide⟩]) := by decide +kernel
  obtain ⟨l, hl, hdates⟩ := Option.map_eq_some_iff.mp hearly
  obtain ⟨l', hl', hdates'⟩ := Option.map_eq_some_iff.mp hlate
  obtain ⟨hreference, hinvoices, hpayments⟩ :
      l.referenceDate = _ ∧ l.invoices.map (·.date) = _ ∧ l.payments.map (·.date) = _ := by
    simpa only [Prod.mk.injEq] using hdates
  obtain ⟨hreference', hinvoices'⟩ : l'.referenceDate = _ ∧ l'.invoices.map (·.date) = _ := by
    simpa only [Prod.mk.injEq] using hdates'
  have hcut : l.referenceDate ≤ l'.referenceDate := by
    rw [hreference, hreference']
    decide
  rw [toOption_eq_some] at hl hl'
  exact ⟨l, l', hl, hl', hcut, ofString_filter (by decide +kernel) hl hl' hcut, hinvoices,
    hpayments, hinvoices'⟩

end HouseLedger
