import HouseLedger.Proofs.Ledger.RecurringInvoices

/-!
# Readings of an invoice line

A text may be read as an invoice line in two ways, for a recurrence with a note behind it is a
note as well (`InvoiceLine.IsReading`). Of a text with a reading one is what the text spells
(`InvoiceLine.IsReading.exists_spells`). The others differ from it in their terms alone, so that
there are no more than the two, and what is read is the recurring one if there is one
(`Line.ofText?_invoice_iff`).

`Line.invoice_readings` has the rule for invoices in full, with the rows that its parties are
taken from and divided into.
-/

namespace HouseLedger

open Text (isBlank)

namespace InvoiceLine

variable {l l' : InvoiceLine} {text : List Char}

/-! ## Readings -/

/-- The text can be read as the invoice line: it consists of the words of the line, and these have
the form that they should have. The note of a line that does not recur may be a recurrence with a
note behind it. -/
structure IsReading (l : InvoiceLine) (text : List Char) : Prop where
  sender : IsAcronym l.sender
  sharers : ∀ a ∈ l.sharers, IsAcronym a
  recipients : ∀ a ∈ l.recipient :: l.chain, IsAcronym a
  amount : l.amount.IsProper
  start : l.start.IsProper
  recurrence : ∀ r, l.recurrence = some r → r.1.IsProper ∧ r.2.IsProper
  note_ne : l.note ≠ ""
  row : IsRow l.words text

theorem isProper_of_isReading (h : l.IsReading text)
    (honce : l.recurrence = none → ¬ IsRecurrent l.note) : l.IsProper :=
  isProper_iff.mpr ⟨h.sender, h.sharers, h.recipients, h.amount, h.start, h.note_ne,
    h.recurrence, honce⟩

/-- What a text spells is one of its readings. -/
theorem isReading_of_spells (h : (Line.invoice l).Spells text) : l.IsReading text := by
  obtain ⟨hproper, hrow⟩ := h
  obtain ⟨hsender, hsharers, hrecipients, hamount, hstart, hne, hrecurrence, -⟩ :=
    isProper_iff.mp hproper
  exact ⟨hsender, hsharers, hrecipients, hamount, hstart, hrecurrence, hne, hrow⟩

/-- A recurring reading is what the text spells. -/
theorem IsReading.spells_of_recurrence (h : l.IsReading text) (hr : l.recurrence ≠ none) :
    (Line.invoice l).Spells text :=
  ⟨isProper_of_isReading h fun hnone => absurd hnone hr, h.row⟩

/-- With a recurrent note the text has a recurring reading as well. -/
theorem IsReading.exists_recurring (h : l.IsReading text) (hnone : l.recurrence = none)
    (hnote : IsRecurrent l.note) :
    ∃ r note, (l.withTerms (some r) note).IsReading text := by
  obtain ⟨terms, hopen, hterms⟩ := isRow_words_iff.mp h.row
  rw [hnone] at hterms
  obtain ⟨v, hv, htext⟩ := leads_singleton.mp hterms
  obtain rfl : terms = v :: l.note.toList := by rw [htext, List.append_nil]
  obtain ⟨r, hfinish, hperiod, note, hne, hleads⟩ := (Line.isRecurrent_iff hv).mp hnote
  refine ⟨r, note, h.sender, h.sharers, h.recipients, h.amount, h.start, ?_, hne, ?_⟩
  · rintro _ ⟨⟩
    exact ⟨hfinish, hperiod⟩
  · exact (isRow_words_iff (l := l.withTerms (some r) note)).mpr ⟨_, hopen, hleads⟩

/-- A text with a reading spells that one, or a recurring one that differs from it in its terms
alone. -/
theorem IsReading.exists_spells (h : l.IsReading text) :
    ∃ recurrence note, (Line.invoice (l.withTerms recurrence note)).Spells text := by
  by_cases honce : l.recurrence = none → ¬ IsRecurrent l.note
  · exact ⟨l.recurrence, l.note, isProper_of_isReading h honce, h.row⟩
  · obtain ⟨hnone, hnote⟩ := Classical.not_imp.mp honce
    obtain ⟨r, note, hrecurring⟩ := h.exists_recurring hnone (not_not.mp hnote)
    exact ⟨some r, note, hrecurring.spells_of_recurrence (Option.some_ne_none r)⟩

/-! ## How far readings agree -/

/-- All readings of a text are the same but for their terms. -/
theorem IsReading.withTerms_eq (h : l.IsReading text) (h' : l'.IsReading text) :
    l.withTerms l'.recurrence l'.note = l' := by
  obtain ⟨recurrence, note, hspells⟩ := h.exists_spells
  obtain ⟨recurrence', note', hspells'⟩ := h'.exists_spells
  have heq := Line.invoice.inj (hspells.unique hspells')
  exact congrArg (fun k => k.withTerms l'.recurrence l'.note) heq

/-- Where the terms are a note alone, the text determines it. -/
theorem note_unique {note note' : String}
    (h : IsRow (l.withTerms none note).words text)
    (h' : IsRow (l.withTerms none note').words text) : note = note' := by
  obtain ⟨terms, ⟨next, rfl, hopen⟩, hnote⟩ := isRow_words_iff.mp h
  obtain ⟨terms', ⟨next', hnext, hopen'⟩, hnote'⟩ := isRow_words_iff.mp h'
  obtain rfl := List.append_cancel_left hnext
  obtain rfl : terms = terms' := leads_unique hopen hopen'
  obtain ⟨v, -, rfl⟩ := leads_singleton.mp hnote
  obtain ⟨v', -, heq⟩ := leads_singleton.mp hnote'
  exact String.toList_injective (List.append_cancel_right (List.cons.inj heq).2)

/-- Readings that both recur, or both do not, are the same. -/
theorem IsReading.eq_of_isSome_eq (h : l.IsReading text) (h' : l'.IsReading text)
    (hsome : l.recurrence.isSome = l'.recurrence.isSome) : l = l' := by
  cases hr : l.recurrence with
  | some r =>
    rw [hr] at hsome
    have hspells := h.spells_of_recurrence (by simp [hr])
    have hspells' := h'.spells_of_recurrence (Option.isSome_iff_ne_none.mp hsome.symm)
    exact Line.invoice.inj (hspells.unique hspells')
  | none =>
    have hr' : l'.recurrence = none := by simpa [hr] using hsome.symm
    have heq := h.withTerms_eq h'
    have hself : l.withTerms none l.note = l := by rw [← hr]; rfl
    rw [hr'] at heq
    have hnote : l.note = l'.note :=
      note_unique (l := l) (by rw [hself]; exact h.row) (by rw [heq]; exact h'.row)
    rw [← heq, ← hnote, hself]

/-! ## Parties -/

/-- The parties of a reading are taken together, and dividing them at the arrows and then at the
colons gives the acronyms in their order. -/
theorem IsReading.exists_parties (h : l.IsReading text) :
    ∃ v parties rest senders, isBlank v = true ∧
      text = "invoice".toList ++ v :: (parties ++ rest) ∧
      Line.takeParties? (parties ++ rest) = some (parties, rest) ∧
      Line.splitAtMark "->" parties = senders :: (l.recipient :: l.chain).map String.toList ∧
      Line.splitAtMark ":" senders = (l.sender :: l.sharers).map String.toList := by
  obtain ⟨v, parties, rest, t₂, t₃, hv, htext, hrow, hamount, -, -⟩ :=
    Line.isRow_invoice_words_iff.mp h.row
  obtain ⟨senders, harrows, hcolons⟩ :=
    Line.exists_splitAtMark h.sender h.sharers h.recipients hrow
  refine ⟨v, parties, rest, senders, hv, htext, ?_, harrows, hcolons⟩
  exact Line.takeParties?_eq_some_iff.mpr ⟨_, _, _, _, h.sender, h.sharers, h.recipients, hrow,
    rfl, Line.takeMember?_eq_none_of_amount h.amount hamount⟩

end InvoiceLine

namespace Line

/-! ## The rule for invoices -/

variable {l : InvoiceLine} {text : List Char}

/-- What is read is the recurring reading if there is one, and otherwise the only one. -/
theorem ofText?_invoice_iff :
    ofText? text = some (.invoice l) ↔ l.IsReading text ∧
      (l.recurrence = none → ∀ l' : InvoiceLine, l'.IsReading text → l'.recurrence = none) := by
  rw [ofText?_eq_some_iff]
  constructor
  · intro h
    refine ⟨InvoiceLine.isReading_of_spells h, fun hnone l' h' => ?_⟩
    by_contra hr
    obtain rfl := Line.invoice.inj (h.unique (h'.spells_of_recurrence hr))
    exact hr hnone
  · rintro ⟨h, honly⟩
    refine ⟨InvoiceLine.isProper_of_isReading h fun hnone hnote => ?_, h.row⟩
    obtain ⟨r, note, hrecurring⟩ := h.exists_recurring hnone hnote
    exact Option.some_ne_none r (honly hnone _ hrecurring)

/-- Whatever can be read as an invoice is. -/
theorem exists_ofText?_invoice_iff :
    (∃ l, ofText? text = some (.invoice l)) ↔ ∃ l : InvoiceLine, l.IsReading text := by
  constructor
  · rintro ⟨l, h⟩
    exact ⟨l, (ofText?_invoice_iff.mp h).1⟩
  · rintro ⟨l, h⟩
    obtain ⟨recurrence, note, hspells⟩ := h.exists_spells
    exact ⟨_, hspells.ofText?_eq⟩

/-- The rule for invoices. A text is read as an invoice exactly if it has a reading as one. Its
readings agree in all but their terms, and there are at most two, one that recurs and one that does
not; the one that recurs is read if there is one. Its parties, cut at the arrows and then at the
colons, are the acronyms of the line in their order. No text fits two of the rules. -/
theorem invoice_readings (text : List Char) :
    ((∃ l, ofText? text = some (.invoice l)) ↔ ∃ l : InvoiceLine, l.IsReading text) ∧
    (∀ l, ofText? text = some (.invoice l) ↔ l.IsReading text ∧
      (l.recurrence = none → ∀ l' : InvoiceLine, l'.IsReading text → l'.recurrence = none)) ∧
    (∀ l l' : InvoiceLine, l.IsReading text → l'.IsReading text →
      l.withTerms l'.recurrence l'.note = l' ∧
        (l.recurrence.isSome = l'.recurrence.isSome → l = l')) ∧
    (∀ l : InvoiceLine, l.IsReading text → ∃ v parties rest senders, isBlank v = true ∧
      text = "invoice".toList ++ v :: (parties ++ rest) ∧
      takeParties? (parties ++ rest) = some (parties, rest) ∧
      splitAtMark "->" parties = senders :: (l.recipient :: l.chain).map String.toList ∧
      splitAtMark ":" senders = (l.sender :: l.sharers).map String.toList) ∧
    rules.Pairwise fun rule rule' => rule text = none ∨ rule' text = none :=
  ⟨exists_ofText?_invoice_iff, fun _ => ofText?_invoice_iff,
    fun _ _ h h' => ⟨h.withTerms_eq h', h.eq_of_isSome_eq h'⟩, fun _ h => h.exists_parties,
    rules_exclusive.imp fun hexclusive => hexclusive text⟩

end Line

end HouseLedger
