import HouseLedger.Proofs.Calendar.Spelling
import HouseLedger.Proofs.Ledger.Acceptance

/-!
# Recurring invoices

What stands behind the first date of an invoice line is its terms: a recurrence and a note, or
a note alone.

1. A recurrence with a note behind it is read as a recurrence, whatever the note is. One that
   ends the line is not: the line is taken for an invoice of its first date whose note is the
   recurrence (`Draft.addLine_recurrence`).
2. A recurring invoice is short for one invoice line for each of its dates. Both ways of
   writing it give the same ledger (`Ledger.ofString_spelledOut`).
-/

namespace HouseLedger

open Outcome Text

/-! ## 1. Terms -/

/-- The line ends here, or a blank comes next. -/
def AtWordEnd (text : List Char) : Prop := ∀ c, text.head? = some c → isBlank c = true

theorem AtWordEnd.noDigit {text : List Char} (h : AtWordEnd text) : NoDigit text :=
  fun c hc => not_isDigit_of_isBlank (h c hc)

namespace InvoiceLine

/-- The words of an invoice line up to its first date, the keyword apart. -/
def openingWords (l : InvoiceLine) : List String :=
  l.sender :: l.sharers.flatMap (fun a => [":", a]) ++
    (l.recipient :: l.chain).flatMap (fun a => ["->", a]) ++ [l.amount.text, l.start.text]

/-- The text is an invoice line up to its first date and goes on with the terms. -/
def OpensWith (l : InvoiceLine) (text terms : List Char) : Prop :=
  ∃ next, text = "invoice".toList ++ next ∧ Leads l.openingWords next terms

/-- An invoice line whose words up to its first date have the form that they should have. -/
structure OpensProperly (l : InvoiceLine) : Prop where
  parties : ∀ a ∈ l.parties, IsAcronym a
  amount : l.amount.IsProper
  start : l.start.IsProper

/-- The same bill under other terms. -/
def withTerms (l : InvoiceLine) (recurrence : Option (WrittenDate × WrittenDate))
    (note : String) : InvoiceLine :=
  { l with recurrence := recurrence, note := note }

variable {l : InvoiceLine} {text terms : List Char}

theorem IsProper.opensProperly (h : l.IsProper) : l.OpensProperly :=
  ⟨h.parties, h.amount, h.start⟩

theorem OpensProperly.withTerms (h : l.OpensProperly)
    {recurrence : Option (WrittenDate × WrittenDate)} {note : String}
    (hrecurrence : ∀ r, recurrence = some r → r.1.IsProper ∧ r.2.IsProper)
    (honce : recurrence = none → ¬ IsRecurrent note) (hne : note ≠ "") :
    (l.withTerms recurrence note).IsProper :=
  ⟨h.parties, h.amount, h.start, hrecurrence, honce, hne⟩

/-- A whole line is its beginning and its terms. -/
theorem isRow_words_iff : IsRow l.words text ↔ ∃ terms, l.OpensWith text terms ∧
    Leads ((l.recurrence.map recurrenceWords).getD [] ++ [l.note]) terms [] := by
  have hwords : l.words = "invoice" ::
      (l.openingWords ++ ((l.recurrence.map recurrenceWords).getD [] ++ [l.note])) := by
    simp [words, openingWords]
  rw [hwords]
  constructor
  · rintro ⟨next, htext, hleads⟩
    obtain ⟨terms, hopen, hterms⟩ := leads_append.mp hleads
    exact ⟨terms, ⟨next, htext, hopen⟩, hterms⟩
  · rintro ⟨terms, ⟨next, htext, hopen⟩, hterms⟩
    exact ⟨next, htext, leads_append.mpr ⟨terms, hopen, hterms⟩⟩

end InvoiceLine

/-- A text begins with at most one recurrence that ends with a word. -/
theorem recurrence_unique {r r' : WrittenDate × WrittenDate} {terms rest rest' : List Char}
    (hr : r.1.IsProper ∧ r.2.IsProper) (hterms : Leads (recurrenceWords r) terms rest)
    (hrest : NoDigit rest) (hr' : r'.1.IsProper ∧ r'.2.IsProper)
    (hterms' : Leads (recurrenceWords r') terms rest') (hrest' : NoDigit rest') :
    r = r' ∧ rest = rest' := by
  have htake := Line.takeRecurrence?_eq_some_iff.mpr ⟨hr.1, hr.2, hterms, hrest⟩
  have htake' := Line.takeRecurrence?_eq_some_iff.mpr ⟨hr'.1, hr'.2, hterms', hrest'⟩
  exact Prod.mk.inj (Option.some.inj (htake.symm.trans htake'))

variable {r : WrittenDate × WrittenDate} {terms rest : List Char}

/-- With nothing behind it a recurrence is none. -/
theorem not_isRecurrent_of_leads {v : Char} {note : List Char} (hv : isBlank v = true)
    (hr : r.1.IsProper ∧ r.2.IsProper) (hterms : Leads (recurrenceWords r) (v :: note) rest)
    (hrest : AtWordEnd rest) (hend : rest.tail = []) : ¬ IsRecurrent (String.ofList note) := by
  rw [Line.isRecurrent_iff hv, String.toList_ofList]
  rintro ⟨r', hfinish, hperiod, note', hne, hleads⟩
  obtain ⟨rest', hterms', hnote⟩ := leads_append.mp hleads
  obtain ⟨-, rfl⟩ := recurrence_unique hr hterms hrest.noDigit ⟨hfinish, hperiod⟩ hterms'
    (noDigit_of_leads hnote)
  -- What stands behind the recurrence would be the note, and that is empty.
  obtain ⟨w, -, rfl⟩ := leads_singleton.mp hnote
  rw [List.tail_cons, List.append_nil, String.toList_eq_nil_iff] at hend
  exact hne hend

namespace Line

variable {l : InvoiceLine} {text : List Char}

/-- A recurrence with a note behind it is read as a recurrence. -/
theorem ofText?_recurring (hl : l.OpensProperly) (hopen : l.OpensWith text terms)
    (hr : r.1.IsProper ∧ r.2.IsProper) (hterms : Leads (recurrenceWords r) terms rest)
    (hrest : AtWordEnd rest) (hnote : rest.tail ≠ []) :
    ofText? text = some (.invoice (l.withTerms (some r) (String.ofList rest.tail))) := by
  cases rest with
  | nil => exact absurd rfl hnote
  | cons v note =>
    refine Spells.ofText?_eq ⟨hl.withTerms ?_ nofun ?_, ?_⟩
    · rintro _ ⟨⟩
      exact hr
    · exact fun hempty => hnote (String.ofList_eq_empty_iff.mp hempty)
    · refine InvoiceLine.isRow_words_iff.mpr ⟨terms, hopen, leads_append.mpr ⟨_, hterms, ?_⟩⟩
      exact leads_singleton.mpr ⟨v, hrest v rfl, by simp [InvoiceLine.withTerms]⟩

/-- A recurrence at the end of a line is read as a note. -/
theorem ofText?_noted (hl : l.OpensProperly) (hopen : l.OpensWith text terms)
    (hr : r.1.IsProper ∧ r.2.IsProper) (hterms : Leads (recurrenceWords r) terms rest)
    (hrest : AtWordEnd rest) (hend : rest.tail = []) :
    ofText? text = some (.invoice (l.withTerms none (String.ofList terms.tail))) := by
  have hlead := hterms
  obtain ⟨v, next, hv, rfl, -⟩ := hlead
  refine Spells.ofText?_eq ⟨hl.withTerms nofun (fun _ => ?_) ?_, ?_⟩
  · exact not_isRecurrent_of_leads hv hr hterms hrest hend
  · simp
  · refine InvoiceLine.isRow_words_iff.mpr ⟨_, hopen, ?_⟩
    exact leads_singleton.mpr ⟨v, hv, by simp [InvoiceLine.withTerms]⟩

end Line

namespace Draft

/-- An invoice line that goes on with a recurrence behind its first date. If a note stands
behind the recurrence, carrying out the line is carrying out the recurring invoice; if the line
ends there, it is carrying out an invoice of the first date alone, for which the recurrence is
the note. -/
theorem addLine_recurrence {options : Options} {reference : Date} {number : Nat} {d d' : Draft}
    {l : InvoiceLine} {r : WrittenDate × WrittenDate} {text terms rest : List Char}
    (hl : l.OpensProperly) (hopen : l.OpensWith text terms) (hr : r.1.IsProper ∧ r.2.IsProper)
    (hterms : Leads (recurrenceWords r) terms rest) (hrest : AtWordEnd rest) :
    (rest.tail ≠ [] → (d.addLine options reference number text = .ok d' ↔
      d.addInvoice options reference (l.withTerms (some r) (String.ofList rest.tail)) =
        .ok d')) ∧
    (rest.tail = [] → (d.addLine options reference number text = .ok d' ↔
      d.addInvoice options reference (l.withTerms none (String.ofList terms.tail)) = .ok d')) := by
  constructor
  · intro hnote
    rw [addLine_eq_ok_iff, Line.ofText?_recurring hl hopen hr hterms hrest hnote]
    simp [carryOut]
  · intro hend
    rw [addLine_eq_ok_iff, Line.ofText?_noted hl hopen hr hterms hrest hend]
    simp [carryOut]

/-- Dues that are owed once. -/
def duesLine : InvoiceLine where
  sender := "AA"
  sharers := []
  recipient := "BB"
  chain := []
  amount := ⟨['1'], ['0', '0']⟩
  start := ⟨['1'], ['1'], ['2', '0', '2', '4']⟩
  recurrence := none
  note := "gym"

/-- How they could recur. -/
def duesRecurrence : WrittenDate × WrittenDate :=
  (⟨['1'], ['3'], ['2', '0', '2', '4']⟩, ⟨['0'], ['1'], ['0', '0', '0', '0']⟩)

/-- The line of the dues, with what may stand behind the recurrence. -/
def duesText (rest : List Char) : List Char :=
  "invoice AA -> BB 1.00 1.1.2024 - 1.3.2024 : 0.1.0000".toList ++ rest

/-- Those who owe the dues and are owed them. -/
def duesDraft : Draft where
  accounts := { accounts := [⟨"AA", "Anna"⟩, ⟨"BB", "Bert"⟩] }

/-- With a note behind the recurrence the dues of three months are owed, without one those of
the first day. -/
theorem addLine_recurrence_dues :
    ∃ reference : Date, reference.toString = "1.3.2024" ∧
      (∃ d', duesDraft.addLine {} reference 4 (duesText " gym".toList) = .ok d' ∧
        d'.invoices.map (fun t => (t.date.toString, t.note)) =
          [("1.3.2024", "gym"), ("1.2.2024", "gym"), ("1.1.2024", "gym")]) ∧
      ∃ d', duesDraft.addLine {} reference 4 (duesText []) = .ok d' ∧
        d'.invoices.map (fun t => (t.date.toString, t.note)) =
          [("1.1.2024", "- 1.3.2024 : 0.1.0000")] := by
  let reference : Date := ⟨2024, 3, 1, by decide, by decide, by decide⟩
  have hline : (Line.invoice duesLine).Spells "invoice AA -> BB 1.00 1.1.2024 gym".toList :=
    Line.ofText?_eq_some_iff.mp (by decide +kernel)
  have hrecurrence : Line.takeRecurrence? " - 1.3.2024 : 0.1.0000".toList =
      some (duesRecurrence, []) := by
    decide +kernel
  obtain ⟨hfinish, hperiod, -, -⟩ := Line.takeRecurrence?_eq_some_iff.mp hrecurrence
  have hopen (rest : List Char) :
      duesLine.OpensWith (duesText rest) (" - 1.3.2024 : 0.1.0000".toList ++ rest) :=
    ⟨_, rfl, ' ', _, rfl, rfl, ' ', _, rfl, rfl, ' ', _, rfl, rfl, ' ', _, rfl, rfl, ' ', _, rfl,
      rfl, rfl⟩
  have hterms (rest : List Char) : Leads (recurrenceWords duesRecurrence)
      (" - 1.3.2024 : 0.1.0000".toList ++ rest) rest :=
    ⟨' ', _, rfl, rfl, ' ', _, rfl, rfl, ' ', _, rfl, rfl, ' ', _, rfl, rfl, rfl⟩
  have hrecurring : (duesDraft.addInvoice {} reference
      (duesLine.withTerms (some duesRecurrence) "gym")).toOption.map
        (·.invoices.map fun t => (t.date.toString, t.note)) =
      some [("1.3.2024", "gym"), ("1.2.2024", "gym"), ("1.1.2024", "gym")] := by
    decide +kernel
  have hnoted : (duesDraft.addInvoice {} reference
      (duesLine.withTerms none "- 1.3.2024 : 0.1.0000")).toOption.map
        (·.invoices.map fun t => (t.date.toString, t.note)) =
      some [("1.1.2024", "- 1.3.2024 : 0.1.0000")] := by
    decide +kernel
  obtain ⟨d₁, hd₁, hinvoices₁⟩ := Option.map_eq_some_iff.mp hrecurring
  obtain ⟨d₂, hd₂, hinvoices₂⟩ := Option.map_eq_some_iff.mp hnoted
  rw [toOption_eq_some] at hd₁ hd₂
  refine ⟨reference, by decide +kernel, ⟨d₁, ?_, hinvoices₁⟩, d₂, ?_, hinvoices₂⟩
  · refine ((addLine_recurrence hline.1.opensProperly (hopen _) ⟨hfinish, hperiod⟩ (hterms _)
      ?_).1 ?_).mpr hd₁
    · rintro _ ⟨⟩
      rfl
    · decide
  · exact ((addLine_recurrence hline.1.opensProperly (hopen _) ⟨hfinish, hperiod⟩ (hterms _)
      (by rintro _ ⟨⟩)).2 rfl).mpr hd₂

/-! ## 2. One line for each date -/

/-- Lines that are read to their end are so under whatever numbers. -/
theorem addLines_renumber {options : Options} {reference : Date} {d d' : Draft} {number : Nat}
    {lines : List (List Char)} (h : d.addLines options reference number lines = (d', none))
    (number' : Nat) : d.addLines options reference number' lines = (d', none) := by
  induction lines generalizing d number number' with
  | nil => exact h
  | cons text rest ih =>
    obtain ⟨d₁, hline, hrest⟩ := addLines_cons_eq_none_iff.mp h
    exact addLines_cons_eq_none_iff.mpr
      ⟨d₁, addLine_eq_ok_iff.mpr (addLine_eq_ok_iff.mp hline), ih hrest (number' + 1)⟩

/-- What it takes for an invoice line to be carried out, and what it does then. -/
theorem addInvoice_of_occurrences {options : Options} {reference : Date} {d : Draft}
    {l : InvoiceLine} {senders chain : List Nat} {recipient : Nat} {start : Date}
    {finish : Option Date} {dates : List Date}
    (hsenders : (l.sender :: l.sharers).mapM d.accounts.resolve = .ok senders)
    (hrecipient : d.accounts.resolve l.recipient = .ok recipient)
    (hchain : l.chain.mapM d.accounts.resolve = .ok chain) (hstart : l.start.toDate = .ok start)
    (hfinish : l.recurrence.mapM (fun r => r.1.toDate) = .ok finish)
    (hintime : ¬ reference < start)
    (hshare : Decimal.InRange (l.amount.toDecimal.share senders.length).toRat)
    (hdates : Recurrence.occurrences start finish
      (l.recurrence.map fun r => r.2.toPeriod options.legacyYears) reference = .ok dates)
    (hall : Enterable options.mergeInvoices d.invoices (dates.flatMap
      (invoicesOn l.note (sharedOut senders recipient chain l.amount.toDecimal)))) :
    d.addInvoice options reference l = .ok (dates.foldl (addOccurrence options.mergeInvoices l.note
      (sharedOut senders recipient chain l.amount.toDecimal)) d) := by
  have hnonneg : ∀ t ∈ sharedOut senders recipient chain l.amount.toDecimal,
      0 ≤ t.amount.toRat := fun _ ht => amount_nonneg_of_mem_sharedOut rfl ht
  unfold addInvoice
  simp only [hsenders, hrecipient, hchain, hstart, hfinish, Decimal.checked_of_inRange hshare,
    hdates, bind_ok, if_neg hintime]
  rcases (enterOccurrences_cases options.mergeInvoices l.note hnonneg dates d).2 with
    ⟨-, heq⟩ | ⟨hnot, -⟩
  · exact heq
  · exact absurd hall hnot

end Draft

namespace InvoiceLine

/-- The bill of one day, which does not recur. -/
def on (l : InvoiceLine) (w : WrittenDate) : InvoiceLine :=
  { l with start := w, recurrence := none }

/-- The lines are the bill of each date, in turn. -/
def SpelledOut (l : InvoiceLine) (dates : List Date) (lines : List (List Char)) : Prop :=
  List.Forall₂ (fun date line => ∃ w : WrittenDate, w.IsProper ∧ w.Names date ∧
    IsRow (l.on w).words line) dates lines

theorem IsProper.spells_on {l : InvoiceLine} (hl : l.IsProper) (hnote : ¬ IsRecurrent l.note)
    {w : WrittenDate} (hw : w.IsProper) {line : List Char} (hrow : IsRow (l.on w).words line) :
    (Line.invoice (l.on w)).Spells line :=
  ⟨⟨hl.parties, hl.amount, hw, nofun, fun _ => hnote, hl.note_ne⟩, hrow⟩

end InvoiceLine

namespace Draft

variable {options : Options} {reference : Date} {l : InvoiceLine} {dates : List Date}
  {lines : List (List Char)}

/-- Lines for dates up to the reference date are carried out one after the other. -/
theorem addLines_spelledOut (hl : l.IsProper) (hnote : ¬ IsRecurrent l.note)
    {accounts : Registry} {senders chain : List Nat} {recipient : Nat}
    (hsenders : (l.sender :: l.sharers).mapM accounts.resolve = .ok senders)
    (hrecipient : accounts.resolve l.recipient = .ok recipient)
    (hchain : l.chain.mapM accounts.resolve = .ok chain)
    (hshare : Decimal.InRange (l.amount.toDecimal.share senders.length).toRat)
    (hlines : l.SpelledOut dates lines) (hdates : ∀ date ∈ dates, date ≤ reference)
    {d : Draft} (haccounts : d.accounts = accounts)
    (hall : Enterable options.mergeInvoices d.invoices (dates.flatMap
      (invoicesOn l.note (sharedOut senders recipient chain l.amount.toDecimal)))) (number : Nat) :
    d.addLines options reference number lines =
      (dates.foldl (addOccurrence options.mergeInvoices l.note
        (sharedOut senders recipient chain l.amount.toDecimal)) d, none) := by
  induction hlines generalizing d number with
  | nil => rfl
  | @cons date line dates lines hline _ ih =>
    obtain ⟨w, hw, hnames, hrow⟩ := hline
    obtain ⟨hdate, hdates⟩ := List.forall_mem_cons.mp hdates
    subst haccounts
    rw [List.flatMap_cons, enterable_append] at hall
    obtain ⟨hfirst, hall⟩ := hall
    have hcarry : d.addInvoice options reference (l.on w) =
        .ok (addOccurrence options.mergeInvoices l.note
          (sharedOut senders recipient chain l.amount.toDecimal) d date) :=
      addInvoice_of_occurrences (l := l.on w) hsenders hrecipient hchain
        (WrittenDate.toDate_eq_ok_iff.mpr hnames) rfl (Date.not_lt.mpr hdate) hshare rfl
        (by rwa [List.flatMap_singleton])
    have hinvoices := (enterOccurrence_cases options.mergeInvoices date l.note
      (fun _ ht => amount_nonneg_of_mem_sharedOut rfl ht :
        ∀ t ∈ sharedOut senders recipient chain l.amount.toDecimal, 0 ≤ t.amount.toRat) d).1
    rw [← hinvoices] at hall
    have hstep : d.addLine options reference number line =
        .ok (addOccurrence options.mergeInvoices l.note
          (sharedOut senders recipient chain l.amount.toDecimal) d date) :=
      addLine_eq_ok_iff.mpr ⟨_, (hl.spells_on hnote hw hrow).ofText?_eq, hcarry⟩
    -- The accounts stay as they are, so that the next line finds its own as well.
    have hsame := addOccurrences_accounts options.mergeInvoices l.note
      (sharedOut senders recipient chain l.amount.toDecimal) [date] d
    rw [addLines, hstep]
    exact ih hdates hsame hall (number + 1)

/-- A recurring invoice does what the lines do that spell it out. -/
theorem addLines_eq_of_addInvoice (hl : l.IsProper) (hnote : ¬ IsRecurrent l.note)
    {r : WrittenDate × WrittenDate} (hr : l.recurrence = some r) {start : Date}
    (hstart : l.start.Names start) (hintime : start ≤ reference) {d d' : Draft}
    (h : d.addInvoice options reference l = .ok d') :
    ∃ finish dates, r.1.Names finish ∧
      Recurrence.occurrences start (some finish) (some (r.2.toPeriod options.legacyYears))
        reference = .ok dates ∧
      ∀ lines number, l.SpelledOut dates lines →
        d.addLines options reference number lines = (d', none) := by
  obtain ⟨senders, recipient, chain, start', finish, hsenders, hrecipient, hchain, hstart', hfinish,
    hcase⟩ := addInvoice_eq_ok h
  obtain rfl := ok_unique hstart' (WrittenDate.toDate_eq_ok_iff.mpr hstart)
  rcases hcase with ⟨hlate, -⟩ | ⟨-, hshare, dates, hdates, hall, rfl⟩
  · exact absurd hlate (Date.not_lt.mpr hintime)
  · have hbefore : ∀ date ∈ dates, date ≤ reference := fun date =>
      Recurrence.le_of_mem_occurrences (l.isForward_of_isEmpty options.legacyYears) hdates hintime
    rw [hr] at hfinish hdates
    obtain ⟨last, hlast, hsome⟩ := bind_eq_ok.mp hfinish
    cases hsome
    refine ⟨last, dates, WrittenDate.toDate_eq_ok_iff.mp hlast, hdates,
      fun lines number hlines => ?_⟩
    exact addLines_spelledOut hl hnote hsenders hrecipient hchain hshare hlines hbefore rfl hall
      number

end Draft

/-! ## Writing the lines -/

theorem AreDigits.feed_notMem {least most : Nat} {cs : List Char} (h : AreDigits least most cs) :
    '\n' ∉ cs := fun hmem => by simpa using h.all _ hmem

theorem WrittenDate.IsProper.feed_notMem {w : WrittenDate} (h : w.IsProper) :
    '\n' ∉ w.text.toList := by
  rw [w.toList_text]
  simp [h.day.feed_notMem, h.month.feed_notMem, h.year.feed_notMem]

/-- A line without line feeds can be spelled out on every list of dates. -/
theorem InvoiceLine.exists_spelledOut {l : InvoiceLine} {text : List Char}
    (hrow : IsRow l.words text) (hfeed : '\n' ∉ text) (dates : List Date) :
    ∃ lines, l.SpelledOut dates lines ∧ ∀ line ∈ lines, '\n' ∉ line := by
  induction dates with
  | nil => exact ⟨[], .nil, List.forall_mem_nil _⟩
  | cons date dates ih =>
    obtain ⟨lines, hlines, hfeeds⟩ := ih
    obtain ⟨w, hw, hnames⟩ := date.exists_names
    have hwords : ∀ word ∈ (l.on w).words, '\n' ∉ word.toList := by
      intro word hword
      -- But for its date the line has only words of the old one.
      have hold : word = w.text ∨ word ∈ l.words := by
        simp only [InvoiceLine.words, InvoiceLine.on, List.mem_append, List.mem_cons,
          Option.map_none, Option.getD_none, List.not_mem_nil, or_false] at hword ⊢
        tauto
      rcases hold with rfl | hold
      · exact hw.feed_notMem
      · exact fun hmem => hfeed (mem_of_isRow hrow hold hmem)
    exact ⟨_ :: lines, .cons ⟨w, hw, hnames, isRow_spaced _⟩ hlines,
      List.forall_mem_cons.mpr ⟨notMem_spaced (by decide) hwords, hfeeds⟩⟩

/-- So a line of a text can be, in its place. -/
theorem InvoiceLine.exists_isCut_spelledOut {l : InvoiceLine} {text header line : List Char}
    {before after : List (List Char)} (hcut : IsCut text (header :: (before ++ line :: after)))
    (hrow : IsRow l.words line) (dates : List Date) :
    ∃ lines text', l.SpelledOut dates lines ∧
      IsCut text' (header :: (before ++ (lines ++ after))) := by
  have hfeeds := hcut.feed_notMem
  simp only [List.forall_mem_cons, List.forall_mem_append] at hfeeds
  obtain ⟨hheader, hbefore, hline, hafter⟩ := hfeeds
  obtain ⟨lines, hlines, hnew⟩ := exists_spelledOut hrow hline dates
  have hall : ∀ l ∈ header :: (before ++ (lines ++ after)), '\n' ∉ l := by
    simp only [List.forall_mem_cons, List.forall_mem_append]
    exact ⟨hheader, hbefore, hnew, hafter⟩
  exact ⟨lines, _, hlines, isCut_withBreaks hall⟩

/-! ## Whole texts -/

namespace Ledger

/-- A recurring invoice is short for one invoice line for each of its dates: a ledger in which
such lines stand in its place is the same ledger, whichever way dates and blanks are written in
them. The invoice begins by the reference date, and its note alone is no recurrence. -/
theorem ofString_spelledOut {options : Options} {text : String} {ledger : Ledger}
    {header line : List Char} {before after : List (List Char)} {l : InvoiceLine}
    {r : WrittenDate × WrittenDate} {start : Date} (h : ofString options text = .ok ledger)
    (hcut : IsCut text.toList (header :: (before ++ line :: after)))
    (hline : (Line.invoice l).Spells line) (hr : l.recurrence = some r)
    (hstart : l.start.Names start) (hintime : start ≤ ledger.referenceDate)
    (hnote : ¬ IsRecurrent l.note) :
    ∃ finish dates, r.1.Names finish ∧
      Recurrence.occurrences start (some finish) (some (r.2.toPeriod options.legacyYears))
        ledger.referenceDate = .ok dates ∧
      (∃ lines text', l.SpelledOut dates lines ∧
        IsCut text' (header :: (before ++ (lines ++ after)))) ∧
      ∀ lines (text' : String), l.SpelledOut dates lines →
        IsCut text'.toList (header :: (before ++ (lines ++ after))) →
        ofString options text' = .ok ledger := by
  rw [ofString_eq_ofLines_of_isCut options hcut] at h
  obtain ⟨reference, d, hheader, hbody, rfl⟩ := ofLines_eq_ok_iff.mp h
  obtain ⟨d₁, hbefore, hrest⟩ := Draft.addLines_append_eq_none_iff.mp hbody
  obtain ⟨d₂, hline₂, hafter⟩ := Draft.addLines_cons_eq_none_iff.mp hrest
  obtain ⟨line', hread, hcarry⟩ := Draft.addLine_eq_ok_iff.mp hline₂
  obtain rfl := Option.some.inj (hline.ofText?_eq.symm.trans hread)
  obtain ⟨finish, dates, hfinish, hdates, hsame⟩ :=
    Draft.addLines_eq_of_addInvoice hline.1 hnote hr hstart hintime hcarry
  refine ⟨finish, dates, hfinish, hdates, InvoiceLine.exists_isCut_spelledOut hcut hline.2 dates,
    fun lines text' hlines hcut' => ?_⟩
  rw [ofString_eq_ofLines_of_isCut options hcut']
  refine ofLines_eq_ok_iff.mpr ⟨reference, d, hheader, ?_, rfl⟩
  refine Draft.addLines_append_eq_none_iff.mpr ⟨d₁, hbefore, ?_⟩
  exact Draft.addLines_append_eq_none_iff.mpr ⟨d₂, hsame lines _ hlines,
    Draft.addLines_renumber hafter _⟩

/-- A house in which rent is due by the lines that are given. -/
def leaseText (rent : String) : String :=
  "accounting_date 10.3.2024\naccount AA Anna\naccount BB Bert\n" ++ rent

/-- Rent by the month. -/
def leaseLine : InvoiceLine where
  sender := "AA"
  sharers := []
  recipient := "BB"
  chain := []
  amount := ⟨['5', '0'], ['0', '0']⟩
  start := ⟨['3', '1'], ['1'], ['2', '0', '2', '4']⟩
  recurrence := some (⟨['1'], ['5'], ['2', '0', '2', '4']⟩, ⟨['0'], ['1'], ['0', '0', '0', '0']⟩)
  note := "Rent"

/-- The rent of two months, and a line for each of them: either text brings two invoices. -/
theorem ofString_spelledOut_lease :
    ∃ ledger : Ledger,
      ofString {} (leaseText "invoice AA -> BB 50.00 31.1.2024 - 1.5.2024 : 0.1.0000 Rent") =
        .ok ledger ∧
      ofString {} (leaseText ("invoice AA -> BB 50.00 31.1.2024 Rent\n" ++
        "invoice AA -> BB 50.00 29.02.2024 Rent")) = .ok ledger ∧
      ledger.invoices = [⟨0, 1, ⟨false, 5000, -2⟩, ⟨2024, 1, 31, by decide, by decide, by decide⟩,
          "Rent", .invoice⟩,
        ⟨0, 1, ⟨false, 5000, -2⟩, ⟨2024, 2, 29, by decide, by decide, by decide⟩,
          "Rent", .invoice⟩] := by
  have hread : (ofString {} (leaseText
      "invoice AA -> BB 50.00 31.1.2024 - 1.5.2024 : 0.1.0000 Rent")).toOption.map
        (fun l => (l.referenceDate, l.invoices)) =
      some (⟨2024, 3, 10, by decide, by decide, by decide⟩,
        [⟨0, 1, ⟨false, 5000, -2⟩, ⟨2024, 1, 31, by decide, by decide, by decide⟩, "Rent",
            .invoice⟩,
          ⟨0, 1, ⟨false, 5000, -2⟩, ⟨2024, 2, 29, by decide, by decide, by decide⟩, "Rent",
            .invoice⟩]) := by
    decide +kernel
  obtain ⟨ledger, hledger, hparts⟩ := Option.map_eq_some_iff.mp hread
  rw [toOption_eq_some] at hledger
  obtain ⟨hdate, hinvoices⟩ : ledger.referenceDate = _ ∧ ledger.invoices = _ := by
    simpa only [Prod.mk.injEq] using hparts
  have hcut : IsCut (leaseText
      "invoice AA -> BB 50.00 31.1.2024 - 1.5.2024 : 0.1.0000 Rent").toList
      ("accounting_date 10.3.2024".toList ::
        (["account AA Anna", "account BB Bert"].map String.toList ++
          "invoice AA -> BB 50.00 31.1.2024 - 1.5.2024 : 0.1.0000 Rent".toList :: [])) :=
    isCut_iff.mpr (by decide +kernel)
  have hcut' : IsCut (leaseText ("invoice AA -> BB 50.00 31.1.2024 Rent\n" ++
      "invoice AA -> BB 50.00 29.02.2024 Rent")).toList
      ("accounting_date 10.3.2024".toList ::
        (["account AA Anna", "account BB Bert"].map String.toList ++
          (["invoice AA -> BB 50.00 31.1.2024 Rent",
            "invoice AA -> BB 50.00 29.02.2024 Rent"].map String.toList ++ []))) :=
    isCut_iff.mpr (by decide +kernel)
  have hline : (Line.invoice leaseLine).Spells
      "invoice AA -> BB 50.00 31.1.2024 - 1.5.2024 : 0.1.0000 Rent".toList :=
    Line.ofText?_eq_some_iff.mp (by decide +kernel)
  have hfirst : (Line.invoice (leaseLine.on leaseLine.start)).Spells
      "invoice AA -> BB 50.00 31.1.2024 Rent".toList :=
    Line.ofText?_eq_some_iff.mp (by decide +kernel)
  have hsecond : (Line.invoice (leaseLine.on ⟨['2', '9'], ['0', '2'], ['2', '0', '2', '4']⟩)).Spells
      "invoice AA -> BB 50.00 29.02.2024 Rent".toList :=
    Line.ofText?_eq_some_iff.mp (by decide +kernel)
  have hstart : leaseLine.start.Names ⟨2024, 1, 31, by decide, by decide, by decide⟩ :=
    ⟨rfl, rfl, rfl⟩
  obtain ⟨finish, dates, hfinish, hdates, -, hsame⟩ :=
    ofString_spelledOut hledger hcut hline rfl hstart (by rw [hdate]; decide) (hfirst.1.once rfl)
  rw [hdate] at hdates
  obtain rfl : finish = ⟨2024, 5, 1, by decide, by decide, by decide⟩ :=
    ok_unique (WrittenDate.toDate_eq_ok_iff.mpr hfinish) (by decide +kernel)
  obtain rfl : dates = [⟨2024, 1, 31, by decide, by decide, by decide⟩,
      ⟨2024, 2, 29, by decide, by decide, by decide⟩] :=
    ok_unique hdates (by decide +kernel)
  exact ⟨ledger, hledger, hsame _ _ (.cons ⟨_, hfirst.1.start, hstart, hfirst.2⟩
    (.cons ⟨_, hsecond.1.start, ⟨rfl, rfl, rfl⟩, hsecond.2⟩ .nil)) hcut', hinvoices⟩

end Ledger

end HouseLedger
