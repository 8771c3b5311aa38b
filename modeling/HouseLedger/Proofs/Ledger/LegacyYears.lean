import HouseLedger.Proofs.Ledger.Layout
import HouseLedger.Proofs.Ledger.RecurringInvoices

/-!
# Years of older ledgers

In ledgers of the older kind a period takes its years from the field of its days. Such a ledger
can be written anew: with the number of the days in the field of the years, a period says the
same by itself (`WrittenDate.toPeriod_withLegacyYears`). `Ledger.ofString_rewriteYears` is
that a text read in the older way gives what its rewriting gives: the same ledger, or a fault
for the same reason on the line of the same number.
-/

namespace HouseLedger

open Outcome Text

/-! ## Periods -/

namespace WrittenDate

/-- The same days and months, with the number of the days, filled up to four digits, for that of
the years. -/
def withLegacyYears (w : WrittenDate) : WrittenDate :=
  { w with year := '0' :: '0' :: (List.replicate (2 - w.day.length) '0' ++ w.day) }

variable {w : WrittenDate}

theorem IsProper.withLegacyYears (h : w.IsProper) : w.withLegacyYears.IsProper := by
  obtain ⟨hall, hleast, hmost⟩ := h.day.padded
  refine ⟨h.day, h.month, fun c hc => ?_, Nat.add_le_add_right hleast 2,
    Nat.add_le_add_right hmost 2⟩
  simp only [WrittenDate.withLegacyYears, List.mem_cons] at hc
  rcases hc with rfl | rfl | hc
  · rfl
  · rfl
  · exact hall c hc

theorem toPeriod_withLegacyYears (w : WrittenDate) :
    w.withLegacyYears.toPeriod false = w.toPeriod true := by
  have hyear : w.withLegacyYears.yearNumber = w.dayNumber := by
    simp [withLegacyYears, yearNumber, dayNumber, Nat.ofDigitChars_append,
      Nat.ofDigitChars_replicate_zero, Nat.ofDigitChars_cons]
  rw [toPeriod, hyear]
  rfl

end WrittenDate

/-! ## Lines -/

/-- The invoice with its period written so that it takes its years from the field of the years. -/
def InvoiceLine.withLegacyYears (l : InvoiceLine) : InvoiceLine :=
  { l with recurrence := l.recurrence.map fun r => (r.1, r.2.withLegacyYears) }

namespace Line

/-- A recurring invoice is changed, and any other line stays as it is. -/
def withLegacyYears : Line → Line
  | invoice l => invoice l.withLegacyYears
  | line => line

/-- Writes the period of a text that is a recurring invoice anew. The period stands before the
note and the blank in front of it. -/
def rewriteYears (text : List Char) : List Char :=
  match invoice? text with
  | some (invoice { recurrence := some (_, period), note, .. }) =>
    let upto := text.length - (note.length + 1)
    text.take (upto - period.text.length) ++ period.withLegacyYears.text.toList ++ text.drop upto
  | _ => text

end Line

/-- A word before the last one can be put in the place of another. -/
theorem IsRow.exists_replaced {word : String} {words : List String} {a b : String}
    {text : List Char} (h : IsRow (word :: words ++ [a, b]) text) :
    ∃ front v, text = front ++ (a.toList ++ v :: b.toList) ∧
      ∀ a' : String, IsRow (word :: words ++ [a', b]) (front ++ (a'.toList ++ v :: b.toList)) := by
  obtain ⟨next, rfl, hnext⟩ := h
  obtain ⟨mid, hwords, hlast⟩ := leads_append.mp hnext
  obtain ⟨row, rfl, hrow⟩ := exists_append_of_leads hwords
  obtain ⟨end', ha, hb⟩ := leads_cons.mp hlast
  obtain ⟨u, hu, rfl⟩ := leads_singleton.mp ha
  obtain ⟨v, hv, rfl⟩ := leads_singleton.mp hb
  refine ⟨word.toList ++ row ++ [u], v, by simp, fun a' => ?_⟩
  refine ⟨row ++ u :: (a'.toList ++ v :: b.toList), by simp, leads_append.mpr ⟨_,
    leads_append_rest hrow _, leads_cons.mpr ⟨v :: b.toList, ?_, ?_⟩⟩⟩
  · exact leads_singleton.mpr ⟨u, hu, rfl⟩
  · exact leads_singleton.mpr ⟨v, hv, by simp⟩

namespace Line

variable {l : InvoiceLine} {r : WrittenDate × WrittenDate} {text : List Char}

theorem rewriteYears_eq_self
    (h : ∀ l, invoice? text = some (.invoice l) → l.recurrence = none) :
    rewriteYears text = text := by
  unfold rewriteYears
  split
  · next hread => cases h _ hread
  · rfl

theorem rewriteYears_append {front : List Char} {v : Char}
    (hread : invoice? (front ++ (r.2.text.toList ++ v :: l.note.toList)) = some (.invoice l))
    (hr : l.recurrence = some r) :
    rewriteYears (front ++ (r.2.text.toList ++ v :: l.note.toList)) =
      front ++ (r.2.withLegacyYears.text.toList ++ v :: l.note.toList) := by
  obtain ⟨sender, sharers, recipient, chain, amount, start, recurrence, note⟩ := l
  subst hr
  have hupto : (front ++ (r.2.text.toList ++ v :: note.toList)).length - (note.length + 1) =
      (front ++ r.2.text.toList).length := by
    simp only [List.length_append, List.length_cons, String.length_toList]
    omega
  have htake : (front ++ r.2.text.toList).length - r.2.text.length = front.length := by
    rw [List.length_append, String.length_toList, Nat.add_sub_cancel]
  unfold rewriteYears
  rw [hread]
  dsimp only
  rw [hupto, htake, List.take_left, ← List.append_assoc front, List.drop_left, List.append_assoc]

/-- The text is that of a recurring invoice, with something before the period, and it is written
anew so that it spells the changed invoice. -/
def IsRewritten (text : List Char) : Prop :=
  ∃ (l : InvoiceLine) (r : WrittenDate × WrittenDate) (front : List Char) (v : Char),
    (invoice l).Spells text ∧ l.recurrence = some r ∧
    text = front ++ (r.2.text.toList ++ v :: l.note.toList) ∧
    rewriteYears text = front ++ (r.2.withLegacyYears.text.toList ++ v :: l.note.toList) ∧
    (invoice l.withLegacyYears).Spells (rewriteYears text)

theorem isRewritten_of_recurrence (h : (invoice l).Spells text) (hr : l.recurrence = some r) :
    IsRewritten text := by
  obtain ⟨hproper, hrow⟩ := h
  have hwords : l.words =
      "invoice" :: (l.openingWords ++ ["-", r.1.text, ":"]) ++ [r.2.text, l.note] := by
    simp [InvoiceLine.words, InvoiceLine.openingWords, recurrenceWords, hr]
  have hwords' : l.withLegacyYears.words =
      "invoice" :: (l.openingWords ++ ["-", r.1.text, ":"]) ++
        [r.2.withLegacyYears.text, l.note] := by
    simp [InvoiceLine.words, InvoiceLine.withLegacyYears, InvoiceLine.openingWords,
      recurrenceWords, hr]
  have hproper' : l.withLegacyYears.IsProper := by
    refine ⟨hproper.parties, hproper.amount, hproper.start, fun r' hr' => ?_, fun hnone => ?_,
      hproper.note_ne⟩
    · simp only [InvoiceLine.withLegacyYears, hr, Option.map_some, Option.some.injEq] at hr'
      subst hr'
      exact ⟨(hproper.recurrence r hr).1, (hproper.recurrence r hr).2.withLegacyYears⟩
    · simp [InvoiceLine.withLegacyYears, hr] at hnone
  rw [hwords] at hrow
  obtain ⟨front, v, rfl, hreplaced⟩ := hrow.exists_replaced
  have hspells : (invoice l).Spells (front ++ (r.2.text.toList ++ v :: l.note.toList)) :=
    ⟨hproper, hwords ▸ hrow⟩
  have hrewrite := rewriteYears_append (invoice?_eq_some_iff.mpr ⟨l, rfl, hspells⟩) hr
  refine ⟨l, r, front, v, hspells, hr, rfl, hrewrite, ?_⟩
  rw [hrewrite]
  exact ⟨hproper', hwords' ▸ hreplaced r.2.withLegacyYears.text⟩

/-- Every other text stays as it is, and so does the line that it spells. -/
theorem rewriteYears_cases (text : List Char) :
    rewriteYears text = text ∧ (ofText? text).map withLegacyYears = ofText? text ∨
      IsRewritten text := by
  by_cases h : ∀ l, invoice? text = some (.invoice l) → l.recurrence = none
  · refine .inl ⟨rewriteYears_eq_self h, ?_⟩
    cases hread : ofText? text with
    | none => rfl
    | some line =>
      cases line with
      | invoice l =>
        have hnone := h l (invoice?_eq_some_iff.mpr ⟨l, rfl, ofText?_eq_some_iff.mp hread⟩)
        obtain ⟨sender, sharers, recipient, chain, amount, start, recurrence, note⟩ := l
        subst hnone
        rfl
      | _ => rfl
  · simp only [not_forall] at h
    obtain ⟨l, hread, hne⟩ := h
    obtain ⟨l', heq, hspells⟩ := invoice?_eq_some_iff.mp hread
    cases heq
    obtain ⟨r, hr⟩ := Option.ne_none_iff_exists'.mp hne
    exact .inr (isRewritten_of_recurrence hspells hr)

/-- A line that is written anew is read as the changed line. -/
theorem ofText?_rewriteYears (text : List Char) :
    ofText? (rewriteYears text) = (ofText? text).map withLegacyYears := by
  rcases rewriteYears_cases text with ⟨hsame, hline⟩ | ⟨l, r, front, v, hspells, -, -, -, hspells'⟩
  · rw [hsame, hline]
  · rw [hspells.ofText?_eq, hspells'.ofText?_eq]
    rfl

theorem keepsEnd_rewriteYears : KeepsEnd rewriteYears := by
  intro text hlast
  rcases rewriteYears_cases text with ⟨hsame, -⟩ | ⟨l, r, front, v, -, -, htext, htext', -⟩
  · rwa [hsame] at hlast
  · rw [htext'] at hlast
    rw [htext]
    simpa [List.getLast?_append, List.getLast?_cons] using hlast

theorem feed_notMem_rewriteYears (h : '\n' ∉ text) : '\n' ∉ rewriteYears text := by
  rcases rewriteYears_cases text with ⟨hsame, -⟩ | ⟨l, r, front, v, hspells, hr, htext, htext', -⟩
  · rwa [hsame]
  · have hperiod := (hspells.1.recurrence r hr).2.withLegacyYears.feed_notMem
    rw [htext] at h
    rw [htext']
    simp_all

/-- Carrying out the changed line is carrying out the line in the older way. -/
theorem carryOut_withLegacyYears (options : Options) (reference : Date) (d : Draft) (line : Line) :
    d.carryOut { options with legacyYears := false } reference line.withLegacyYears =
      d.carryOut { options with legacyYears := true } reference line := by
  cases line with
  | invoice l =>
    obtain ⟨sender, sharers, recipient, chain, amount, start, recurrence, note⟩ := l
    cases recurrence with
    | none => rfl
    | some r =>
      have hperiod : r.2.withLegacyYears.toPeriod false = r.2.toPeriod true :=
        r.2.toPeriod_withLegacyYears
      simp only [withLegacyYears, InvoiceLine.withLegacyYears, Draft.carryOut, Draft.addInvoice,
        Option.map_some, hperiod]
      rfl
  | _ => rfl

end Line

/-! ## Whole texts -/

namespace Ledger

/-- The text with the periods of its recurring invoices written anew. The first line is none of
them. -/
def rewriteYears (text : String) : String :=
  String.ofList (mapBody (fun _ => Line.rewriteYears) text.toList)

/-- A text read in the older way gives what the text gives whose periods are written anew: the
same ledger, or a fault for the same reason on the line of the same number. -/
theorem ofString_rewriteYears (options : Options) (text : String) :
    ofString { options with legacyYears := false } (rewriteYears text) =
      (ofString { options with legacyYears := true } text).mapError
        (Fault.retold fun number line =>
          (number, if number = 1 then line else String.ofList (Line.rewriteYears line.toList))) := by
  have htext : pieces [] text.toList =
      (cutAtBreaks [] text.toList).1 :: (cutAtBreaks [] text.toList).2 := rfl
  have hfeed := (feed_notMem_of_pieces htext).2
  have hlines := pieces_mapBody (fun _ => Line.keepsEnd_rewriteYears) htext
    (fun _ line => [Line.rewriteYears line]) fun _ line hline =>
      pieces_of_feed_notMem (Line.feed_notMem_rewriteYears (hfeed line hline))
  rw [rewriteYears, ofString_ofList hlines, ofString_eq_ofLines_of_isCut _ (isCut_iff.mpr htext)]
  refine ofLines_flatMap ?_ ?_ id (fun _ line => [Line.rewriteYears line]) rfl ?_ ?_ _
  · rfl
  · exact fun _ => rfl
  · exact fun _ _ _ _ => rfl
  · intro reference d number hnumber line _
    refine Draft.addLines_of_addLine (Draft.addLine_retold (Line.ofText?_rewriteYears line)
      (Line.carryOut_withLegacyYears options reference) ?_ d)
    rw [if_neg (by omega), String.toList_ofList]
    rfl

/-- One day, one month and one year. -/
example : rewriteYears "\ninvoice AA -> BB 5.00 1.1.24 - 1.1.2027 : 1.1.2018 Rent\r\n" =
      "\ninvoice AA -> BB 5.00 1.1.24 - 1.1.2027 : 1.1.2018 Rent\r\n" ∧
    rewriteYears "\ninvoice AA -> BB 5.00 1.1.2024 - 1.1.2027 : 1.1.2018 Rent\r\n" =
      "\ninvoice AA -> BB 5.00 1.1.2024 - 1.1.2027 : 1.1.0001 Rent\r\n" := by
  decide +kernel

end Ledger

end HouseLedger
