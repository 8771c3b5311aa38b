import HouseLedger.Proofs.Decimal.Congruence
import HouseLedger.Proofs.Ledger.Admissible
import HouseLedger.Proofs.Ledger.Files
import HouseLedger.Proofs.Ledger.LongAmounts
import HouseLedger.Proofs.Ledger.ReferenceDate

/-!
# Which texts are ledgers

A text is a ledger if its first line is a header and every later line is acceptable where it
stands. Otherwise the first line that is not gives the fault (`Ledger.ofString_outcome`). It does
not do for a ledger that every line is as the format asks: an invoice may be too large to be shared
out (`Ledger.ofString_vast`).

Of what is asked of a line only that about invoices that begin by the reference date depends on
it. So a text that is a ledger may be none with a later reference date, for the invoices that begin
between the two dates and for no other reason (`Ledger.exists_ledger_iff_of_le`).
-/

namespace HouseLedger

open Outcome Text
open Decimal (InRange)

variable {options : Options} {reference : Date}

/-! ## Whole texts -/

namespace Ledger

/-- The line is a header that gives the reference date. -/
def IsHeader (options : Options) (header : List Char) (reference : Date) : Prop :=
  ∃ w : WrittenDate, w.IsProper ∧ IsRow [options.headerKeyword, w.text] header ∧
    w.Names reference

/-- The fault of a first line that is no header. -/
inductive HeaderFault (options : Options) (header : List Char) : Fault → Prop
  | missing : (∀ w : WrittenDate, w.IsProper → ¬ IsRow [options.headerKeyword, w.text] header) →
      HeaderFault options header
        (.onLine 1 (String.ofList header) (.headerMissing options.headerKeyword))
  | unreal {w : WrittenDate} {defect : DateDefect} : w.IsProper →
      IsRow [options.headerKeyword, w.text] header → w.Misses defect →
      HeaderFault options header
        (.onLine 1 (String.ofList header) (.dateUnreal w.text defect))

theorem readHeader_eq_ok_iff {header : List Char} :
    readHeader options header = .ok reference ↔ IsHeader options header reference := by
  unfold readHeader
  rw [mapError_eq_ok]
  constructor
  · intro h
    split at h
    · cases h
    · next w hw =>
      obtain ⟨hproper, hrow⟩ := Line.header?_eq_some_iff.mp hw
      exact ⟨w, hproper, hrow, WrittenDate.toDate_eq_ok_iff.mp h⟩
  · rintro ⟨w, hproper, hrow, hnames⟩
    rw [Line.header?_eq_some_iff.mpr ⟨hproper, hrow⟩]
    exact WrittenDate.toDate_eq_ok_iff.mpr hnames

theorem headerFault_of_readHeader {header : List Char} {fault : Fault}
    (h : readHeader options header = .error fault) : HeaderFault options header fault := by
  unfold readHeader at h
  obtain ⟨cause, hcause, rfl⟩ := mapError_eq_error.mp h
  split at hcause
  · next hnone =>
    cases hcause
    refine .missing fun w hproper hrow => ?_
    exact Option.some_ne_none w ((Line.header?_eq_some_iff.mpr ⟨hproper, hrow⟩).symm.trans hnone)
  · next w hw =>
    obtain ⟨hproper, hrow⟩ := Line.header?_eq_some_iff.mp hw
    obtain ⟨defect, hmisses, rfl⟩ := WrittenDate.exists_misses_of_toDate_eq_error hcause
    exact .unreal hproper hrow hmisses

/-- A first line has one date. -/
theorem eq_of_isRow {header : List Char} {w w' : WrittenDate} (hw : w.IsProper)
    (hrow : IsRow [options.headerKeyword, w.text] header) (hw' : w'.IsProper)
    (hrow' : IsRow [options.headerKeyword, w'.text] header) : w = w' :=
  Option.some.inj ((Line.header?_eq_some_iff.mpr ⟨hw, hrow⟩).symm.trans
    (Line.header?_eq_some_iff.mpr ⟨hw', hrow'⟩))

theorem IsHeader.unique {header : List Char} {reference reference' : Date}
    (h : IsHeader options header reference) (h' : IsHeader options header reference') :
    reference = reference' :=
  ok_unique (readHeader_eq_ok_iff.mpr h) (readHeader_eq_ok_iff.mpr h')

theorem IsHeader.exists_and_iff {header : List Char} (h : IsHeader options header reference)
    {P : Date → Prop} :
    (∃ reference, IsHeader options header reference ∧ P reference) ↔ P reference := by
  constructor
  · rintro ⟨reference', h', hP⟩
    rwa [h.unique h']
  · exact fun hP => ⟨reference, h, hP⟩

theorem HeaderFault.not_isHeader {header : List Char} {fault : Fault}
    (h : HeaderFault options header fault) : ¬ IsHeader options header reference := by
  rintro ⟨w, hproper, hrow, hnames⟩
  cases h with
  | missing hno => exact hno w hproper hrow
  | unreal hproper' hrow' hmisses =>
    obtain rfl := eq_of_isRow hproper hrow hproper' hrow'
    exact hmisses.not_isReal ⟨reference, hnames⟩

theorem HeaderFault.unique {header : List Char} {fault fault' : Fault}
    (h : HeaderFault options header fault) (h' : HeaderFault options header fault') :
    fault = fault' := by
  cases h with
  | missing hno =>
    cases h' with
    | missing _ => rfl
    | unreal hproper hrow _ => exact absurd hrow (hno _ hproper)
  | unreal hproper hrow hmisses =>
    cases h' with
    | missing hno => exact absurd hrow (hno _ hproper)
    | unreal hproper' hrow' hmisses' =>
      obtain rfl := eq_of_isRow hproper hrow hproper' hrow'
      rw [hmisses.unique hmisses']

/-- The fault of the header, or else of the first line that is not acceptable. -/
def TextFault (options : Options) (header : List Char) (body : List (List Char))
    (fault : Fault) : Prop :=
  HeaderFault options header fault ∨
    ∃ reference, IsHeader options header reference ∧ FirstFault options reference body fault

theorem TextFault.unique {header : List Char} {body : List (List Char)} {fault fault' : Fault}
    (h : TextFault options header body fault) (h' : TextFault options header body fault') :
    fault = fault' := by
  rcases h with h | ⟨reference, hheader, h⟩
  · rcases h' with h' | ⟨reference', hheader', -⟩
    · exact h.unique h'
    · exact absurd hheader' h.not_isHeader
  · rcases h' with h' | ⟨reference', hheader', h'⟩
    · exact absurd hheader h'.not_isHeader
    · obtain rfl := hheader.unique hheader'
      exact h.unique h'

theorem TextFault.not_allAcceptable {header : List Char} {body : List (List Char)}
    {fault : Fault} (h : TextFault options header body fault)
    (hheader : IsHeader options header reference) : ¬ AllAcceptable options reference body := by
  rcases h with h | ⟨reference', hheader', h⟩
  · exact absurd hheader h.not_isHeader
  · obtain rfl := hheader.unique hheader'
    exact h.not_allAcceptable

theorem ofLines_cases (options : Options) (header : List Char) (body : List (List Char)) :
    (∃ l reference, ofLines options header body = .ok l ∧ IsHeader options header reference ∧
      AllAcceptable options reference body) ∨
    ∃ fault, ofLines options header body = .error fault ∧
      TextFault options header body fault := by
  unfold ofLines
  cases hheader : readHeader options header with
  | error fault => exact .inr ⟨fault, rfl, .inl (headerFault_of_readHeader hheader)⟩
  | ok reference =>
    have hheader := readHeader_eq_ok_iff.mp hheader
    dsimp only
    rcases Draft.addLines_cases options reference body with
      ⟨d, hd, -, hbody⟩ | ⟨d, fault, hd, hfault⟩
    · rw [hd]
      exact .inl ⟨_, reference, rfl, hheader, hbody⟩
    · rw [hd]
      exact .inr ⟨fault, rfl, .inr ⟨reference, hheader, hfault⟩⟩

/-- An empty line at the end is without effect. -/
theorem ofLines_concat_nil (options : Options) (header : List Char) (body : List (List Char)) :
    ofLines options header (body ++ [[]]) = ofLines options header body := by
  unfold ofLines
  cases readHeader options header with
  | error fault => rfl
  | ok reference =>
    dsimp only
    rw [Draft.addLines_append]
    cases ({} : Draft).addLines options reference 2 body with
    | mk d fault =>
      cases fault with
      | none => rfl
      | some fault => rfl

theorem ofString_eq_ofLines_of_isCut (options : Options) {text : String} {header : List Char}
    {body : List (List Char)} (h : IsCut text.toList (header :: body)) :
    ofString options text = ofLines options header body := by
  rw [ofString_eq_ofLines, splitLines_eq h.pieces_eq]
  dsimp only
  by_cases hlast : body.getLast? = some []
  · obtain ⟨more, rfl⟩ := List.getLast?_eq_some_iff.mp hlast
    rw [if_pos hlast, List.dropLast_concat, ofLines_concat_nil]
  · rw [if_neg hlast]

theorem ofLines_eq_ok_iff {options : Options} {header : List Char} {body : List (List Char)}
    {l : Ledger} : ofLines options header body = .ok l ↔
      ∃ reference d, readHeader options header = .ok reference ∧
        ({} : Draft).addLines options reference 2 body = (d, none) ∧ l = d.finish reference := by
  unfold ofLines
  cases readHeader options header with
  | error fault => simp
  | ok reference =>
    rcases hlines : ({} : Draft).addLines options reference 2 body with ⟨d, _ | fault⟩
    · simp [hlines, eq_comm]
    · simp [hlines]

theorem exists_ledger_iff {text : String} {header : List Char} {body : List (List Char)}
    (h : IsCut text.toList (header :: body)) :
    (∃ l, ofString options text = .ok l) ↔
      ∃ reference, IsHeader options header reference ∧ AllAcceptable options reference body := by
  rw [ofString_eq_ofLines_of_isCut options h]
  rcases ofLines_cases options header body with
    ⟨l, reference, hl, hheader, hbody⟩ | ⟨fault, he, hfault⟩
  · rw [hl]
    exact ⟨fun _ => ⟨reference, hheader, hbody⟩, fun _ => ⟨l, rfl⟩⟩
  · rw [he]
    refine ⟨nofun, ?_⟩
    rintro ⟨reference, hheader, hbody⟩
    exact absurd hbody (hfault.not_allAcceptable hheader)

theorem ofString_eq_error_iff {text : String} {header : List Char} {body : List (List Char)}
    (h : IsCut text.toList (header :: body)) {fault : Fault} :
    ofString options text = .error fault ↔ TextFault options header body fault := by
  rw [ofString_eq_ofLines_of_isCut options h]
  rcases ofLines_cases options header body with
    ⟨l, reference, hl, hheader, hbody⟩ | ⟨fault', he, hfault⟩
  · rw [hl]
    exact ⟨nofun, fun hfault => absurd hbody (hfault.not_allAcceptable hheader)⟩
  · rw [he]
    constructor
    · intro heq
      cases heq
      exact hfault
    · intro hfault'
      rw [hfault.unique hfault']

/-- A text is a ledger exactly if its first line is a header and every later line is acceptable
where it stands. If it is none, the fault is that of the header, or else of the first line that
is not acceptable. -/
theorem ofString_outcome {options : Options} {text : String} {header : List Char}
    {body : List (List Char)} (h : IsCut text.toList (header :: body)) :
    ((∃ l, ofString options text = .ok l) ↔
      ∃ reference, IsHeader options header reference ∧ AllAcceptable options reference body) ∧
    ∀ fault, ofString options text = .error fault ↔
      HeaderFault options header fault ∨
        ∃ reference, IsHeader options header reference ∧
          FirstFault options reference body fault :=
  ⟨exists_ledger_iff h, fun _ => ofString_eq_error_iff h⟩

/-- A ledger with a payment to an account that is declared only later. -/
def loanText : String :=
  "accounting_date 1.2.2024\r\naccount AA Anna\n\npayment AA -> BB 5.00 1.1.2024 loan\r\n" ++
    "account BB Bert\n"

theorem ofString_outcome_loan :
    ∃ header body reference, IsCut loanText.toList (header :: body) ∧
      IsHeader {} header reference ∧ FirstFault {} reference body
        (.onLine 4 "payment AA -> BB 5.00 1.1.2024 loan" (.accountUnknown "BB")) := by
  have hcut : IsCut loanText.toList
      (["accounting_date 1.2.2024", "account AA Anna", "",
        "payment AA -> BB 5.00 1.1.2024 loan", "account BB Bert", ""].map String.toList) :=
    isCut_iff.mpr (by decide +kernel)
  have herror : ofString {} loanText =
      .error (.onLine 4 "payment AA -> BB 5.00 1.1.2024 loan" (.accountUnknown "BB")) := by
    decide +kernel
  rcases ((ofString_outcome hcut).2 _).mp herror with hheader | ⟨reference, hheader, hfault⟩
  · cases hheader
  · exact ⟨_, _, reference, hcut, hheader, hfault⟩

/-! ### Amounts that are too large -/

def februaryFirst : Date :=
  { Recurrence.endOfJanuary with month := 2, day := 1, isMonth := by decide, isDay := by decide }

def februaryHeader : List Char := "accounting_date 1.2.2024".toList

theorem isHeader_february : IsHeader {} februaryHeader februaryFirst :=
  readHeader_eq_ok_iff.mp (by decide +kernel)

/-- The lines that declare the accounts of two friends. -/
def friends : List (List Char) := ["account AA Anna".toList, "account BB Bert".toList]

theorem allAcceptable_friends : AllAcceptable {} februaryFirst friends := by
  have hledger : (ofLines {} februaryHeader friends).toOption.isSome := by decide +kernel
  rcases ofLines_cases {} februaryHeader friends with
    ⟨l, reference, -, hheader, hall⟩ | ⟨fault, he, -⟩
  · rwa [isHeader_february.unique hheader]
  · rw [he] at hledger
    cases hledger

/-- An amount that Anna owes Bert. -/
def loanLine (w : WrittenAmount) : InvoiceLine :=
  ⟨"AA", [], "BB", [], w, ⟨['1'], ['2'], "2024".toList⟩, none, "loan"⟩

/-- A loan of any amount, and a line behind it that is none. -/
def lentText (w : WrittenAmount) : String :=
  String.ofList
    (withBreaks (februaryHeader :: friends ++ [spaced (loanLine w).words, "oops".toList]))

theorem spells_loanLine {w : WrittenAmount} (hw : w.IsProper) :
    (Line.invoice (loanLine w)).Spells (spaced (loanLine w).words) ∧
      '\n' ∉ spaced (loanLine w).words := by
  have hline : (Line.invoice (loanLine ⟨['1'], ['0']⟩)).Spells
      "invoice AA -> BB 1.0 1.2.2024 loan".toList :=
    Line.ofText?_eq_some_iff.mp (by decide +kernel)
  exact ⟨InvoiceLine.spells_amount hline hw,
    InvoiceLine.feed_notMem_amount (l := loanLine ⟨['1'], ['0']⟩) hline (by decide) hw⟩

theorem isCut_lentText {w : WrittenAmount} (hw : w.IsProper) :
    IsCut (lentText w).toList
      (februaryHeader :: (friends ++ [spaced (loanLine w).words, "oops".toList])) := by
  rw [lentText, String.toList_ofList]
  refine isCut_withBreaks (List.forall_mem_cons.mpr ⟨by decide, List.forall_mem_append.mpr
    ⟨by decide, ?_⟩⟩)
  exact List.forall_mem_cons.mpr ⟨(spells_loanLine hw).2, by decide⟩

/-- The format has nothing against a loan of a million digits, so that the fault should be the line
behind it. But the loan is too large to be shared out, which breaks the reading off. -/
theorem ofString_vast :
    ∃ header before line garbage reference,
      IsCut (lentText (.vast 1000000 '1')).toList (header :: (before ++ [line, garbage])) ∧
      IsHeader {} header reference ∧ AllAcceptable {} reference before ∧
      (∃ l : Line, l.Spells line ∧ l.Regular {} reference before) ∧
      (∀ l : Line, ¬ l.Spells garbage) ∧
      ofString {} (lentText (.vast 1000000 '1')) = .error .overflow := by
  have hproper := WrittenAmount.isProper_vast 1000000 '1' rfl
  have hcut := isCut_lentText hproper
  have hlarge := WrittenAmount.not_inRange_vast 1000000 '1' (by decide) (by decide)
  have hshort := WrittenAmount.isShort_vast 1000000 '1' rfl
  generalize WrittenAmount.vast 1000000 '1' = w at hcut hlarge hshort hproper ⊢
  have hnames : WrittenDate.Names ⟨['1'], ['2'], "2024".toList⟩ februaryFirst :=
    WrittenDate.toDate_eq_ok_iff.mp (by decide)
  have hparties : ∀ a ∈ (loanLine w).parties, Declared friends a := by
    show ∀ a ∈ ["AA", "BB"], _
    simp only [declared_iff_mem]
    decide +kernel
  have hdates : ∀ date ∈ (Line.invoice (loanLine w)).dates, date.IsReal :=
    List.forall_mem_singleton.mpr ⟨_, hnames⟩
  have hover : (loanLine w).Overshares februaryFirst := by
    refine ⟨_, hnames, Nat.le_refl _, ?_⟩
    have hshare : ((loanLine w).amount.toDecimal.share 1).toRat = w.toDecimal.toRat :=
      (Decimal.toRat_share_one _).trans (Decimal.toRat_round_of_isShort hshort)
    exact hshare ▸ hlarge
  have hspells := (spells_loanLine hproper).1
  refine ⟨_, _, _, _, _, hcut, isHeader_february, allAcceptable_friends,
    ⟨_, hspells, nofun, hparties, hdates, ?_⟩, ?_, ?_⟩
  · rintro _ ⟨rfl⟩ ⟨_, _, -, -, hrecurrence, -⟩
    cases hrecurrence
  · intro l hl
    cases (Line.ofText?_eq_some_iff.mpr hl).symm.trans (by decide +kernel :
      Line.ofText? "oops".toList = none)
  · exact (ofString_eq_error_iff hcut).mpr (.inr ⟨_, isHeader_february, _, _, _, rfl,
      allAcceptable_friends, .failing hspells (.overshares hparties hdates hover)⟩)

end Ledger

/-! ## Two reference dates -/

/-- The invoice begins on a day between two reference dates, and a share of its amount is too
large. -/
def InvoiceLine.OversharesBetween (reference reference' : Date) (l : InvoiceLine) : Prop :=
  ∃ start, l.start.Names start ∧ reference < start ∧ start ≤ reference' ∧
    ¬ InRange (l.amount.toDecimal.share (l.sharers.length + 1)).toRat

/-- The invoice recurs by no step from a day on that lies between two reference dates. -/
def InvoiceLine.StallsBetween (options : Options) (reference reference' : Date)
    (l : InvoiceLine) : Prop :=
  ∃ start r, l.start.Names start ∧ reference < start ∧ start ≤ reference' ∧
    l.recurrence = some r ∧ ¬ r.2.LeadsOn options.legacyYears

/-- Of the invoices between two reference dates one that the line asks for comes to too much with
an alike one before it. -/
def InvoiceLine.OvermergesBetween (options : Options) (reference reference' : Date)
    (earlier : List (List Char)) (l : InvoiceLine) : Prop :=
  ∃ ts, l.billed options reference' (accountsBehind earlier) = .ok ts ∧
    ¬ Draft.Enterable options.mergeInvoices
      ((invoicesBehind options reference' earlier).filter (reference < ·.date))
      (ts.filter (reference < ·.date))

/-- What keeps an invoice from being carried out with the later of two reference dates, if it is
with the earlier one. -/
def InvoiceLine.FailsBetween (options : Options) (reference reference' : Date)
    (earlier : List (List Char)) (l : InvoiceLine) : Prop :=
  l.OversharesBetween reference reference' ∨ l.StallsBetween options reference reference' ∨
    l.OvermergesBetween options reference reference' earlier

variable {reference' : Date} {earlier : List (List Char)}

namespace InvoiceLine

theorem overshares_iff_of_le (hle : reference ≤ reference') (l : InvoiceLine) :
    l.Overshares reference' ↔
      l.Overshares reference ∨ l.OversharesBetween reference reference' := by
  constructor
  · rintro ⟨start, hstart, hintime, hshare⟩
    by_cases hlate : reference < start
    · exact .inr ⟨start, hstart, hlate, hintime, hshare⟩
    · exact .inl ⟨start, hstart, Date.not_lt.mp hlate, hshare⟩
  · rintro (⟨start, hstart, hintime, hshare⟩ | ⟨start, hstart, -, hintime, hshare⟩)
    · exact ⟨start, hstart, Nat.le_trans hintime hle, hshare⟩
    · exact ⟨start, hstart, hintime, hshare⟩

theorem stalls_iff_of_le (hle : reference ≤ reference') (l : InvoiceLine) :
    l.Stalls options reference' ↔
      l.Stalls options reference ∨ l.StallsBetween options reference reference' := by
  constructor
  · rintro ⟨start, r, hstart, hintime, hr, hstalls⟩
    by_cases hlate : reference < start
    · exact .inr ⟨start, r, hstart, hlate, hintime, hr, hstalls⟩
    · exact .inl ⟨start, r, hstart, Date.not_lt.mp hlate, hr, hstalls⟩
  · rintro (⟨start, r, hstart, hintime, hr, hstalls⟩ | ⟨start, r, hstart, -, hintime, hr, hstalls⟩)
    · exact ⟨start, r, hstart, Nat.le_trans hintime hle, hr, hstalls⟩
    · exact ⟨start, r, hstart, hintime, hr, hstalls⟩

/-- Only invoices of one day are merged: those up to the earlier reference date, and those between
the two. -/
theorem overmerges_iff_of_le (hle : reference ≤ reference') {l : InvoiceLine}
    (h : ∃ ts, l.billed options reference (accountsBehind earlier) = .ok ts)
    (h' : ∃ ts, l.billed options reference' (accountsBehind earlier) = .ok ts) :
    l.Overmerges options reference' earlier ↔ l.Overmerges options reference earlier ∨
      l.OvermergesBetween options reference reference' earlier := by
  obtain ⟨ts, hts⟩ := h
  obtain ⟨ts', hts'⟩ := h'
  have hcut : ts'.filter (·.date ≤ reference) = ts := by
    have hbilled : CutTo reference (l.billed options reference' (accountsBehind earlier))
      (l.billed options reference (accountsBehind earlier)) := l.cutTo_billed hle
    rwa [hts, hts'] at hbilled
  have hafter : (fun t : Transaction => !decide (t.date ≤ reference)) =
      fun t => decide (reference < t.date) := by
    funext t
    rw [← decide_not]
    exact decide_eq_decide.mpr Date.not_le
  simp only [Overmerges, OvermergesBetween, hts, hts', Except.ok.injEq, exists_eq_left']
  rw [Draft.enterable_filter_iff (date_le_of_isAlike reference),
    filter_invoicesBehind hle, hcut, hafter, not_and_or]

end InvoiceLine

/-- What an invoice needs with the later of two reference dates, it needs with the earlier one, but
for what is between the two. -/
theorem InvoiceLine.sound_iff_of_le (hle : reference ≤ reference') {l : InvoiceLine}
    (hparties : ∀ a ∈ l.parties, Declared earlier a)
    (hdates : ∀ w ∈ (Line.invoice l).dates, w.IsReal) :
    (¬ l.Overshares reference' ∧ ¬ l.Stalls options reference' ∧
        ¬ l.Overmerges options reference' earlier) ↔
      (¬ l.Overshares reference ∧ ¬ l.Stalls options reference ∧
        ¬ l.Overmerges options reference earlier) ∧
        ¬ l.FailsBetween options reference reference' earlier := by
  have hmerges (hshares : ¬ l.Overshares reference' ∧ ¬ l.Stalls options reference') :
      l.Overmerges options reference' earlier ↔ l.Overmerges options reference earlier ∨
        l.OvermergesBetween options reference reference' earlier := by
    obtain ⟨hshares, hmoves⟩ := hshares
    have hbilled' := exists_billed_iff.mpr ⟨hparties, hdates, hshares, hmoves⟩
    rw [l.overshares_iff_of_le hle, not_or] at hshares
    rw [l.stalls_iff_of_le hle, not_or] at hmoves
    exact overmerges_iff_of_le hle
      (exists_billed_iff.mpr ⟨hparties, hdates, hshares.1, hmoves.1⟩) hbilled'
  constructor
  · rintro ⟨hshares, hmoves, hover⟩
    rw [hmerges ⟨hshares, hmoves⟩, not_or] at hover
    rw [l.overshares_iff_of_le hle, not_or] at hshares
    rw [l.stalls_iff_of_le hle, not_or] at hmoves
    exact ⟨⟨hshares.1, hmoves.1, hover.1⟩,
      not_or.mpr ⟨hshares.2, not_or.mpr ⟨hmoves.2, hover.2⟩⟩⟩
  · rintro ⟨⟨hshares, hmoves, hover⟩, hbetween⟩
    obtain ⟨hshares', hbetween⟩ := not_or.mp hbetween
    obtain ⟨hmoves', hover'⟩ := not_or.mp hbetween
    have hshares := mt (l.overshares_iff_of_le hle).mp (not_or.mpr ⟨hshares, hshares'⟩)
    have hmoves := mt (l.stalls_iff_of_le hle).mp (not_or.mpr ⟨hmoves, hmoves'⟩)
    exact ⟨hshares, hmoves,
      mt (hmerges ⟨hshares, hmoves⟩).mp (not_or.mpr ⟨hover, hover'⟩)⟩

/-- Of what a line needs only that about invoices between two reference dates depends on which of
them it is. -/
theorem Line.admissible_iff_of_le (hle : reference ≤ reference') {line : Line} :
    line.Admissible options reference' earlier ↔
      line.Admissible options reference earlier ∧
        ∀ l, line = invoice l → ¬ l.FailsBetween options reference reference' earlier := by
  cases line with
  | invoice l =>
    have hbetween : (∀ l', invoice l = invoice l' →
        ¬ l'.FailsBetween options reference reference' earlier) ↔
        ¬ l.FailsBetween options reference reference' earlier := by
      simp
    rw [hbetween, admissible_invoice_iff, admissible_invoice_iff]
    constructor
    · rintro ⟨hparties, hdates, hsound⟩
      obtain ⟨hsound, hnot⟩ := (InvoiceLine.sound_iff_of_le hle hparties hdates).mp hsound
      exact ⟨⟨hparties, hdates, hsound⟩, hnot⟩
    · rintro ⟨⟨hparties, hdates, hsound⟩, hnot⟩
      exact ⟨hparties, hdates,
        (InvoiceLine.sound_iff_of_le hle hparties hdates).mpr ⟨hsound, hnot⟩⟩
  | _ =>
    exact ⟨fun h => ⟨⟨⟨h.fresh, h.declared, h.real, nofun⟩, nofun, nofun⟩, nofun⟩,
      fun h => ⟨⟨h.1.fresh, h.1.declared, h.1.real, nofun⟩, nofun, nofun⟩⟩

theorem acceptable_iff_of_le (hle : reference ≤ reference') {text : List Char} :
    Acceptable options reference' earlier text ↔
      Acceptable options reference earlier text ∧ ∀ l, (Line.invoice l).Spells text →
        ¬ l.FailsBetween options reference reference' earlier := by
  constructor
  · rintro ⟨line, htext, hline⟩
    obtain ⟨hline, hbetween⟩ := (Line.admissible_iff_of_le hle).mp hline
    exact ⟨⟨line, htext, hline⟩, fun l hl => hbetween l (htext.unique hl)⟩
  · rintro ⟨⟨line, htext, hline⟩, hbetween⟩
    refine ⟨line, htext, (Line.admissible_iff_of_le hle).mpr ⟨hline, ?_⟩⟩
    rintro l rfl
    exact hbetween l htext

theorem allAcceptable_iff_of_le (hle : reference ≤ reference') {body : List (List Char)} :
    AllAcceptable options reference' body ↔
      AllAcceptable options reference body ∧
        ∀ before text after, body = before ++ text :: after → ∀ l, (Line.invoice l).Spells text →
          ¬ l.FailsBetween options reference reference' before := by
  constructor
  · intro h
    refine ⟨fun before text after hbody => ?_, fun before text after hbody => ?_⟩
    · exact ((acceptable_iff_of_le hle).mp (h before text after hbody)).1
    · exact ((acceptable_iff_of_le hle).mp (h before text after hbody)).2
  · rintro ⟨h, hbetween⟩ before text after hbody
    exact (acceptable_iff_of_le hle).mpr
      ⟨h before text after hbody, hbetween before text after hbody⟩

namespace Ledger

/-- Two texts that differ in their first line only. The one of the later reference date is a
ledger exactly if the other is, but for invoices that begin between the two dates: only if an
invoice begins by the reference date its amount is shared out, its period is looked at, and it is
merged. -/
theorem exists_ledger_iff_of_le {options : Options} {text text' : String}
    {header header' : List Char} {body : List (List Char)} {reference reference' : Date}
    (hcut : IsCut text.toList (header :: body)) (hcut' : IsCut text'.toList (header' :: body))
    (hheader : IsHeader options header reference) (hheader' : IsHeader options header' reference')
    (hle : reference ≤ reference') :
    (∃ l', ofString options text' = .ok l') ↔
      (∃ l, ofString options text = .ok l) ∧
        ∀ before line after, body = before ++ line :: after → ∀ l, (Line.invoice l).Spells line →
          ¬ l.FailsBetween options reference reference' before := by
  have hledger : (∃ l, ofString options text = .ok l) ↔ AllAcceptable options reference body := by
    rw [exists_ledger_iff hcut, hheader.exists_and_iff]
  have hledger' : (∃ l, ofString options text' = .ok l) ↔
      AllAcceptable options reference' body := by
    rw [exists_ledger_iff hcut', hheader'.exists_and_iff]
  rw [hledger, hledger', allAcceptable_iff_of_le hle]

/-- A ledger with an invoice that recurs by no step from February on. -/
def stuckText (reference : String) : String :=
  "accounting_date " ++ reference ++ "\naccount AA Anna\naccount BB Bert\n" ++
    "invoice AA -> BB 1.00 1.2.2024 - 1.3.2024 : 0.0.0000 Rent\n"

/-- It is a ledger until the invoice begins. -/
theorem exists_ledger_iff_of_le_stuck :
    ∃ header header' before line reference reference' l,
      IsCut (stuckText "31.1.2024").toList (header :: (before ++ [line, []])) ∧
      IsCut (stuckText "1.2.2024").toList (header' :: (before ++ [line, []])) ∧
      IsHeader {} header reference ∧ IsHeader {} header' reference' ∧ reference ≤ reference' ∧
      (Line.invoice l).Spells line ∧ l.StallsBetween {} reference reference' ∧
      (∃ l, ofString {} (stuckText "31.1.2024") = .ok l) ∧
      ¬ ∃ l, ofString {} (stuckText "1.2.2024") = .ok l := by
  have hcut : IsCut (stuckText "31.1.2024").toList ("accounting_date 31.1.2024".toList ::
      (["account AA Anna".toList, "account BB Bert".toList] ++
        ["invoice AA -> BB 1.00 1.2.2024 - 1.3.2024 : 0.0.0000 Rent".toList, []])) :=
    isCut_iff.mpr (by decide +kernel)
  have hcut' : IsCut (stuckText "1.2.2024").toList ("accounting_date 1.2.2024".toList ::
      (["account AA Anna".toList, "account BB Bert".toList] ++
        ["invoice AA -> BB 1.00 1.2.2024 - 1.3.2024 : 0.0.0000 Rent".toList, []])) :=
    isCut_iff.mpr (by decide +kernel)
  have hheader : IsHeader {} "accounting_date 31.1.2024".toList
      ⟨2024, 1, 31, by decide, by decide, by decide⟩ :=
    readHeader_eq_ok_iff.mp (by decide +kernel)
  have hheader' : IsHeader {} "accounting_date 1.2.2024".toList
      ⟨2024, 2, 1, by decide, by decide, by decide⟩ :=
    readHeader_eq_ok_iff.mp (by decide +kernel)
  have hline : (Line.invoice ⟨"AA", [], "BB", [], ⟨['1'], ['0', '0']⟩,
      ⟨['1'], ['2'], "2024".toList⟩,
      some (⟨['1'], ['3'], "2024".toList⟩, ⟨['0'], ['0'], "0000".toList⟩), "Rent"⟩).Spells
      "invoice AA -> BB 1.00 1.2.2024 - 1.3.2024 : 0.0.0000 Rent".toList :=
    Line.ofText?_eq_some_iff.mp (by decide +kernel)
  have hledger : (ofString {} (stuckText "31.1.2024")).toOption.isSome := by decide +kernel
  obtain ⟨l, hl⟩ := Option.isSome_iff_exists.mp hledger
  have hstalls : InvoiceLine.StallsBetween {} ⟨2024, 1, 31, by decide, by decide, by decide⟩
      ⟨2024, 2, 1, by decide, by decide, by decide⟩
      ⟨"AA", [], "BB", [], ⟨['1'], ['0', '0']⟩, ⟨['1'], ['2'], "2024".toList⟩,
        some (⟨['1'], ['3'], "2024".toList⟩, ⟨['0'], ['0'], "0000".toList⟩), "Rent"⟩ :=
    ⟨⟨2024, 2, 1, by decide, by decide, by decide⟩, _,
      WrittenDate.toDate_eq_ok_iff.mp (by decide), by decide, by decide, rfl,
      WrittenDate.isEmpty_toPeriod_iff.mp (by decide)⟩
  refine ⟨_, _, _, _, _, _, _, hcut, hcut', hheader, hheader', by decide, hline, hstalls,
    ⟨l, toOption_eq_some.mp hl⟩, fun hlater => ?_⟩
  exact ((exists_ledger_iff_of_le hcut hcut' hheader hheader' (by decide)).mp hlater).2
    _ _ _ rfl _ hline (.inr (.inl hstalls))

end Ledger

end HouseLedger
