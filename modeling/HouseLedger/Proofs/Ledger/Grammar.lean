import HouseLedger.Proofs.Ledger.Parties
import HouseLedger.Proofs.Related

/-!
# The grammar of lines

A line of a ledger is a row of words with one blank between any two of them, and its last
word, the name or the note, is any text but the empty one. `Line.Spells` says of a line and a
text that the text spells the line. Reading a text finds the line that it spells, and none if
it spells none (`Line.ofText?_eq_some_iff`), so that no text spells two lines
(`Line.Spells.unique`). `Line.header?_eq_some_iff` is the same for the first line of a ledger.
-/

namespace HouseLedger

open Text (isBlank)

/-! ## Lines -/

/-- The words of an invoice line. -/
def InvoiceLine.words (l : InvoiceLine) : List String :=
  "invoice" :: l.sender :: l.sharers.flatMap (fun a => [":", a]) ++
    (l.recipient :: l.chain).flatMap (fun a => ["->", a]) ++ [l.amount.text, l.start.text] ++
    (l.recurrence.map recurrenceWords).getD [] ++ [l.note]

/-- The acronyms of an invoice line in the order in which they stand there. -/
def InvoiceLine.parties (l : InvoiceLine) : List String :=
  l.sender :: l.sharers ++ l.recipient :: l.chain

/-- An invoice line whose words have the form that they should have. One that does not recur
has no recurrence at the front of its note either. -/
structure InvoiceLine.IsProper (l : InvoiceLine) : Prop where
  parties : ∀ a ∈ l.parties, IsAcronym a
  amount : l.amount.IsProper
  start : l.start.IsProper
  recurrence : ∀ r, l.recurrence = some r → r.1.IsProper ∧ r.2.IsProper
  once : l.recurrence = none → ¬ IsRecurrent l.note
  note_ne : l.note ≠ ""

/-- The words of a payment line. -/
def PaymentLine.words (l : PaymentLine) : List String :=
  ["payment", l.sender, "->", l.recipient, l.amount.text, l.date.text, l.note]

/-- A payment line whose words have the form that they should have. -/
structure PaymentLine.IsProper (l : PaymentLine) : Prop where
  sender : IsAcronym l.sender
  recipient : IsAcronym l.recipient
  amount : l.amount.IsProper
  date : l.date.IsProper
  note_ne : l.note ≠ ""

/-- The text spells the line. -/
def Line.Spells : Line → List Char → Prop
  | .blank, text => text = []
  | .comment, text => ∃ rest, text = '/' :: '/' :: rest
  | .account acronym name, text =>
    IsAcronym acronym ∧ name ≠ "" ∧ IsRow ["account", acronym, name] text
  | .invoice l, text => l.IsProper ∧ IsRow l.words text
  | .payment l, text => l.IsProper ∧ IsRow l.words text

theorem InvoiceLine.isProper_iff {l : InvoiceLine} : l.IsProper ↔
    IsAcronym l.sender ∧ (∀ a ∈ l.sharers, IsAcronym a) ∧
      (∀ a ∈ l.recipient :: l.chain, IsAcronym a) ∧ l.amount.IsProper ∧ l.start.IsProper ∧
      l.note ≠ "" ∧ (∀ r, l.recurrence = some r → r.1.IsProper ∧ r.2.IsProper) ∧
      (l.recurrence = none → ¬ IsRecurrent l.note) := by
  have hparties : (∀ a ∈ l.parties, IsAcronym a) ↔ IsAcronym l.sender ∧
      (∀ a ∈ l.sharers, IsAcronym a) ∧ ∀ a ∈ l.recipient :: l.chain, IsAcronym a := by
    rw [InvoiceLine.parties, List.cons_append, List.forall_mem_cons, List.forall_mem_append]
  constructor
  · intro h
    obtain ⟨hsender, hsharers, hrecipients⟩ := hparties.mp h.parties
    exact ⟨hsender, hsharers, hrecipients, h.amount, h.start, h.note_ne, h.recurrence, h.once⟩
  · rintro ⟨hsender, hsharers, hrecipients, hamount, hstart, hne, hrecurrence, honce⟩
    exact ⟨hparties.mpr ⟨hsender, hsharers, hrecipients⟩, hamount, hstart, hrecurrence, honce, hne⟩

namespace Line

/-! ## Whole lines -/

theorem account?_eq_some_iff {text : List Char} {line : Line} :
    account? text = some line ↔ ∃ a name, line = .account a name ∧ line.Spells text := by
  constructor
  · intro h
    obtain ⟨t₁, hword, h⟩ := Option.bind_eq_some_iff.mp h
    obtain ⟨t₂, hblank, h⟩ := Option.bind_eq_some_iff.mp h
    obtain ⟨⟨a, t₃⟩, hacronym, h⟩ := Option.bind_eq_some_iff.mp h
    obtain ⟨name, hname, h⟩ := Option.bind_eq_some_iff.mp h
    cases h
    obtain ⟨ha, hleads⟩ := exists_takeBlank?_takeAcronym?_iff.mp ⟨t₂, hblank, hacronym⟩
    obtain ⟨hne, hname⟩ := takeNote?_eq_some_iff.mp hname
    exact ⟨a, name, rfl, ha, hne, t₁, takeWord?_eq_some_iff.mp hword,
      leads_cons.mpr ⟨t₃, hleads, hname⟩⟩
  · rintro ⟨a, name, rfl, ha, hne, t₁, htext, hleads⟩
    obtain ⟨t₃, hleads, hname⟩ := leads_cons.mp hleads
    obtain ⟨t₂, hblank, hacronym⟩ := exists_takeBlank?_takeAcronym?_iff.mpr ⟨ha, hleads⟩
    unfold account?
    simp [takeWord?_eq_some_iff.mpr htext, hblank, hacronym,
      takeNote?_eq_some_iff.mpr ⟨hne, hname⟩]

theorem payment?_eq_some_iff {text : List Char} {line : Line} :
    payment? text = some line ↔ ∃ l, line = .payment l ∧ line.Spells text := by
  constructor
  · intro h
    obtain ⟨t₁, hword, h⟩ := Option.bind_eq_some_iff.mp h
    obtain ⟨t₂, hblank, h⟩ := Option.bind_eq_some_iff.mp h
    obtain ⟨⟨sender, t₃⟩, hacronym, h⟩ := Option.bind_eq_some_iff.mp h
    obtain ⟨t₄, harrow, h⟩ := Option.bind_eq_some_iff.mp h
    obtain ⟨t₅, hblank', h⟩ := Option.bind_eq_some_iff.mp h
    obtain ⟨⟨recipient, t₆⟩, hacronym', h⟩ := Option.bind_eq_some_iff.mp h
    obtain ⟨⟨amount, t₇⟩, hamount, h⟩ := Option.bind_eq_some_iff.mp h
    obtain ⟨⟨date, t₈⟩, hdate, h⟩ := Option.bind_eq_some_iff.mp h
    obtain ⟨note, hnote, h⟩ := Option.bind_eq_some_iff.mp h
    cases h
    obtain ⟨hsender, hsenderText⟩ :=
      exists_takeBlank?_takeAcronym?_iff.mp ⟨t₂, hblank, hacronym⟩
    obtain ⟨hrecipient, hrecipientText⟩ :=
      exists_takeBlank?_takeAcronym?_iff.mp ⟨t₅, hblank', hacronym'⟩
    obtain ⟨hamount, hamountText, -⟩ := takeAmount?_eq_some_iff.mp hamount
    obtain ⟨hdate, hdateText, -⟩ := takeDate?_eq_some_iff.mp hdate
    obtain ⟨hne, hnoteText⟩ := takeNote?_eq_some_iff.mp hnote
    refine ⟨_, rfl, ⟨hsender, hrecipient, hamount, hdate, hne⟩, t₁,
      takeWord?_eq_some_iff.mp hword, ?_⟩
    exact leads_cons.mpr ⟨t₃, hsenderText, leads_cons.mpr ⟨t₄, takeMark?_eq_some_iff.mp harrow,
      leads_cons.mpr ⟨t₆, hrecipientText, leads_cons.mpr ⟨t₇, hamountText,
        leads_cons.mpr ⟨t₈, hdateText, hnoteText⟩⟩⟩⟩⟩
  · rintro ⟨l, rfl, hl, t₁, htext, hleads⟩
    obtain ⟨t₃, hsenderText, hleads⟩ := leads_cons.mp hleads
    obtain ⟨t₄, harrow, hleads⟩ := leads_cons.mp hleads
    obtain ⟨t₆, hrecipientText, hleads⟩ := leads_cons.mp hleads
    obtain ⟨t₇, hamountText, hleads⟩ := leads_cons.mp hleads
    obtain ⟨t₈, hdateText, hnoteText⟩ := leads_cons.mp hleads
    obtain ⟨t₂, hblank, hacronym⟩ :=
      exists_takeBlank?_takeAcronym?_iff.mpr ⟨hl.sender, hsenderText⟩
    obtain ⟨t₅, hblank', hacronym'⟩ :=
      exists_takeBlank?_takeAcronym?_iff.mpr ⟨hl.recipient, hrecipientText⟩
    unfold payment?
    simp [takeWord?_eq_some_iff.mpr htext, hblank, hacronym, takeMark?_eq_some_iff.mpr harrow,
      hblank', hacronym',
      takeAmount?_eq_some_iff.mpr ⟨hl.amount, hamountText, noDigit_of_leads hdateText⟩,
      takeDate?_eq_some_iff.mpr ⟨hl.date, hdateText, noDigit_of_leads hnoteText⟩,
      takeNote?_eq_some_iff.mpr ⟨hl.note_ne, hnoteText⟩]

/-- The parts of an invoice line and where each of them ends. -/
theorem isRow_invoice_words_iff {l : InvoiceLine} {text : List Char} :
    IsRow l.words text ↔ ∃ v parties t₁ t₂ t₃, isBlank v = true ∧
      text = "invoice".toList ++ v :: (parties ++ t₁) ∧
      IsRow (partyWords l.sender l.sharers l.recipient l.chain) parties ∧
      Leads [l.amount.text] t₁ t₂ ∧ Leads [l.start.text] t₂ t₃ ∧
      Leads ((l.recurrence.map recurrenceWords).getD [] ++ [l.note]) t₃ [] := by
  have hwords : l.words = "invoice" :: (partyWords l.sender l.sharers l.recipient l.chain ++
      ([l.amount.text] ++ ([l.start.text] ++
        ((l.recurrence.map recurrenceWords).getD [] ++ [l.note])))) := by
    simp [InvoiceLine.words, partyWords]
  rw [hwords]
  constructor
  · rintro ⟨next, htext, h⟩
    obtain ⟨t₁, hparties, h⟩ := leads_append.mp h
    obtain ⟨t₂, hamount, h⟩ := leads_append.mp h
    obtain ⟨t₃, hstart, hterms⟩ := leads_append.mp h
    obtain ⟨v, parties, hv, rfl, hrow⟩ := leads_iff_exists_row.mp hparties
    exact ⟨v, parties, t₁, t₂, t₃, hv, htext, hrow, hamount, hstart, hterms⟩
  · rintro ⟨v, parties, t₁, t₂, t₃, hv, htext, hparties, hamount, hstart, h⟩
    exact ⟨_, htext, leads_append.mpr ⟨t₁,
      leads_iff_exists_row.mpr ⟨v, parties, hv, rfl, hparties⟩,
      leads_append.mpr ⟨t₂, hamount, leads_append.mpr ⟨t₃, hstart, h⟩⟩⟩⟩

/-- The amount ends the parties of an invoice. -/
theorem takeMember?_eq_none_of_amount {w : WrittenAmount} (hw : w.IsProper) {text rest : List Char}
    (h : Leads [w.text] text rest) : takeMember? "->" text = none := by
  obtain ⟨c, hc, hdigit⟩ := hw.exists_head?
  exact takeMember?_eq_none_of_leads h hc rfl (by rintro rfl; cases hdigit)

theorem invoice?_eq_some_iff {text : List Char} {line : Line} :
    invoice? text = some line ↔ ∃ l, line = .invoice l ∧ line.Spells text := by
  constructor
  · intro h
    obtain ⟨next, hword, h⟩ := Option.bind_eq_some_iff.mp h
    obtain ⟨t, hblank, h⟩ := Option.bind_eq_some_iff.mp h
    obtain ⟨⟨parties, t₁⟩, hparties, h⟩ := Option.bind_eq_some_iff.mp h
    obtain ⟨⟨amount, t₂⟩, hamount, h⟩ := Option.bind_eq_some_iff.mp h
    obtain ⟨⟨start, t₃⟩, hstart, h⟩ := Option.bind_eq_some_iff.mp h
    obtain ⟨⟨recurrence, note⟩, hterms, h⟩ := Option.bind_eq_some_iff.mp h
    obtain ⟨_, hsplit, h⟩ := Option.bind_eq_some_iff.mp h
    obtain ⟨sender, sharers, recipient, chain, hsender, hsharers, hrecipients, hrow, rfl, -⟩ :=
      takeParties?_eq_some_iff.mp hparties
    cases (splitParties?_eq hsender hsharers hrecipients hrow).symm.trans hsplit
    cases h
    obtain ⟨v, hv, rfl⟩ := takeBlank?_eq_some_iff.mp hblank
    obtain ⟨hamount, hamountText, -⟩ := takeAmount?_eq_some_iff.mp hamount
    obtain ⟨hstart, hstartText, -⟩ := takeDate?_eq_some_iff.mp hstart
    obtain ⟨hne, hrecurrence, honce, hterms⟩ := takeTerms?_eq_some_iff.mp hterms
    exact ⟨_, rfl, InvoiceLine.isProper_iff.mpr ⟨hsender, hsharers, hrecipients, hamount, hstart,
      hne, hrecurrence, honce⟩, isRow_invoice_words_iff.mpr ⟨v, parties, t₁, t₂, t₃, hv,
        takeWord?_eq_some_iff.mp hword, hrow, hamountText, hstartText, hterms⟩⟩
  · rintro ⟨l, rfl, hl, hrow⟩
    obtain ⟨hsender, hsharers, hrecipients, hamount, hstart, hne, hrecurrence, honce⟩ :=
      InvoiceLine.isProper_iff.mp hl
    obtain ⟨v, parties, t₁, t₂, t₃, hv, htext, hpartiesText, hamountText, hstartText,
      htermsText⟩ := isRow_invoice_words_iff.mp hrow
    have hnote : NoDigit t₃ := by
      cases hr : l.recurrence with
      | none =>
        rw [hr] at htermsText
        exact noDigit_of_leads htermsText
      | some r =>
        rw [hr] at htermsText
        exact noDigit_of_leads htermsText
    have hblank : takeBlank? (v :: (parties ++ t₁)) = some (parties ++ t₁) :=
      takeBlank?_eq_some_iff.mpr ⟨v, hv, rfl⟩
    have hparties := takeParties?_eq_some_iff.mpr ⟨_, _, _, _, hsender, hsharers, hrecipients,
      hpartiesText, rfl, takeMember?_eq_none_of_amount hamount hamountText⟩
    unfold invoice?
    simp only [Option.bind_eq_bind, takeWord?_eq_some_iff.mpr htext, Option.bind_some,
      hblank, hparties,
      takeAmount?_eq_some_iff.mpr ⟨hamount, hamountText, noDigit_of_leads hstartText⟩,
      takeDate?_eq_some_iff.mpr ⟨hstart, hstartText, hnote⟩,
      takeTerms?_eq_some_iff.mpr ⟨hne, hrecurrence, honce, htermsText⟩,
      splitParties?_eq hsender hsharers hrecipients hpartiesText]
    rfl

theorem blank?_eq_some_iff {text : List Char} {line : Line} :
    blank? text = some line ↔ line = .blank ∧ line.Spells text := by
  unfold blank?
  split
  · next hnil =>
    constructor
    · rintro ⟨⟩
      exact ⟨rfl, hnil⟩
    · rintro ⟨rfl, -⟩
      rfl
  · next hne =>
    constructor
    · intro h
      cases h
    · rintro ⟨rfl, hnil⟩
      exact absurd hnil hne

theorem comment?_eq_some_iff {text : List Char} {line : Line} :
    comment? text = some line ↔ line = .comment ∧ line.Spells text := by
  unfold comment?
  rw [Option.map_eq_some_iff]
  constructor
  · rintro ⟨rest, hrest, rfl⟩
    exact ⟨rfl, rest, takeWord?_eq_some_iff.mp hrest⟩
  · rintro ⟨rfl, rest, hrest⟩
    exact ⟨rest, takeWord?_eq_some_iff.mpr hrest, rfl⟩

/-! ## Rules -/

/-- The character that the lines of a form begin with. -/
def initial : Line → Option Char
  | blank => none
  | comment => some '/'
  | account .. => some 'a'
  | invoice _ => some 'i'
  | payment _ => some 'p'

theorem Spells.head? {line : Line} {text : List Char} (h : line.Spells text) :
    text.head? = line.initial := by
  cases line with
  | blank =>
    rw [show text = [] from h]
    rfl
  | comment =>
    obtain ⟨rest, rfl⟩ := h
    rfl
  | account acronym name =>
    obtain ⟨-, -, next, rfl, -⟩ := h
    rfl
  | invoice l =>
    obtain ⟨-, next, rfl, -⟩ := h
    rfl
  | payment l =>
    obtain ⟨-, next, rfl, -⟩ := h
    rfl

/-- A rule reads the lines that begin with one character, or with none. -/
def ReadsFrom (initial : Option Char) (rule : List Char → Option Line) : Prop :=
  ∀ text line, rule text = some line → line.initial = initial ∧ line.Spells text

theorem readsFrom_rules :
    List.Forall₂ ReadsFrom [none, some '/', some 'a', some 'i', some 'p'] rules := by
  refine .cons ?_ (.cons ?_ (.cons ?_ (.cons ?_ (.cons ?_ .nil))))
  · intro text line h
    obtain ⟨rfl, hspells⟩ := blank?_eq_some_iff.mp h
    exact ⟨rfl, hspells⟩
  · intro text line h
    obtain ⟨rfl, hspells⟩ := comment?_eq_some_iff.mp h
    exact ⟨rfl, hspells⟩
  · intro text line h
    obtain ⟨a, name, rfl, hspells⟩ := account?_eq_some_iff.mp h
    exact ⟨rfl, hspells⟩
  · intro text line h
    obtain ⟨l, rfl, hspells⟩ := invoice?_eq_some_iff.mp h
    exact ⟨rfl, hspells⟩
  · intro text line h
    obtain ⟨l, rfl, hspells⟩ := payment?_eq_some_iff.mp h
    exact ⟨rfl, hspells⟩

/-- No text is read by two rules. -/
theorem rules_exclusive :
    rules.Pairwise fun rule rule' => ∀ text, rule text = none ∨ rule' text = none := by
  refine pairwise_of_forall₂ (fun c rule c' rule' h h' hne text => ?_) readsFrom_rules (by decide)
  rw [or_iff_not_imp_left]
  intro hsome
  obtain ⟨line, hline⟩ := Option.ne_none_iff_exists'.mp hsome
  rw [Option.eq_none_iff_forall_ne_some]
  intro line' hline'
  obtain ⟨rfl, hspells⟩ := h text line hline
  obtain ⟨rfl, hspells'⟩ := h' text line' hline'
  exact hne (hspells.head?.symm.trans hspells'.head?)

/-- The line that a text spells is read by the rule of its form. -/
theorem Spells.exists_rule {text : List Char} {line : Line} (h : line.Spells text) :
    ∃ rule ∈ rules, rule text = some line := by
  cases line with
  | blank => exact ⟨blank?, by simp [rules], blank?_eq_some_iff.mpr ⟨rfl, h⟩⟩
  | comment => exact ⟨comment?, by simp [rules], comment?_eq_some_iff.mpr ⟨rfl, h⟩⟩
  | account acronym name =>
    exact ⟨account?, by simp [rules], account?_eq_some_iff.mpr ⟨acronym, name, rfl, h⟩⟩
  | invoice l => exact ⟨invoice?, by simp [rules], invoice?_eq_some_iff.mpr ⟨l, rfl, h⟩⟩
  | payment l => exact ⟨payment?, by simp [rules], payment?_eq_some_iff.mpr ⟨l, rfl, h⟩⟩

/-- Of rules that exclude each other, the order in which they are tried does not count. -/
theorem findSome?_of_exclusive {fs : List (List Char → Option Line)}
    (hfs : fs.Pairwise fun f g => ∀ text, f text = none ∨ g text = none)
    {f : List Char → Option Line} (hf : f ∈ fs) {text : List Char} {line : Line}
    (h : f text = some line) : fs.findSome? (fun f => f text) = some line := by
  induction fs with
  | nil => exact absurd hf List.not_mem_nil
  | cons g fs ih =>
    obtain ⟨hg, hfs⟩ := List.pairwise_cons.mp hfs
    rw [List.findSome?_cons]
    rcases List.mem_cons.mp hf with rfl | hf
    · rw [h]
    · have hnone : g text = none := (hg f hf text).resolve_right fun hnone =>
        Option.some_ne_none line (h.symm.trans hnone)
      rw [hnone]
      exact ih hfs hf

theorem spells_of_ofText? {text : List Char} {line : Line} (h : ofText? text = some line) :
    line.Spells text := by
  obtain ⟨rule, hrule, hline⟩ := List.exists_of_findSome?_eq_some h
  obtain ⟨before, after, hsplit⟩ := List.append_of_mem hrule
  have hreads := readsFrom_rules
  rw [hsplit] at hreads
  obtain ⟨-, c, -, -, -, hc⟩ := exists_append_of_forall₂ hreads
  exact (hc text line hline).2

theorem Spells.ofText?_eq {text : List Char} {line : Line} (h : line.Spells text) :
    ofText? text = some line := by
  obtain ⟨rule, hrule, hline⟩ := h.exists_rule
  exact findSome?_of_exclusive rules_exclusive hrule hline

/-- Reading a text finds the line that it spells. -/
theorem ofText?_eq_some_iff {text : List Char} {line : Line} :
    ofText? text = some line ↔ line.Spells text :=
  ⟨spells_of_ofText?, Spells.ofText?_eq⟩

/-- A text that begins as an invoice does is read by the rule for invoices. -/
theorem ofText?_eq_invoice? {text : List Char} (h : text.head? = some 'i') :
    ofText? text = invoice? text := by
  ext line
  rw [ofText?_eq_some_iff, invoice?_eq_some_iff]
  constructor
  · intro hspells
    have hinitial := hspells.head?.symm.trans h
    cases line with
    | invoice l => exact ⟨l, rfl, hspells⟩
    | _ => simp [initial] at hinitial
  · rintro ⟨l, rfl, hspells⟩
    exact hspells

theorem ofText?_eq_payment? {text : List Char} (h : text.head? = some 'p') :
    ofText? text = payment? text := by
  ext line
  rw [ofText?_eq_some_iff, payment?_eq_some_iff]
  constructor
  · intro hspells
    have hinitial := hspells.head?.symm.trans h
    cases line with
    | payment l => exact ⟨l, rfl, hspells⟩
    | _ => simp [initial] at hinitial
  · rintro ⟨l, rfl, hspells⟩
    exact hspells

/-- No text spells two lines. -/
theorem Spells.unique {text : List Char} {line line' : Line} (h : line.Spells text)
    (h' : line'.Spells text) : line = line' :=
  Option.some.inj ((ofText?_eq_some_iff.mpr h).symm.trans (ofText?_eq_some_iff.mpr h'))

/-- The first line of a ledger is its keyword and a date. -/
theorem header?_eq_some_iff {keyword : String} {text : List Char} {w : WrittenDate} :
    header? keyword text = some w ↔ w.IsProper ∧ IsRow [keyword, w.text] text := by
  constructor
  · intro h
    obtain ⟨t₁, hword, h⟩ := Option.bind_eq_some_iff.mp h
    obtain ⟨⟨date, t₂⟩, hdate, h⟩ := Option.bind_eq_some_iff.mp h
    obtain ⟨hproper, hleads, -⟩ := takeDate?_eq_some_iff.mp hdate
    cases t₂ with
    | nil =>
      cases h
      exact ⟨hproper, t₁, takeWord?_eq_some_iff.mp hword, hleads⟩
    | cons c t₂ => cases h
  · rintro ⟨hproper, t₁, htext, hleads⟩
    unfold header?
    simp [takeWord?_eq_some_iff.mpr htext,
      takeDate?_eq_some_iff.mpr ⟨hproper, hleads, fun c hc => nomatch hc⟩]

end Line

end HouseLedger
