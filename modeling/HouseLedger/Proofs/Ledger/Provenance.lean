import HouseLedger.Proofs.Ledger.Acceptance
import HouseLedger.Proofs.Ledger.WellFormed

/-!
# Where the parts of a ledger come from

A line that is carried out either declares one more account or records transactions that it asks
for, between accounts it refers to (`Draft.carryOut_effect`). All else follows from this step:

1. every account of a ledger is declared by a line, and every note stands on one
   (`Draft.Traced`), so that neither a name nor a note is empty or holds a line feed;
2. an account keeps its index once it is declared (`Draft.accounts_kept_of_addLines`);
3. once a line is read, all transactions are between accounts that the lines before it declare,
   and each transaction of the ledger is brought by a line that asks for it
   (`Ledger.ofString_traced`).
-/

namespace HouseLedger

open Outcome Text

variable {options : Options} {reference : Date}

/-! ## Lines -/

/-- Some text on a line. -/
def IsWritten (word : String) : Prop := word ≠ "" ∧ '\n' ∉ word.toList

theorem IsWritten.of_isRow {words : List String} {text : List Char} (hrow : IsRow words text)
    (hfeed : '\n' ∉ text) {word : String} (hword : word ∈ words) (hne : word ≠ "") :
    IsWritten word :=
  ⟨hne, fun hmem => hfeed (mem_of_isRow hrow hword hmem)⟩

namespace Line

/-- The role of the transactions that a line asks for. -/
def role : Line → Option Role
  | invoice _ => some .invoice
  | payment _ => some .payment
  | _ => none

/-- What a line says that its transactions are for. -/
def note : Line → Option String
  | invoice l => some l.note
  | payment l => some l.note
  | _ => none

/-- The line refers to the account with the index. -/
def RefersTo (accounts : Registry) (line : Line) (i : ℤ) : Prop :=
  ∃ acronym ∈ line.parties, ∃ k : ℕ, accounts.resolve acronym = .ok k ∧ i = k

/-- The line asks for the transaction: it has the role and the note of the line, and is between
accounts that the line refers to. -/
structure Records (accounts : Registry) (line : Line) (t : Transaction) : Prop where
  role_eq : line.role = some t.role
  note_eq : line.note = some t.note
  sender : line.RefersTo accounts t.sender
  recipient : line.RefersTo accounts t.recipient

theorem Spells.isWritten_note {line : Line} {text : List Char} (h : line.Spells text)
    (hfeed : '\n' ∉ text) {note : String} (hnote : line.note = some note) : IsWritten note := by
  cases line with
  | invoice l =>
    cases hnote
    exact .of_isRow h.2 hfeed (by simp [InvoiceLine.words]) h.1.note_ne
  | payment l =>
    cases hnote
    exact .of_isRow h.2 hfeed (by simp [PaymentLine.words]) h.1.note_ne
  | _ => cases hnote

/-- What a line refers to is one of the accounts. -/
theorem RefersTo.exists_lt {accounts : Registry} {line : Line} {i : ℤ}
    (h : line.RefersTo accounts i) : ∃ k : ℕ, i = k ∧ k < accounts.size := by
  obtain ⟨_, -, k, hk, rfl⟩ := h
  exact ⟨k, rfl, Draft.lt_size_of_resolve hk⟩

end Line

/-! ## One line -/

namespace Draft

variable {d d' : Draft} {merging : Bool} {note : String} {date : Date}

/-- All that was recorded. -/
def transactions (d : Draft) : List Transaction := d.invoices ++ d.payments

/-- What the second draft has recorded and the first has not is of the kind. -/
def Adds (P : Transaction → Prop) (d d' : Draft) : Prop :=
  ∀ t ∈ d'.transactions, t ∈ d.transactions ∨ P t

variable {P Q : Transaction → Prop}

theorem Adds.refl (P : Transaction → Prop) (d : Draft) : Adds P d d := fun _ ht => .inl ht

theorem Adds.mono (h : Adds P d d') (hPQ : ∀ t, P t → Q t) : Adds Q d d' :=
  fun t ht => (h t ht).imp_right (hPQ t)

theorem Adds.foldl {α : Type} {f : Draft → α → Draft} {xs : List α}
    (h : ∀ d, ∀ x ∈ xs, Adds P d (f d x)) (d : Draft) : Adds P d (xs.foldl f d) := by
  induction xs generalizing d with
  | nil => exact .refl P d
  | cons x xs ih =>
    intro t ht
    rcases ih (fun d y hy => h d y (List.mem_cons_of_mem x hy)) (f d x) t ht with ht | ht
    · exact h d x List.mem_cons_self t ht
    · exact .inr ht

/-- The transaction is an invoice with the note, between the accounts of the transfer. -/
def IsBilled (note : String) (t : Transfer) (x : Transaction) : Prop :=
  x.role = .invoice ∧ x.note = note ∧ x.pair = s((t.sender : ℤ), (t.recipient : ℤ))

theorem adds_addTransfer (d : Draft) (t : Transfer) :
    Adds (IsBilled note t) d (addTransfer merging date note d t) := by
  unfold addTransfer
  split
  · exact .refl _ d
  · obtain ⟨events, heq⟩ := recordInvoice_eq merging d
      ⟨t.sender, t.recipient, t.amount, date, note, .invoice⟩
    rw [heq]
    intro x hx
    rcases List.mem_append.mp hx with hx | hx
    · rcases mem_recorded hx with hx | rfl | ⟨old, -, rfl⟩
      · exact .inl (List.mem_append_left _ hx)
      · exact .inr ⟨rfl, rfl, rfl⟩
      · exact .inr ⟨role_mergeInvoices .., note_mergeInvoices .., pair_mergeInvoices ..⟩
    · exact .inl (List.mem_append_right _ hx)

/-- Recording a bill adds invoices for its transfers, and no other transaction. -/
theorem adds_addOccurrences (ts : List Transfer) (dates : List Date) (d : Draft) :
    Adds (fun x => ∃ t ∈ ts, IsBilled note t x) d
      (dates.foldl (addOccurrence merging note ts) d) :=
  Adds.foldl (fun d _ _ =>
    Adds.foldl (fun d t ht => (adds_addTransfer d t).mono fun _ hx => ⟨t, ht, hx⟩) d) d

theorem refersTo_of_mem {l : InvoiceLine} {senders chain : List ℕ} {recipient : ℕ}
    (hsenders : (l.sender :: l.sharers).mapM d.accounts.resolve = .ok senders)
    (hrecipient : d.accounts.resolve l.recipient = .ok recipient)
    (hchain : l.chain.mapM d.accounts.resolve = .ok chain) {i : ℕ}
    (hi : i ∈ senders ++ recipient :: chain) : (Line.invoice l).RefersTo d.accounts i := by
  have hfind : ∃ acronym ∈ l.parties, d.accounts.resolve acronym = .ok i := by
    rw [InvoiceLine.parties]
    rcases List.mem_append.mp hi with hi | hi
    · obtain ⟨a, ha, hresolve⟩ := mapM_eq_ok hsenders i hi
      exact ⟨a, List.mem_append_left _ ha, hresolve⟩
    · rcases List.mem_cons.mp hi with rfl | hi
      · exact ⟨l.recipient, List.mem_append_right _ List.mem_cons_self, hrecipient⟩
      · obtain ⟨a, ha, hresolve⟩ := mapM_eq_ok hchain i hi
        exact ⟨a, List.mem_append_right _ (List.mem_cons_of_mem _ ha), hresolve⟩
  obtain ⟨acronym, hacronym, hresolve⟩ := hfind
  exact ⟨acronym, hacronym, i, hresolve, rfl⟩

/-- What a line does that is carried out: it declares an account, or it leaves the accounts as
they are and adds no transaction but those it asks for. -/
theorem carryOut_effect {line : Line} (hd' : d.carryOut options reference line = .ok d') :
    (∃ acronym name, line = .account acronym name ∧
      d'.accounts.accounts = d.accounts.accounts ++ [⟨acronym, name⟩] ∧
        d'.transactions = d.transactions) ∨
    d'.accounts = d.accounts ∧ Adds (line.Records d.accounts) d d' := by
  cases line with
  | blank =>
    cases hd'
    exact .inr ⟨rfl, .refl _ d⟩
  | comment =>
    cases hd'
    exact .inr ⟨rfl, .refl _ d⟩
  | account acronym name =>
    obtain ⟨accounts, hadd, rfl⟩ := carryOut_account_eq_ok hd'
    obtain ⟨-, rfl⟩ := Registry.add_eq_ok hadd
    exact .inl ⟨acronym, name, rfl, rfl, rfl⟩
  | invoice l =>
    obtain ⟨senders, recipient, chain, _, _, hsenders, hrecipient, hchain, -, -, hcase⟩ :=
      addInvoice_eq_ok hd'
    rcases hcase with ⟨-, rfl⟩ | ⟨-, -, dates, -, -, rfl⟩
    · exact .inr ⟨rfl, .refl _ d⟩
    · refine .inr ⟨addOccurrences_accounts .., Adds.mono (adds_addOccurrences _ dates d) ?_⟩
      rintro x ⟨t, ht, hrole, hnote, hpair⟩
      obtain ⟨hs, hr⟩ := parties_of_mem_sharedOut ht
      have hs := refersTo_of_mem hsenders hrecipient hchain hs
      have hr := refersTo_of_mem hsenders hrecipient hchain hr
      -- A merged invoice may have been turned round.
      rcases (x.pair_eq_iff _ _).mp hpair with ⟨hsender, hrecipient⟩ | ⟨hsender, hrecipient⟩
      · exact ⟨congrArg some hrole.symm, congrArg some hnote.symm, hsender ▸ hs, hrecipient ▸ hr⟩
      · exact ⟨congrArg some hrole.symm, congrArg some hnote.symm, hsender ▸ hr, hrecipient ▸ hs⟩
  | payment l =>
    obtain ⟨sender, recipient, date, hsender, hrecipient, -, hcase⟩ := addPayment_eq_ok hd'
    rcases hcase with ⟨-, rfl⟩ | ⟨-, -, rfl⟩ | ⟨-, -, rfl⟩
    · exact .inr ⟨rfl, .refl _ d⟩
    · exact .inr ⟨rfl, .refl _ d⟩
    · refine .inr ⟨rfl, fun t ht => ?_⟩
      rcases List.mem_append.mp ht with ht | ht
      · exact .inl (List.mem_append_left _ ht)
      · rcases List.mem_cons.mp ht with rfl | ht
        · exact .inr ⟨rfl, rfl, ⟨_, List.mem_cons_self, sender, hsender, rfl⟩,
            _, List.mem_cons_of_mem _ List.mem_cons_self, recipient, hrecipient, rfl⟩
        · exact .inl (List.mem_append_right _ ht)

/-! ## All lines -/

/-- Every account of the draft is declared by one of the lines, and every note stands on one. -/
structure Traced (lines : List (List Char)) (d : Draft) : Prop where
  accounts : ∀ a ∈ d.accounts.accounts, ∃ text ∈ lines,
    (Line.account a.acronym a.name).Spells text
  notes : ∀ t ∈ d.transactions, ∃ text ∈ lines, ∃ line : Line,
    line.Spells text ∧ line.note = some t.note

theorem Traced.empty : Traced [] {} :=
  ⟨fun _ ha => absurd ha List.not_mem_nil, fun _ ht => absurd ht List.not_mem_nil⟩

theorem Traced.carryOut {lines : List (List Char)} (h : d.Traced lines) {line : Line}
    {text : List Char} (htext : line.Spells text)
    (hd' : d.carryOut options reference line = .ok d') : d'.Traced (lines ++ [text]) := by
  have hearlier : ∀ {P : List Char → Prop}, (∃ text ∈ lines, P text) →
      ∃ text' ∈ lines ++ [text], P text' := by
    rintro P ⟨text', htext', hP⟩
    exact ⟨text', List.mem_append_left _ htext', hP⟩
  rcases carryOut_effect hd' with ⟨acronym, name, rfl, haccounts, hsame⟩ | ⟨hsame, hrecords⟩
  · refine ⟨fun a ha => ?_, fun t ht => hearlier (h.notes t (hsame ▸ ht))⟩
    rw [haccounts] at ha
    rcases List.mem_append.mp ha with ha | ha
    · exact hearlier (h.accounts a ha)
    · rw [List.mem_singleton.mp ha]
      exact ⟨text, List.mem_append_right _ List.mem_cons_self, htext⟩
  · refine ⟨fun a ha => hearlier (h.accounts a (hsame ▸ ha)), fun t ht => ?_⟩
    rcases hrecords t ht with ht | hrecord
    · exact hearlier (h.notes t ht)
    · exact ⟨text, List.mem_append_right _ List.mem_cons_self, line, htext, hrecord.note_eq⟩

theorem traced_of_addLines {lines : List (List Char)} {number : ℕ}
    (h : ({} : Draft).addLines options reference number lines = (d, none)) : d.Traced lines :=
  addLines_keeps_behind (P := Traced)
    (fun _ _ _ _ _ hd hread hcarry => hd.carryOut (Line.ofText?_eq_some_iff.mp hread) hcarry)
    Traced.empty h

/-- Accounts that are declared keep their places. -/
theorem accounts_kept_of_addLines {lines : List (List Char)} {number : ℕ}
    (h : d.addLines options reference number lines = (d', none)) :
    d.accounts.accounts <+: d'.accounts.accounts := by
  refine addLines_keeps (P := fun e => d.accounts.accounts <+: e.accounts.accounts)
    (fun e line e' he hcarry => he.trans ?_) (List.prefix_refl _) h
  rcases carryOut_effect hcarry with ⟨acronym, name, -, haccounts, -⟩ | ⟨hsame, -⟩
  · rw [haccounts]
    exact List.prefix_append _ _
  · rw [hsame]

end Draft

/-! ## Ledgers -/

/-- The account with the index is declared by one of the lines. -/
def Registry.IsDeclared (r : Registry) (lines : List (List Char)) (i : ℤ) : Prop :=
  ∃ (k : ℕ) (a : Account), i = k ∧ r.accounts[k]? = some a ∧
    ∃ text ∈ lines, (Line.account a.acronym a.name).Spells text

theorem Line.RefersTo.mono {r r' : Registry} {line : Line} {i : ℤ} (h : line.RefersTo r i)
    (hkept : r.accounts <+: r'.accounts) (hr' : r'.Distinct) : line.RefersTo r' i := by
  obtain ⟨acronym, hacronym, k, hk, rfl⟩ := h
  exact ⟨acronym, hacronym, k, Registry.resolve_of_isPrefix hk hkept hr', rfl⟩

/-- What holds of a list and not of the empty one begins to hold with one of its elements. -/
theorem exists_first_holding {α : Type} {P : List α → Prop} {xs : List α} (hnil : ¬ P [])
    (h : P xs) : ∃ before x after, xs = before ++ x :: after ∧ ¬ P before ∧ P (before ++ [x]) := by
  induction xs using List.reverseRecOn with
  | nil => exact absurd h hnil
  | append_singleton xs x ih =>
    by_cases hxs : P xs
    · obtain ⟨before, y, after, rfl, hbefore, hy⟩ := ih hxs
      exact ⟨before, y, after ++ [x], by simp, hbefore, hy⟩
    · exact ⟨xs, x, [], rfl, hxs, h⟩

namespace Ledger

/-- The transactions that are recorded once the lines behind a header are read. -/
def recordedBy (options : Options) (reference : Date) (lines : List (List Char)) :
    List Transaction :=
  (({} : Draft).addLines options reference 2 lines).1.transactions

variable {body before after : List (List Char)} {text : List Char} {d : Draft}

/-- A reading to the end, seen at one of its lines. -/
theorem exists_carryOut_of_addLines
    (h : ({} : Draft).addLines options reference 2 (before ++ text :: after) = (d, none)) :
    ∃ d₁ d₂ line, ({} : Draft).addLines options reference 2 before = (d₁, none) ∧
      line.Spells text ∧ d₁.carryOut options reference line = .ok d₂ ∧
      recordedBy options reference before = d₁.transactions ∧
      recordedBy options reference (before ++ [text]) = d₂.transactions ∧
      d₁.accounts.accounts <+: d.accounts.accounts := by
  obtain ⟨d₁, hbefore, hrest⟩ := Draft.addLines_append_eq_none_iff.mp h
  obtain ⟨d₂, hline, hafter⟩ := Draft.addLines_cons_eq_none_iff.mp hrest
  obtain ⟨line, hread, hcarry⟩ := Draft.addLine_eq_ok_iff.mp hline
  have hboth : ({} : Draft).addLines options reference 2 (before ++ [text]) = (d₂, none) :=
    Draft.addLines_append_eq_none_iff.mpr ⟨d₁, hbefore,
      Draft.addLines_cons_eq_none_iff.mpr ⟨d₂, hline, rfl⟩⟩
  refine ⟨d₁, d₂, line, hbefore, Line.ofText?_eq_some_iff.mp hread, hcarry, ?_, ?_,
    Draft.accounts_kept_of_addLines hrest⟩
  · rw [recordedBy, hbefore]
  · rw [recordedBy, hboth]

/-- Once a line is read, all transactions are between accounts that the lines before declare. -/
theorem isDeclared_of_recordedBy
    (h : ({} : Draft).addLines options reference 2 (before ++ text :: after) = (d, none))
    {t : Transaction} (ht : t ∈ recordedBy options reference (before ++ [text])) :
    d.accounts.IsDeclared before t.sender ∧ d.accounts.IsDeclared before t.recipient := by
  obtain ⟨d₁, d₂, line, hbefore, -, hcarry, -, hrecorded, hkept⟩ := exists_carryOut_of_addLines h
  have hwf : d₁.WellFormed reference :=
    Draft.addLines_keeps (fun _ _ _ hd hline => hd.carryOut hline) (.empty reference) hbefore
  have htraced := Draft.traced_of_addLines hbefore
  have hdeclared : ∀ k : ℕ, k < d₁.accounts.size → d.accounts.IsDeclared before k := by
    intro k hk
    exact ⟨k, _, rfl, List.prefix_iff_getElem?.mp hkept k hk,
      htraced.accounts _ (List.getElem_mem hk)⟩
  have hindices : (∃ k : ℕ, t.sender = k ∧ k < d₁.accounts.size) ∧
      ∃ k : ℕ, t.recipient = k ∧ k < d₁.accounts.size := by
    have hold : t ∈ d₁.transactions ∨ line.Records d₁.accounts t := by
      rw [hrecorded] at ht
      rcases Draft.carryOut_effect hcarry with ⟨_, _, -, -, hsame⟩ | ⟨-, hrecords⟩
      · exact .inl (hsame ▸ ht)
      · exact hrecords t ht
    rcases hold with ht | hrecord
    · rcases List.mem_append.mp ht with ht | ht
      · exact (hwf.invoices t ht).exists_indices
      · exact (hwf.payments t ht).exists_indices
    · exact ⟨hrecord.sender.exists_lt, hrecord.recipient.exists_lt⟩
  obtain ⟨⟨i, hi, hi'⟩, j, hj, hj'⟩ := hindices
  rw [hi, hj]
  exact ⟨hdeclared i hi', hdeclared j hj'⟩

/-- Every transaction that is recorded was brought by a line that asks for it. -/
theorem exists_records_of_recordedBy
    (h : ({} : Draft).addLines options reference 2 body = (d, none)) {r : Registry}
    (hr : r.Distinct) (haccounts : d.accounts.accounts <+: r.accounts) {t : Transaction}
    (ht : t ∈ recordedBy options reference body) :
    ∃ before text after, body = before ++ text :: after ∧
      t ∉ recordedBy options reference before ∧
      t ∈ recordedBy options reference (before ++ [text]) ∧
      ∃ line : Line, line.Spells text ∧ line.Records r t := by
  obtain ⟨before, text, after, rfl, hnew, hrecorded⟩ := exists_first_holding
    (P := fun lines => t ∈ recordedBy options reference lines) List.not_mem_nil ht
  obtain ⟨d₁, d₂, line, -, htext, hcarry, hearlier, hlater, hkept⟩ := exists_carryOut_of_addLines h
  have hrecords : line.Records d₁.accounts t := by
    rw [hearlier] at hnew
    rw [hlater] at hrecorded
    rcases Draft.carryOut_effect hcarry with ⟨_, _, -, -, hsame⟩ | ⟨-, hrecords⟩
    · exact absurd (hsame ▸ hrecorded) hnew
    · exact (hrecords t hrecorded).resolve_left hnew
  exact ⟨before, text, after, rfl, hnew, hrecorded, line, htext, hrecords.role_eq,
    hrecords.note_eq, hrecords.sender.mono (hkept.trans haccounts) hr,
    hrecords.recipient.mono (hkept.trans haccounts) hr⟩

/-- A ledger that is read is well formed, and all of it stands on its lines: each account and
each note is written on one, and a transaction is between accounts that are declared before the
line that brings it. -/
theorem ofString_traced {options : Options} {text : String} {l : Ledger}
    (h : ofString options text = .ok l) :
    l.WellFormed ∧
      (∀ a ∈ l.accounts.accounts, IsAcronym a.acronym ∧ IsWritten a.name) ∧
      (∀ t ∈ l.invoices ++ l.payments, IsWritten t.note) ∧
      ∃ header body, IsCut text.toList (header :: body) ∧
        (∀ before line after, body = before ++ line :: after →
          ∀ t ∈ recordedBy options l.referenceDate (before ++ [line]),
            l.accounts.IsDeclared before t.sender ∧ l.accounts.IsDeclared before t.recipient) ∧
        ∀ t ∈ l.invoices ++ l.payments,
          ∃ before text after, body = before ++ text :: after ∧
            t ∉ recordedBy options l.referenceDate before ∧
            t ∈ recordedBy options l.referenceDate (before ++ [text]) ∧
            ∃ line : Line, line.Spells text ∧ line.Records l.accounts t := by
  have hwf := wellFormed_of_ofString h
  obtain ⟨lines, hcut⟩ := exists_isCut text.toList
  obtain ⟨header, body, rfl⟩ := hcut.exists_cons
  rw [ofString_eq_ofLines_of_isCut options hcut] at h
  obtain ⟨reference, d, -, hbody, rfl⟩ := ofLines_eq_ok_iff.mp h
  have htraced := Draft.traced_of_addLines hbody
  have hfeed : ∀ text ∈ body, '\n' ∉ text := fun text htext =>
    hcut.feed_notMem text (List.mem_cons_of_mem _ htext)
  have hmem : ∀ t ∈ (d.finish reference).invoices ++ (d.finish reference).payments,
      t ∈ d.transactions := by
    intro t ht
    rcases List.mem_append.mp ht with ht | ht
    · exact List.mem_append_left _ (List.mem_reverse.mp ht)
    · exact List.mem_append_right _ (List.mem_reverse.mp ht)
  refine ⟨hwf, fun a ha => ?_, fun t ht => ?_, header, body, hcut, ?_, fun t ht => ?_⟩
  · obtain ⟨text', htext', hacronym, hne, hrow⟩ := htraced.accounts a ha
    exact ⟨hacronym, .of_isRow hrow (hfeed text' htext') (by simp) hne⟩
  · obtain ⟨text', htext', line, hspells, hnote⟩ := htraced.notes t (hmem t ht)
    exact hspells.isWritten_note (hfeed text' htext') hnote
  · rintro before line after rfl t ht
    exact isDeclared_of_recordedBy hbody ht
  · refine exists_records_of_recordedBy hbody hwf.distinct (List.prefix_refl _) ?_
    rw [recordedBy, hbody]
    exact hmem t ht

/-- Whatever a ledger says in free text stands on one line. -/
theorem isWritten_of_ofString {options : Options} {text : String} {l : Ledger}
    (h : ofString options text = .ok l) :
    (∀ a ∈ l.accounts.accounts, IsAcronym a.acronym ∧ IsWritten a.name) ∧
      ∀ t ∈ l.invoices ++ l.payments, IsWritten t.note := by
  obtain ⟨lines, hcut⟩ := exists_isCut text.toList
  obtain ⟨header, body, rfl⟩ := hcut.exists_cons
  rw [ofString_eq_ofLines_of_isCut options hcut] at h
  obtain ⟨reference, d, -, hbody, rfl⟩ := ofLines_eq_ok_iff.mp h
  have htraced := Draft.traced_of_addLines hbody
  have hfeed : ∀ text ∈ body, '\n' ∉ text := fun text htext =>
    hcut.feed_notMem text (List.mem_cons_of_mem _ htext)
  refine ⟨fun a ha => ?_, fun t ht => ?_⟩
  · obtain ⟨line, hline, hacronym, hne, hrow⟩ := htraced.accounts a ha
    exact ⟨hacronym, .of_isRow hrow (hfeed line hline) (by simp) hne⟩
  · have hmem : t ∈ d.transactions :=
      (List.mem_append.mp ht).elim (fun ht => List.mem_append_left _ (List.mem_reverse.mp ht))
        fun ht => List.mem_append_right _ (List.mem_reverse.mp ht)
    obtain ⟨line, hline, _, hspells, hnote⟩ := htraced.notes t hmem
    exact hspells.isWritten_note (hfeed line hline) hnote

/-- Two accounts, and a bill and a gift between them. -/
def giftText : String :=
  "accounting_date 1.2.2024\naccount AA Anna\naccount BB Bert\n" ++
    "invoice AA -> BB 6.00 4.1.2024 Tea\npayment BB -> AA 2.00 5.1.2024 Gift\n"

/-- The gift is brought by the line that it stands on, behind those of its accounts. -/
theorem ofString_traced_gift : ∃ l t before text after, ofString {} giftText = .ok l ∧
    t ∈ l.payments ∧ t.note = "Gift" ∧ IsCut giftText.toList (before ++ text :: after) ∧
      (∃ line : Line, line.Spells text ∧ line.Records l.accounts t) ∧
      l.accounts.IsDeclared before t.sender ∧ l.accounts.IsDeclared before t.recipient := by
  have hread : (ofString {} giftText).toOption.map (fun l => l.payments.map (·.note)) =
      some ["Gift"] := by
    decide +kernel
  obtain ⟨l, hl, hnotes⟩ := Option.map_eq_some_iff.mp hread
  rw [toOption_eq_some] at hl
  obtain ⟨t, ht, hnote⟩ : ∃ t ∈ l.payments, t.note = "Gift" :=
    List.mem_map.mp (hnotes ▸ List.mem_cons_self)
  obtain ⟨-, -, -, header, body, hcut, hdeclared, hbrought⟩ := ofString_traced hl
  obtain ⟨before, text, after, rfl, -, hrecorded, hline⟩ :=
    hbrought t (List.mem_append_right _ ht)
  obtain ⟨⟨i, a, hi, ha, text', htext', hspells⟩, j, a', hj, ha', text'', htext'', hspells'⟩ :=
    hdeclared before text after rfl t hrecorded
  refine ⟨l, t, header :: before, text, after, hl, ht, hnote, hcut, hline, ?_, ?_⟩
  · exact ⟨i, a, hi, ha, text', List.mem_cons_of_mem _ htext', hspells⟩
  · exact ⟨j, a', hj, ha', text'', List.mem_cons_of_mem _ htext'', hspells'⟩

end Ledger

end HouseLedger
