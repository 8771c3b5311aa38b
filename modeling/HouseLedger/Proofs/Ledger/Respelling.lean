import HouseLedger.Proofs.Ledger.Merging
import HouseLedger.Proofs.Report.Matching

/-!
# The digits of an amount

An amount can be written with zeros in front and with zeros behind, `10.0` as well as `010.000`.
Texts that differ in nothing but this (`Respells`, line by line) describe the same ledger:

* `Respells.rel_ofText?`: the lines are read alike, or none is a line.
* `exists_firstFault`: where the one text has a fault, the other has the same on the same
  line.
* `Ledger.ofString_respelled`: the ledgers of both texts have the same transactions but for the
  digits of amounts. So have their balances, unless a sum is too large for there to be any
  (`Ledger.balance_respelled`); all that is shown of them is the same.
-/

namespace HouseLedger

open Outcome Text

variable {options : Options} {reference : Date}

/-! ## Lines with an amount -/

/-- The words that an invoice line or a payment line begins with, up to its amount. -/
inductive OpensAmount : List Char → Prop
  | invoice {sender recipient : String} {sharers chain : List String} {row : List Char} :
      IsAcronym sender → (∀ a ∈ sharers, IsAcronym a) →
      (∀ a ∈ recipient :: chain, IsAcronym a) →
      IsRow ("invoice" :: ([sender] ++ (sharers.flatMap (fun a => [":", a]) ++
        (recipient :: chain).flatMap fun a => ["->", a]))) row → OpensAmount row
  | payment {sender recipient : String} {row : List Char} :
      IsAcronym sender → IsAcronym recipient →
      IsRow ["payment", sender, "->", recipient] row → OpensAmount row

/-- The two texts are one line of a ledger, up to the digits of its amount. What stands behind
the amount may be anything, also what is no line. -/
inductive Respells : List Char → List Char → Prop
  | refl (text : List Char) : Respells text text
  | amount {row after : List Char} {v : Char} {w w' : WrittenAmount} : OpensAmount row →
      isBlank v = true → w.IsProper → w'.IsProper → w.toDecimal.toRat = w'.toDecimal.toRat →
      NoDigit after →
      Respells (row ++ v :: (w.text.toList ++ after)) (row ++ v :: (w'.text.toList ++ after))

namespace Line

/-- The same line, up to the digits of its amount. -/
inductive Respells : Line → Line → Prop
  | refl (line : Line) : Respells line line
  | invoice (l : InvoiceLine) {w : WrittenAmount} : l.amount.toDecimal.Same w.toDecimal →
      Respells (.invoice l) (.invoice { l with amount := w })
  | payment (l : PaymentLine) {w : WrittenAmount} : l.amount.toDecimal.Same w.toDecimal →
      Respells (.payment l) (.payment { l with amount := w })

/-! ## Reading -/

variable {row after : List Char} {v : Char} {w : WrittenAmount}

theorem takeAmount?_eq (hv : isBlank v = true) (hw : w.IsProper) (hafter : NoDigit after) :
    takeAmount? (v :: (w.text.toList ++ after)) = some (w, after) :=
  takeAmount?_eq_some_iff.mpr ⟨hw, leads_singleton.mpr ⟨v, hv, rfl⟩, hafter⟩

/-- An invoice line is read up to its amount whatever the digits of the amount are. -/
theorem ofText?_opening_invoice {sender recipient : String} {sharers chain : List String}
    (hsender : IsAcronym sender) (hsharers : ∀ a ∈ sharers, IsAcronym a)
    (hrecipients : ∀ a ∈ recipient :: chain, IsAcronym a)
    (hrow : IsRow ("invoice" :: ([sender] ++ (sharers.flatMap (fun a => [":", a]) ++
      (recipient :: chain).flatMap fun a => ["->", a]))) row)
    (hv : isBlank v = true) (hw : w.IsProper) (hafter : NoDigit after) :
    ofText? (row ++ v :: (w.text.toList ++ after)) =
      (takeDate? after).bind fun (start, rest) => (takeTerms? rest).bind fun (recurrence, note) =>
        some (.invoice ⟨sender, sharers, recipient, chain, w, start, recurrence, note⟩) := by
  obtain ⟨t₁, rfl, hleads⟩ := hrow
  obtain ⟨u, parties, hu, rfl, hparties⟩ := leads_iff_exists_row.mp
    (show Leads (partyWords sender sharers recipient chain) t₁ [] from hleads)
  have hhead : ("invoice".toList ++ u :: (parties ++ []) ++
    v :: (w.text.toList ++ after)).head? = some 'i' := rfl
  have hword : takeWord? "invoice" ("invoice".toList ++ u :: (parties ++ []) ++
      v :: (w.text.toList ++ after)) = some (u :: (parties ++ v :: (w.text.toList ++ after))) :=
    takeWord?_eq_some_iff.mpr (by simp)
  have hblank : takeBlank? (u :: (parties ++ v :: (w.text.toList ++ after))) =
      some (parties ++ v :: (w.text.toList ++ after)) := takeBlank?_eq_some_iff.mpr ⟨u, hu, rfl⟩
  have hamount : Leads [w.text] (v :: (w.text.toList ++ after)) after :=
    leads_singleton.mpr ⟨v, hv, rfl⟩
  rw [ofText?_eq_invoice? hhead, invoice?, hword]
  simp only [Option.bind_eq_bind, Option.bind_some, hblank,
    takeParties?_eq_some_iff.mpr ⟨_, _, _, _, hsender, hsharers, hrecipients, hparties, rfl,
      takeMember?_eq_none_of_amount hw hamount⟩,
    takeAmount?_eq hv hw hafter, splitParties?_eq hsender hsharers hrecipients hparties]
  rfl

/-- So is a payment line. -/
theorem ofText?_opening_payment {sender recipient : String} (hsender : IsAcronym sender)
    (hrecipient : IsAcronym recipient) (hrow : IsRow ["payment", sender, "->", recipient] row)
    (hv : isBlank v = true) (hw : w.IsProper) (hafter : NoDigit after) :
    ofText? (row ++ v :: (w.text.toList ++ after)) =
      (takeDate? after).bind fun (date, rest) => (takeNote? rest).bind fun note =>
        some (.payment ⟨sender, recipient, w, date, note⟩) := by
  obtain ⟨t₁, rfl, hleads⟩ := hrow
  have hleads := leads_append_rest hleads (v :: (w.text.toList ++ after))
  obtain ⟨t₂, hsenderText, hleads⟩ := leads_cons.mp hleads
  obtain ⟨t₃, harrow, hrecipientText⟩ := leads_cons.mp hleads
  rw [List.nil_append] at hrecipientText
  obtain ⟨t, hblank, hacronym⟩ := exists_takeBlank?_takeAcronym?_iff.mpr ⟨hsender, hsenderText⟩
  obtain ⟨t', hblank', hacronym'⟩ :=
    exists_takeBlank?_takeAcronym?_iff.mpr ⟨hrecipient, hrecipientText⟩
  have hhead : ("payment".toList ++ t₁ ++ v :: (w.text.toList ++ after)).head? = some 'p' := rfl
  have hword := takeWord?_eq_some_iff.mpr
    (List.append_assoc "payment".toList t₁ (v :: (w.text.toList ++ after)))
  rw [ofText?_eq_payment? hhead, payment?, hword]
  simp only [Option.bind_eq_bind, Option.bind_some, hblank, hacronym,
    takeMark?_eq_some_iff.mpr harrow, hblank', hacronym', takeAmount?_eq hv hw hafter]
  rfl

end Line

/-- Written amounts have no sign, so that those of one value are the same. -/
theorem WrittenAmount.same {w w' : WrittenAmount} (h : w.toDecimal.toRat = w'.toDecimal.toRat) :
    w.toDecimal.Same w'.toDecimal :=
  ⟨h, rfl⟩

/-- Lines that differ in the digits of their amounts are read alike. -/
theorem Respells.rel_ofText? {text text' : List Char} (h : Respells text text') :
    Option.Rel Line.Respells (Line.ofText? text) (Line.ofText? text') := by
  cases h with
  | refl text =>
    cases Line.ofText? text with
    | none => exact .none
    | some line => exact .some (.refl line)
  | @amount row after v w w' hrow hv hw hw' hvalue hafter =>
    cases hrow with
    | invoice hsender hsharers hrecipients hrow =>
      rw [Line.ofText?_opening_invoice hsender hsharers hrecipients hrow hv hw hafter,
        Line.ofText?_opening_invoice hsender hsharers hrecipients hrow hv hw' hafter]
      cases Line.takeDate? after with
      | none => exact .none
      | some due =>
        obtain ⟨start, rest⟩ := due
        dsimp only [Option.bind_some]
        cases Line.takeTerms? rest with
        | none => exact .none
        | some terms => exact .some (.invoice _ (WrittenAmount.same hvalue))
    | payment hsender hrecipient hrow =>
      rw [Line.ofText?_opening_payment hsender hrecipient hrow hv hw hafter,
        Line.ofText?_opening_payment hsender hrecipient hrow hv hw' hafter]
      cases Line.takeDate? after with
      | none => exact .none
      | some due =>
        obtain ⟨date, rest⟩ := due
        dsimp only [Option.bind_some]
        cases Line.takeNote? rest with
        | none => exact .none
        | some note => exact .some (.payment _ (WrittenAmount.same hvalue))

/-! ## What lines need -/

namespace Line

variable {line line' : Line} {earlier earlier' : List (List Char)} {fault : Fault}

namespace Respells

theorem parties_eq (h : line.Respells line') : line'.parties = line.parties := by cases h <;> rfl

theorem dates_eq (h : line.Respells line') : line'.dates = line.dates := by cases h <;> rfl

theorem declares_eq (h : line.Respells line') : line'.declares = line.declares := by cases h <;> rfl

theorem toMatches (h : line.Respells line') : line.Matches Decimal.Same line' := by
  cases h with
  | refl line => exact .refl (fun _ => ⟨rfl, rfl⟩) line
  | invoice l hw => exact .invoice l hw
  | payment l hw => exact .payment l hw

/-- An invoice line is an invoice line in other digits too. -/
theorem exists_amount {l : InvoiceLine} (h : (Line.invoice l).Respells line') :
    ∃ w, line' = .invoice { l with amount := w } ∧ l.amount.toDecimal.Same w.toDecimal := by
  cases h with
  | refl => exact ⟨l.amount, rfl, rfl, rfl⟩
  | invoice _ hw => exact ⟨_, rfl, hw⟩

end Respells

end Line

section

variable {earlier earlier' : List (List Char)} {text text' : List Char}

theorem linesMatch_of_forall₂ (h : List.Forall₂ Respells earlier earlier') :
    LinesMatch Decimal.Same earlier earlier' :=
  h.imp fun text text' htext => by
    have hrel := htext.rel_ofText?
    generalize Line.ofText? text = line, Line.ofText? text' = line' at hrel ⊢
    cases hrel with
    | none => exact .none
    | some hline => exact .some hline.toMatches

theorem declared_of_forall₂ (h : List.Forall₂ Respells earlier earlier') :
    declared earlier' = declared earlier := by
  induction h with
  | nil => rfl
  | @cons text text' _ _ htext _ ih =>
    have haccounts : accountsOf text' = accountsOf text := by
      have hrel := htext.rel_ofText?
      unfold accountsOf
      generalize Line.ofText? text = line, Line.ofText? text' = line' at hrel
      cases hrel with
      | none => rfl
      | some hline => exact hline.declares_eq
    rw [declared, List.flatMap_cons, haccounts]
    exact congrArg _ ih

theorem declared_iff_of_forall₂ (h : List.Forall₂ Respells earlier earlier') (acronym : String) :
    Declared earlier' acronym ↔ Declared earlier acronym := by
  rw [declared_iff_mem, declared_iff_mem, declared_of_forall₂ h]

/-- The share of an amount is too large however the amount is written. -/
theorem InvoiceLine.overshares_respelled {l : InvoiceLine} {w : WrittenAmount}
    (hw : l.amount.toDecimal.Same w.toDecimal) :
    { l with amount := w }.Overshares reference ↔ l.Overshares reference := by
  have hshare := (Decimal.Congruence.of_same.share hw (Nat.succ_pos l.sharers.length)).toRat_eq
  simp only [Overshares, hshare]

/-- So are the sums with invoices before it, however those are written. -/
theorem InvoiceLine.overmerges_respelled {l : InvoiceLine} {w : WrittenAmount}
    (hw : l.amount.toDecimal.Same w.toDecimal) (hearlier : List.Forall₂ Respells earlier earlier')
    (hdistinct : (accountsBehind earlier).Distinct) :
    { l with amount := w }.Overmerges options reference earlier' ↔
      l.Overmerges options reference earlier := by
  have haccounts : accountsBehind earlier' = accountsBehind earlier := by
    rw [accountsBehind, accountsBehind, declared_of_forall₂ hearlier]
  have hagrees := hdistinct.agrees
  have hbehind : List.Forall₂ (Transaction.Matches Decimal.Same
      ((accountsBehind earlier).Shares (accountsBehind earlier)))
      (invoicesBehind options reference earlier) (invoicesBehind options reference earlier') := by
    rw [invoicesBehind, invoicesBehind, haccounts]
    exact Draft.forall₂_foldl_recorded .of_same hagrees.biUnique _
      (List.rel_flatMap (linesMatch_of_forall₂ hearlier) fun _ _ h =>
        (forall₂_transactionsOf options reference .of_same hagrees h).1) .nil
  have hbilled : Related (List.Forall₂ (Transaction.Matches Decimal.Same
      ((accountsBehind earlier).Shares (accountsBehind earlier))))
      (l.billed options reference (accountsBehind earlier))
      ({ l with amount := w }.billed options reference (accountsBehind earlier)) :=
    l.related_billed .of_same hagrees hw
  rw [Overmerges, Overmerges, haccounts]
  generalize l.billed options reference (accountsBehind earlier) = billed,
    { l with amount := w }.billed options reference (accountsBehind earlier) = billed' at hbilled
  cases hbilled with
  | error fault => simp
  | ok hts =>
    have henterable := Draft.enterable_iff_of_matches .of_same hagrees.biUnique
      options.mergeInvoices hbehind hts
    simp [henterable]

variable {line line' : Line} {fault : Fault}

section

variable (h : line.Respells line')
  (hearlier : List.Forall₂ HouseLedger.Respells earlier earlier')
  (hdistinct : (accountsBehind earlier).Distinct)
include h hearlier hdistinct

/-- The same makes both lines admissible. -/
theorem Line.Respells.admissible (hline : line.Admissible options reference earlier) :
    line'.Admissible options reference earlier' := by
  have hdeclared := declared_iff_of_forall₂ hearlier
  have hparties : ∀ a ∈ line'.parties, Declared earlier' a := fun a ha =>
    (hdeclared a).mpr (hline.declared a (h.parties_eq ▸ ha))
  have hdates : ∀ w ∈ line'.dates, w.IsReal := h.dates_eq ▸ hline.real
  cases line with
  | invoice l =>
    obtain ⟨w, rfl, hw⟩ := h.exists_amount
    refine Line.admissible_invoice_iff.mpr ⟨hparties, hdates, ?_, hline.moving l rfl, ?_⟩
    · exact mt (InvoiceLine.overshares_respelled hw).mp (hline.sharable l rfl)
    · exact mt (InvoiceLine.overmerges_respelled hw hearlier hdistinct).mp (hline.mergeable l rfl)
  | account acronym name =>
    cases h
    refine ⟨⟨?_, hparties, hdates, nofun⟩, nofun, nofun⟩
    rintro _ _ ⟨rfl⟩
    exact mt (hdeclared acronym).mp (hline.fresh acronym name rfl)
  | payment l =>
    have hpayment : ∃ l', line' = .payment l' := by cases h <;> exact ⟨_, rfl⟩
    obtain ⟨l', rfl⟩ := hpayment
    exact ⟨⟨nofun, hparties, hdates, nofun⟩, nofun, nofun⟩
  | blank =>
    cases h
    exact ⟨⟨nofun, hparties, hdates, nofun⟩, nofun, nofun⟩
  | comment =>
    cases h
    exact ⟨⟨nofun, hparties, hdates, nofun⟩, nofun, nofun⟩

/-- Both lines have the same fault. -/
theorem Line.Respells.failsWith (hline : line.FailsWith options reference earlier fault) :
    line'.FailsWith options reference earlier' fault := by
  have hdeclared := declared_iff_of_forall₂ hearlier
  have hparties (hall : ∀ a ∈ line.parties, Declared earlier a) :
      ∀ a ∈ line'.parties, Declared earlier' a := fun a ha =>
    (hdeclared a).mpr (hall a (h.parties_eq ▸ ha))
  have hdates (hall : ∀ w ∈ line.dates, w.IsReal) : ∀ w ∈ line'.dates, w.IsReal :=
    h.dates_eq ▸ hall
  cases hline with
  | taken htaken =>
    cases h
    exact .taken ((hdeclared _).mpr htaken)
  | unknown hfirst =>
    rw [← h.parties_eq] at hfirst
    exact .unknown (hfirst.congr fun a _ => (hdeclared a).symm)
  | unreal hall hfirst hmisses =>
    rw [← h.dates_eq] at hfirst
    exact .unreal (hparties hall) hfirst hmisses
  | overshares hall hreal hover =>
    obtain ⟨w, rfl, hw⟩ := h.exists_amount
    exact .overshares (hparties hall) (hdates hreal)
      ((InvoiceLine.overshares_respelled hw).mpr hover)
  | stalls hall hreal hnot hstalls =>
    obtain ⟨w, rfl, hw⟩ := h.exists_amount
    exact .stalls (hparties hall) (hdates hreal)
      (mt (InvoiceLine.overshares_respelled hw).mp hnot) hstalls
  | overmerges hall hreal hnot hmoving hover =>
    obtain ⟨w, rfl, hw⟩ := h.exists_amount
    exact .overmerges (hparties hall) (hdates hreal)
      (mt (InvoiceLine.overshares_respelled hw).mp hnot) hmoving
      ((InvoiceLine.overmerges_respelled hw hearlier hdistinct).mpr hover)

end

/-! ## Whole texts -/

theorem acceptable_of_respells (hearlier : List.Forall₂ Respells earlier earlier')
    (hdistinct : (accountsBehind earlier).Distinct) (h : Respells text text')
    (htext : Acceptable options reference earlier text) :
    Acceptable options reference earlier' text' := by
  obtain ⟨line, hspells, hline⟩ := htext
  have hrel := h.rel_ofText?
  rw [hspells.ofText?_eq] at hrel
  generalize hread : Line.ofText? text' = read at hrel
  cases hrel with
  | some h =>
    exact ⟨_, Line.ofText?_eq_some_iff.mp hread, h.admissible hearlier hdistinct hline⟩

variable {body body' : List (List Char)}

theorem allAcceptable_of_forall₂ (h : List.Forall₂ Respells body body')
    (hall : AllAcceptable options reference body) : AllAcceptable options reference body' := by
  rintro before' text' after' rfl
  obtain ⟨before, text, after, rfl, hbefore, htext⟩ := exists_append_of_forall₂ h
  exact acceptable_of_respells hbefore hall.of_append.distinct htext (hall before text after rfl)

/-- The same fault on the same line, which may be written otherwise; an overflow is told of no
line. -/
inductive Fault.Alike : Fault → Fault → Prop
  | overflow : Alike .overflow .overflow
  | malformed (number : ℕ) (line line' : String) :
      Alike (.lineMalformed number line) (.lineMalformed number line')
  | onLine (number : ℕ) (line line' : String) (cause : Fault) :
      Alike (.onLine number line cause) (.onLine number line' cause)

theorem Fault.alike_atLine (cause : Fault) (number : ℕ) (line line' : String) :
    (cause.atLine number line).Alike (cause.atLine number line') := by
  cases cause with
  | overflow => exact .overflow
  | _ => exact .onLine ..

theorem exists_lineFault {number : ℕ} {fault : Fault}
    (hearlier : List.Forall₂ Respells earlier earlier')
    (hdistinct : (accountsBehind earlier).Distinct) (h : Respells text text')
    (hfault : LineFault options reference earlier number text fault) :
    ∃ fault', LineFault options reference earlier' number text' fault' ∧ fault.Alike fault' := by
  have hrel := h.rel_ofText?
  cases hfault with
  | malformed hno =>
    have hnone : Line.ofText? text = none := Option.eq_none_iff_forall_ne_some.mpr
      fun line hline => hno line (Line.ofText?_eq_some_iff.mp hline)
    rw [hnone] at hrel
    generalize hread : Line.ofText? text' = read at hrel
    cases hrel
    refine ⟨_, .malformed fun line hline => ?_, .malformed ..⟩
    exact Option.some_ne_none line (hline.ofText?_eq.symm.trans hread)
  | failing hspells hfails =>
    rw [hspells.ofText?_eq] at hrel
    generalize hread : Line.ofText? text' = read at hrel
    cases hrel with
    | some h =>
      exact ⟨_,
        .failing (Line.ofText?_eq_some_iff.mp hread) (h.failsWith hearlier hdistinct hfails),
        Fault.alike_atLine ..⟩

/-- Reading stops at the line with the number: at the first line, which is no header, or at the
first of the others that is not acceptable. -/
inductive Ledger.StopsAt (options : Options) (header : List Char) (body : List (List Char)) :
    ℕ → Prop
  | header : (∀ reference, ¬ IsHeader options header reference) → StopsAt options header body 1
  | line {reference : Date} {before after : List (List Char)} {text : List Char} :
      IsHeader options header reference → body = before ++ text :: after →
      AllAcceptable options reference before → ¬ Acceptable options reference before text →
      StopsAt options header body (before.length + 2)

/-- The same fault is found on the same line. -/
theorem exists_firstFault {header : List Char} {fault : Fault}
    (h : List.Forall₂ Respells body body')
    (hfault : Ledger.TextFault options header body fault) :
    ∃ number fault', Ledger.TextFault options header body' fault' ∧ fault.Alike fault' ∧
      Ledger.StopsAt options header body number ∧ Ledger.StopsAt options header body' number := by
  rcases hfault with hheader | ⟨reference, hheader, before, text, after, rfl, hall, hfault⟩
  · have hno : ∀ reference, ¬ Ledger.IsHeader options header reference := fun _ =>
      hheader.not_isHeader
    refine ⟨1, fault, .inl hheader, ?_, .header hno, .header hno⟩
    cases hheader with
    | missing _ => exact .onLine ..
    | unreal _ _ _ => exact .onLine ..
  · obtain ⟨before', text', after', rfl, hbefore, htext⟩ :=
      exists_append_of_forall₂ (R := flip Respells) h.flip
    have hbefore : List.Forall₂ Respells before before' := hbefore.flip
    have hall' := allAcceptable_of_forall₂ hbefore hall
    obtain ⟨fault', hfault', halike⟩ := exists_lineFault hbefore hall.distinct htext hfault
    have hstops : Ledger.StopsAt options header (before' ++ text' :: after') (before'.length + 2) :=
      .line hheader rfl hall' hfault'.not_acceptable
    rw [← hbefore.length_eq] at hstops
    rw [hbefore.length_eq] at hfault'
    exact ⟨_, fault', .inr ⟨reference, hheader, before', text', after', rfl, hall', hfault'⟩,
      halike, .line hheader rfl hall hfault.not_acceptable, hstops⟩

end

/-! ## Ledgers -/

namespace Ledger

/-- Two ledgers that differ in the digits of their amounts only. -/
structure Restates (l l' : Ledger) : Prop where
  referenceDate : l.referenceDate = l'.referenceDate
  accounts : l.accounts = l'.accounts
  invoices : List.Forall₂ (Transaction.Matches Decimal.Same Eq) l.invoices l'.invoices
  payments : List.Forall₂ (Transaction.Matches Decimal.Same Eq) l.payments l'.payments

/-- Two ledgers of which nothing different can be told: the balances differ in the digits of
amounts only, and all reports are the same. A report that there is not has an amount of too many
digits. -/
structure TellsSame (l l' : Ledger) (b b' : Balance) : Prop where
  balance : b.Matches Decimal.Same Eq b'
  overview : ∀ currency, Report.overview l b currency = Report.overview l' b' currency ∧
    FailsOnly .centsTooLong (Report.overview l b currency)
  statements : ∀ currency acronym,
    Report.statementOf l b currency acronym = Report.statementOf l' b' currency acronym ∧
      (l.accounts.contains acronym = true →
        FailsOnly .centsTooLong (Report.statementOf l b currency acronym))

theorem tellsSame_of_matches {l l' : Ledger} (h : l.Matches Decimal.Same l')
    (haccounts : l.accounts = l'.accounts) {b b' : Balance}
    (hb : b.Matches Decimal.Same (l.accounts.Shares l'.accounts) b') : TellsSame l l' b b' where
  balance := hb.imp fun _ _ he => he.imp fun _ _ hi =>
    h.accounts.distinct.eq_of_shares (haccounts ▸ hi)
  overview currency := ⟨Report.overview_eq .of_same h haccounts hb currency,
    Report.overview_fails h hb currency⟩
  statements currency acronym := ⟨Report.statementOf_eq .of_same h hb currency acronym,
    fun hknown => Report.statementOf_fails .of_same h hb hknown currency⟩

theorem restates_of_matches {l l' : Ledger} (h : l.Matches Decimal.Same l')
    (haccounts : l.accounts = l'.accounts) : Restates l l' where
  referenceDate := h.referenceDate
  accounts := haccounts
  invoices := h.invoices.imp fun _ _ ht => ht.imp fun _ _ hi =>
    h.accounts.distinct.eq_of_shares (haccounts ▸ hi)
  payments := h.payments.imp fun _ _ ht => ht.imp fun _ _ hi =>
    h.accounts.distinct.eq_of_shares (haccounts ▸ hi)

/-- It makes no difference by which digits an amount is written. Two texts whose lines differ in
nothing else are both ledgers or both none. Where they are none, the same fault is on the same
line; where they are, they have the same transactions, and nothing different can be told of them.
If a sum is too large for there to be a balance, so it is in both. -/
theorem ofString_respelled {options : Options} {text text' : String}
    (hheader : (splitLines text'.toList).1 = (splitLines text.toList).1)
    (hbody : List.Forall₂ Respells (splitLines text.toList).2 (splitLines text'.toList).2) :
    (∃ l l', ofString options text = .ok l ∧ ofString options text' = .ok l' ∧ Restates l l' ∧
        (l.balance = .error .overflow ∧ l'.balance = .error .overflow ∨
          ∃ b b', l.balance = .ok b ∧ l'.balance = .ok b' ∧ TellsSame l l' b b')) ∨
      ∃ number fault fault', ofString options text = .error fault ∧
        ofString options text' = .error fault' ∧ fault.Alike fault' ∧
        StopsAt options (splitLines text.toList).1 (splitLines text.toList).2 number ∧
        StopsAt options (splitLines text'.toList).1 (splitLines text'.toList).2 number := by
  have htext := ofString_eq_ofLines options text
  have htext' := ofString_eq_ofLines options text'
  rw [hheader] at htext' ⊢
  generalize (splitLines text.toList).1 = header, (splitLines text.toList).2 = body,
    (splitLines text'.toList).2 = body' at htext htext' hbody
  rcases ofLines_cases options header body with ⟨l, reference, hl, hreference, hall⟩ |
    ⟨fault, hfault, hcause⟩
  · have hl' : ofLines options header body' = .ok (written options reference body') :=
      ofLines_eq_ok_iff_written.mpr
        ⟨reference, hreference, allAcceptable_of_forall₂ hbody hall, rfl⟩
    have hwellFormed := wellFormed_of_ofString (htext.trans hl)
    obtain ⟨reference', hreference', -, rfl⟩ := ofLines_eq_ok_iff_written.mp hl
    obtain rfl := hreference.unique hreference'
    have haccounts : (written options reference body).accounts =
        (written options reference body').accounts := by
      simp only [written, declared_of_forall₂ hbody]
    have hmatches : (written options reference body).Matches Decimal.Same
        (written options reference body') := by
      refine matches_written options reference .of_same (linesMatch_of_forall₂ hbody) ?_
      rw [declared_of_forall₂ hbody]
      exact hwellFormed.distinct.agrees
    refine .inl ⟨_, _, htext.trans hl, htext'.trans hl', restates_of_matches hmatches haccounts, ?_⟩
    refine (hmatches.balance_cases .of_same hwellFormed).imp_right ?_
    rintro ⟨b, b', hb, hb', hbalance⟩
    exact ⟨b, b', hb, hb', tellsSame_of_matches hmatches haccounts hbalance⟩
  · obtain ⟨number, fault', hcause', halike, hstops, hstops'⟩ := exists_firstFault hbody hcause
    refine .inr ⟨number, fault, fault', htext.trans hfault, htext'.trans ?_, halike, hstops,
      hstops'⟩
    rcases ofLines_cases options header body' with ⟨l', reference, hl', hreference, hall⟩ |
      ⟨fault'', hfault'', hcause''⟩
    · exact absurd hall (hcause'.not_allAcceptable hreference)
    · rw [hfault'', hcause''.unique hcause']

/-- A bill whose amount is written in the given way. -/
def billText (amount : String) : String :=
  "accounting_date 1.2.2024\naccount AA A\naccount BB B\ninvoice AA -> BB " ++ amount ++
    " 1.1.2024 T\n"

/-- The digits make a difference to the ledger, and to nothing that is told of it. -/
theorem ofString_respelled_bill : ∃ l l' b b', ofString {} (billText "1.0") = .ok l ∧
    ofString {} (billText "01.00") = .ok l' ∧ l ≠ l' ∧ Restates l l' ∧ l.balance = .ok b ∧
      l'.balance = .ok b' ∧ TellsSame l l' b b' := by
  have hread :
      (ofString {} (billText "1.0")).toOption ≠ (ofString {} (billText "01.00")).toOption := by
    decide +kernel
  have hbalanced : ((ofString {} (billText "1.0")).toOption.bind fun l =>
      l.balance.toOption).isSome = true := by
    decide +kernel
  have hlines : (splitLines (billText "01.00").toList).1 = (splitLines (billText "1.0").toList).1 ∧
      (splitLines (billText "1.0").toList).2 = ["account AA A".toList, "account BB B".toList,
        "invoice AA -> BB".toList ++ ' ' ::
          ((WrittenAmount.mk ['1'] ['0']).text.toList ++ " 1.1.2024 T".toList)] ∧
      (splitLines (billText "01.00").toList).2 = ["account AA A".toList, "account BB B".toList,
        "invoice AA -> BB".toList ++ ' ' ::
          ((WrittenAmount.mk ['0', '1'] ['0', '0']).text.toList ++ " 1.1.2024 T".toList)] := by
    decide +kernel
  obtain ⟨hheader, hbody, hbody'⟩ := hlines
  have hvalue : (WrittenAmount.mk ['1'] ['0']).toDecimal.toRat =
      (WrittenAmount.mk ['0', '1'] ['0', '0']).toDecimal.toRat := by
    have hdigits : (WrittenAmount.mk ['0', '1'] ['0', '0']).toDecimal =
        (WrittenAmount.mk ['1'] ['0']).toDecimal.padded 1 := by decide
    rw [hdigits, Decimal.toRat_padded]
  have hproper : (WrittenAmount.mk ['1'] ['0']).IsProper ∧
      (WrittenAmount.mk ['0', '1'] ['0', '0']).IsProper :=
    ⟨⟨by simp, by simp, List.cons_ne_nil _ _, List.cons_ne_nil _ _⟩,
      ⟨by simp, by simp, List.cons_ne_nil _ _, List.cons_ne_nil _ _⟩⟩
  have hopens : OpensAmount "invoice AA -> BB".toList :=
    @OpensAmount.invoice "AA" "BB" [] [] _
      ⟨'A', 'A', rfl, rfl, rfl⟩ (by simp) (List.forall_mem_singleton.mpr ⟨'B', 'B', rfl, rfl, rfl⟩)
      ⟨" AA -> BB".toList, rfl, ' ', " -> BB".toList, rfl, rfl, ' ', " BB".toList, rfl, rfl, ' ',
        [], rfl, rfl, rfl⟩
  have hrespells : List.Forall₂ Respells (splitLines (billText "1.0").toList).2
      (splitLines (billText "01.00").toList).2 := by
    rw [hbody, hbody']
    exact .cons (.refl _) (.cons (.refl _) (.cons (.amount hopens rfl hproper.1 hproper.2 hvalue
      (by rintro c ⟨⟩; rfl)) .nil))
  obtain ⟨b₁, hb₁⟩ := Option.isSome_iff_exists.mp hbalanced
  obtain ⟨l, hl, -⟩ := Option.bind_eq_some_iff.mp hb₁
  rw [toOption_eq_some] at hl
  rcases ofString_respelled hheader hrespells with ⟨l₁, l', hl₁, hl', hrestates, hbalance⟩ |
    ⟨-, fault, -, hfault, -⟩
  · obtain rfl := ok_unique hl hl₁
    rcases hbalance with ⟨hoverflow, -⟩ | ⟨b, b', hb, hb', htold⟩
    · rw [hl, Except.toOption, Option.bind_some, hoverflow] at hbalanced
      cases hbalanced
    · refine ⟨l, l', b, b', hl, hl', ?_, hrestates, hb, hb', htold⟩
      rintro rfl
      exact hread (by rw [hl, hl'])
  · cases hl.symm.trans hfault

/-- The bill that Anna passes on is the same bill in other digits. -/
theorem respells_relayLine {w w' : WrittenAmount} (hw : w.IsProper) (hw' : w'.IsProper)
    (hvalue : w.toDecimal.toRat = w'.toDecimal.toRat) :
    Respells (spaced (relayLine w).words) (spaced (relayLine w').words) := by
  have hsplit (w : WrittenAmount) : spaced (relayLine w).words =
      "invoice AA -> AA -> BB".toList ++ ' ' :: (w.text.toList ++ " 1.2.2024 rent".toList) := by
    simp [spaced, relayLine, InvoiceLine.words, WrittenDate.text]
  have hopens : OpensAmount "invoice AA -> AA -> BB".toList :=
    @OpensAmount.invoice "AA" "AA" [] ["BB"] _ ⟨'A', 'A', rfl, rfl, rfl⟩ (by simp)
      (List.forall_mem_cons.mpr ⟨⟨'A', 'A', rfl, rfl, rfl⟩,
        List.forall_mem_singleton.mpr ⟨'B', 'B', rfl, rfl, rfl⟩⟩)
      ⟨" AA -> AA -> BB".toList, rfl, ' ', " -> AA -> BB".toList, rfl, rfl, ' ',
        " AA -> BB".toList, rfl, rfl, ' ', " -> BB".toList, rfl, rfl, ' ', " BB".toList, rfl, rfl,
        ' ', [], rfl, rfl, rfl⟩
  rw [hsplit, hsplit]
  exact .amount hopens rfl hw hw' hvalue (by rintro c ⟨⟩; rfl)

theorem splitLines_relayText {w : WrittenAmount} (hw : w.IsProper) :
    splitLines (relayText w).toList = (februaryHeader, relayLines w) :=
  splitLines_of_pieces_line (List.cons_ne_nil _ _) (isCut_relayText hw).pieces_eq

/-- Two bills that are too large together can be read, and have no balance. -/
theorem exists_balance_overflow {w : WrittenAmount} (hw : w.IsProper)
    (hshort : w.toDecimal.IsShort) (hrange : Decimal.InRange w.toDecimal.toRat)
    (hsum : ¬ Decimal.InRange (w.toDecimal + w.toDecimal).toRat) :
    ∃ l, ofString {} (relayText w) = .ok l ∧ l.balance = .error .overflow := by
  have hshare : Decimal.InRange (w.toDecimal.share 1).toRat := by
    rwa [Decimal.toRat_share_one, Decimal.toRat_round_of_isShort hshort]
  obtain ⟨l, hl, hinvoices, hpayments⟩ := exists_ofString_relayText hw hshare
  refine ⟨l, hl, (wellFormed_of_ofString hl).failsIff_balance.eq_error_iff.mpr ⟨?_, rfl⟩⟩
  rw [hinvoices, hpayments]
  rintro ⟨-, hlast, -⟩
  have hopposite : (-w.toDecimal + -w.toDecimal).toRat = -(w.toDecimal + w.toDecimal).toRat :=
    Decimal.toRat_add_opposite hshort.toRat_neg hshort.toRat_neg
  have hboth : Decimal.InRange (-w.toDecimal + -w.toDecimal).toRat :=
    hlast.summed List.mem_cons_self
  rw [hopposite, Decimal.inRange_neg] at hboth
  exact hsum hboth

/-- Two bills of almost `10 ^ 1000000`, written with one zero behind the point and with two: both
texts are ledgers, and no sum of either can be computed. -/
theorem balance_respelled :
    ∃ text text' l l', (splitLines text'.toList).1 = (splitLines text.toList).1 ∧
      List.Forall₂ Respells (splitLines text.toList).2 (splitLines text'.toList).2 ∧
      ofString {} text = .ok l ∧ ofString {} text' = .ok l' ∧
      l.balance = .error .overflow ∧ l'.balance = .error .overflow := by
  have hproper := WrittenAmount.isProper_vast 999999 '9' rfl
  have hshort := WrittenAmount.isShort_vast 999999 '9' rfl
  have hrange := WrittenAmount.inRange_vast 999999 '9' rfl (by decide)
  have hsum := WrittenAmount.not_inRange_add_vast (n := 999999) (by decide)
  generalize WrittenAmount.vast 999999 '9' = w at hproper hshort hrange hsum
  have hvalue := w.toRat_withZero.symm
  have hproper' := hproper.withZero
  obtain ⟨l, hl, hbalance⟩ := exists_balance_overflow hproper hshort hrange hsum
  obtain ⟨l', hl', hbalance'⟩ := exists_balance_overflow hproper'
    ((Decimal.isShort_congr hvalue).mp hshort) (hvalue ▸ hrange)
    (by rwa [← Decimal.toRat_add_congr hvalue hvalue])
  refine ⟨_, _, l, l', ?_, ?_, hl, hl', hbalance, hbalance'⟩
  · rw [splitLines_relayText hproper, splitLines_relayText hproper']
  · have hline := respells_relayLine hproper hproper' hvalue
    rw [splitLines_relayText hproper, splitLines_relayText hproper', relayLines, relayLines]
    exact List.rel_append
      (List.rel_append (List.forall₂_same.mpr fun _ _ => .refl _) (.cons hline .nil))
      (.cons hline .nil)

end Ledger

end HouseLedger
