import HouseLedger.Proofs.Ledger.Provenance
import HouseLedger.Proofs.Report.Faults

/-!
# The lines of a report

Names and notes are free text and stand in a report as they are. Those of a ledger come from its
lines and hold no line feed, and nothing else that is shown does (`Report.oneLine_sectionLine` and
its like). So a report splits at its line feeds into exactly the lines that it was put together
from (`Report.splitOn_ofLines`):

* an overview into its title and four blocks (`Report.OverviewShape`);
* a statement into its title, the sections that are not empty, and what is outstanding
  (`Report.StatementShape`).

`Ledger.reports_lines` says so of every ledger that is read and has a balance. What a name or a
note looks like does not matter: a carriage return or a form feed in it ends no line.
-/

namespace HouseLedger

open Outcome

/-! ## Texts on one line -/

/-- The text holds no line feed. -/
def OneLine (text : String) : Prop := '\n' ∉ text.toList

instance (text : String) : Decidable (OneLine text) :=
  inferInstanceAs (Decidable ('\n' ∉ text.toList))

theorem oneLine_append {text more : String} :
    OneLine (text ++ more) ↔ OneLine text ∧ OneLine more := by
  simp [OneLine, not_or]

theorem oneLine_repr (n : ℕ) : OneLine (Nat.repr n) := by
  intro h
  rw [Nat.toList_repr] at h
  simpa using Nat.isDigit_of_mem_toDigits (by decide) (by decide) h

theorem IsAcronym.oneLine {acronym : String} (h : IsAcronym acronym) : OneLine acronym := by
  obtain ⟨a, b, ha, hb, rfl⟩ := h
  have hfeed : ∀ c : Char, c.isUpper = true → '\n' ≠ c := by
    rintro c hc rfl
    exact absurd hc (by decide)
  simp [OneLine, hfeed a ha, hfeed b hb]

theorem Date.oneLine_toString (d : Date) : OneLine d.toString := by
  simp +decide [Date.toString, toString, oneLine_append, oneLine_repr]

namespace Amount

theorem oneLine_writeCents (cents : ℕ) : OneLine (writeCents cents) := by
  have hdigit : ∀ n, '\n' ≠ Nat.digitChar n := fun n => Ne.symm (Nat.digitChar_ne '\n' (by decide))
  have hunits := oneLine_repr (cents / 100)
  rw [OneLine, Nat.toList_repr] at hunits
  rw [OneLine, toList_writeCents, centsText]
  split
  · simp [hunits]
  · simp [hunits, hdigit]

variable {x : Decimal} {currency shown : String}

theorem oneLine_display (hcurrency : OneLine currency) (h : display x currency = .ok shown) :
    OneLine shown := by
  obtain ⟨-, -, rfl⟩ := display_eq_ok_iff.mp h
  simp +decide [oneLine_append, oneLine_writeCents, hcurrency]

theorem oneLine_displaySigned (hcurrency : OneLine currency)
    (h : displaySigned x currency = .ok shown) : OneLine shown := by
  obtain ⟨-, -, rfl⟩ := displaySigned_eq_ok_iff.mp h
  rw [signedCents]
  split
  · simp +decide [oneLine_append, oneLine_writeCents, hcurrency]
  · simp +decide [oneLine_append, oneLine_writeCents, hcurrency]

end Amount

/-! ## Lines of a report -/

/-- Acronyms and names that each stand on one line. -/
def Registry.OnLines (r : Registry) : Prop :=
  ∀ a ∈ r.accounts, OneLine a.acronym ∧ OneLine a.name

theorem Registry.mem_of_get {r : Registry} {i : ℤ} {a : Account} (h : r.get i = .ok a) :
    a ∈ r.accounts := by
  unfold get at?  at h
  grind [List.mem_of_getElem?]

namespace Report

variable {r : Registry} {currency line : String} {t : Transaction}

theorem oneLine_fillTo {width : ℕ} {text : String} :
    OneLine (fillTo width text) ↔ OneLine text := by
  simp [fillTo, OneLine]

theorem oneLine_transactionLine (hr : r.OnLines) (hcurrency : OneLine currency)
    (hnote : OneLine t.note) (h : transactionLine r currency t = .ok line) : OneLine line := by
  unfold transactionLine at h
  obtain ⟨sender, hsender, h⟩ := bind_eq_ok.mp h
  obtain ⟨recipient, hrecipient, h⟩ := bind_eq_ok.mp h
  obtain ⟨amount, hamount, h⟩ := bind_eq_ok.mp h
  rw [← Except.ok.inj h]
  simp +decide [toString, oneLine_append, (hr _ (Registry.mem_of_get hsender)).1,
    (hr _ (Registry.mem_of_get hrecipient)).1, Amount.oneLine_display hcurrency hamount,
    t.date.oneLine_toString, hnote]

theorem oneLine_entryLine {e : Entry} (hr : r.OnLines) (hcurrency : OneLine currency)
    (h : entryLine r currency e = .ok line) : OneLine line := by
  unfold entryLine at h
  obtain ⟨sender, hsender, h⟩ := bind_eq_ok.mp h
  obtain ⟨recipient, hrecipient, h⟩ := bind_eq_ok.mp h
  obtain ⟨amount, hamount, h⟩ := bind_eq_ok.mp h
  rw [← Except.ok.inj h]
  simp +decide [toString, oneLine_append, (hr _ (Registry.mem_of_get hsender)).1,
    (hr _ (Registry.mem_of_get hrecipient)).1, Amount.oneLine_displaySigned hcurrency hamount]

theorem oneLine_sectionLine {c : Counterpart} (hr : r.OnLines) (hcurrency : OneLine currency)
    (hnote : OneLine t.note) (h : sectionLine r currency c t = .ok line) : OneLine line := by
  unfold sectionLine at h
  obtain ⟨other, hother, h⟩ := bind_eq_ok.mp h
  obtain ⟨amount, hamount, h⟩ := bind_eq_ok.mp h
  rw [← Except.ok.inj h]
  have hpreposition : OneLine c.preposition := by cases c <;> decide
  simp +decide [oneLine_append, oneLine_fillTo, (hr _ (Registry.mem_of_get hother)).2,
    Amount.oneLine_display hcurrency hamount, t.date.oneLine_toString, hnote, hpreposition]

theorem oneLine_debtLine {d : Debt} (hr : r.OnLines) (hcurrency : OneLine currency)
    (h : debtLine r currency d = .ok line) : OneLine line := by
  unfold debtLine at h
  obtain ⟨debtor, hdebtor, h⟩ := bind_eq_ok.mp h
  obtain ⟨creditor, hcreditor, h⟩ := bind_eq_ok.mp h
  obtain ⟨amount, hamount, h⟩ := bind_eq_ok.mp h
  rw [← Except.ok.inj h]
  simp +decide [toString, oneLine_append, oneLine_fillTo, (hr _ (Registry.mem_of_get hdebtor)).2,
    (hr _ (Registry.mem_of_get hcreditor)).2, Amount.oneLine_display hcurrency hamount]

/-! ## The shape of a report -/

/-- A text of lines splits at its line feeds into them and an empty piece behind the last. -/
theorem splitOn_ofLines {lines : List String} (h : ∀ line ∈ lines, OneLine line) :
    (ofLines lines).toList.splitOn '\n' = lines.map String.toList ++ [[]] := by
  have hjoined : (ofLines lines).toList =
      ['\n'].intercalate (lines.map String.toList ++ [[]]) := by
    clear h
    induction lines with
    | nil => rfl
    | cons line lines ih =>
      rw [List.map_cons, List.cons_append, List.intercalate_cons_of_ne_nil (by simp), ← ih]
      simp [ofLines]
  rw [hjoined]
  refine List.splitOn_intercalate '\n' (fun piece hpiece => ?_) (by simp)
  rcases List.mem_append.mp hpiece with hpiece | hpiece
  · obtain ⟨line, hline, rfl⟩ := List.mem_map.mp hpiece
    exact h line hline
  · rw [List.mem_singleton.mp hpiece]
    exact List.not_mem_nil

/-- Each element has one line, which shows it, in the order of the elements. -/
def Shows {α : Type} (f : α → Except Fault String) (xs : List α) (lines : List String) : Prop :=
  List.Forall₂ (fun x line => f x = .ok line) xs lines

theorem Shows.oneLine {α : Type} {f : α → Except Fault String} {xs : List α} {lines : List String}
    (h : Shows f xs lines) (hf : ∀ x ∈ xs, ∀ line, f x = .ok line → OneLine line) :
    ∀ line ∈ lines, OneLine line := by
  intro line hline
  obtain ⟨x, hx, hxline⟩ := exists_of_forall₂ h.flip hline
  exact hf x hx line hxline

/-- An overview has its title and four blocks, each with a heading and behind an empty line. -/
def OverviewShape (l : Ledger) (b : Balance) (currency : String) (lines : List String) : Prop :=
  ∃ invoices payments entries,
    Shows (transactionLine l.accounts currency) l.invoices invoices ∧
    Shows (transactionLine l.accounts currency) l.payments payments ∧
    Shows (entryLine l.accounts currency) b.entries entries ∧
    lines = ["Accounting date " ++ l.referenceDate.toString, "", "Accounts:"] ++
      l.accounts.accounts.map (fun a => a.acronym ++ " -> " ++ a.name) ++
      ["", "Invoices:"] ++ invoices ++ ["", "Payments:"] ++ payments ++ ["", "Balance:"] ++ entries

/-- A section has no line at all, or an empty line, a heading and one line for each of its
transactions. -/
inductive SectionShape (r : Registry) (currency heading : String) (c : Counterpart) :
    List Transaction → List String → Prop
  | empty : SectionShape r currency heading c [] []
  | headed {ts : List Transaction} {lines : List String} :
      ts ≠ [] → Shows (sectionLine r currency c) ts lines →
      SectionShape r currency heading c ts ("" :: (heading ++ ":") :: lines)

/-- What is outstanding has one line for each debt, and a dash exactly if there is none. -/
structure OutstandingShape (r : Registry) (currency : String) (debts : List Debt)
    (lines : List String) : Prop where
  dash_iff : lines = ["-"] ↔ debts = []
  shows : debts ≠ [] → Shows (debtLine r currency) debts lines

/-- A statement has its title, the sections that are not empty, and what is outstanding. -/
def StatementShape (r : Registry) (currency : String) (s : Statement) (lines : List String) :
    Prop :=
  ∃ toPay credited paid received outstanding,
    SectionShape r currency "To pay" .recipient s.toPay toPay ∧
    SectionShape r currency "Credited" .sender s.credited credited ∧
    SectionShape r currency "Paid" .recipient s.paid paid ∧
    SectionShape r currency "Received" .sender s.received received ∧
    OutstandingShape r currency s.outstanding outstanding ∧
    lines = [title s] ++ toPay ++ credited ++ paid ++ received ++ ["", "Outstanding:"] ++
      outstanding

/-! ## Reports have their shape -/

variable {l : Ledger} {b : Balance} {s : Statement} {shown : String}

theorem overviewShape_of_eq_ok (h : overview l b currency = .ok shown) :
    ∃ lines, shown = ofLines lines ∧ OverviewShape l b currency lines := by
  unfold overview overviewLines at h
  obtain ⟨lines, hlines, h⟩ := bind_eq_ok.mp h
  obtain ⟨invoices, hinvoices, hlines⟩ := bind_eq_ok.mp hlines
  obtain ⟨payments, hpayments, hlines⟩ := bind_eq_ok.mp hlines
  obtain ⟨entries, hentries, hlines⟩ := bind_eq_ok.mp hlines
  exact ⟨lines, (Except.ok.inj h).symm, invoices, payments, entries,
    forall₂_of_mapM_eq_ok hinvoices, forall₂_of_mapM_eq_ok hpayments,
    forall₂_of_mapM_eq_ok hentries, (Except.ok.inj hlines).symm⟩

theorem sectionShape_of_eq_ok {heading : String} {c : Counterpart} {ts : List Transaction}
    {lines : List String} (h : sectionLines r currency heading c ts = .ok lines) :
    SectionShape r currency heading c ts lines := by
  cases ts with
  | nil =>
    rw [← Except.ok.inj h]
    exact .empty
  | cons t ts =>
    obtain ⟨shown, hshown, h⟩ := bind_eq_ok.mp h
    rw [← Except.ok.inj h]
    exact .headed (List.cons_ne_nil t ts) (forall₂_of_mapM_eq_ok hshown)

/-- The line of a debt reaches over the column of the names. -/
theorem amountColumn_le_length_debtLine {d : Debt} (h : debtLine r currency d = .ok line) :
    amountColumn ≤ line.length := by
  unfold debtLine at h
  obtain ⟨debtor, -, h⟩ := bind_eq_ok.mp h
  obtain ⟨creditor, -, h⟩ := bind_eq_ok.mp h
  obtain ⟨amount, -, h⟩ := bind_eq_ok.mp h
  rw [← Except.ok.inj h, fillTo]
  simp only [String.length_append, String.length_ofList, List.length_replicate]
  omega

theorem outstandingShape_of_mapM {debts : List Debt} {lines : List String}
    (h : debts.mapM (debtLine r currency) = .ok lines) :
    OutstandingShape r currency debts (if debts.isEmpty then ["-"] else lines) := by
  cases debts with
  | nil => exact ⟨iff_of_true rfl rfl, fun hne => absurd rfl hne⟩
  | cons d debts =>
    have hshows := forall₂_of_mapM_eq_ok h
    refine ⟨iff_of_false ?_ (List.cons_ne_nil d debts), fun _ => hshows⟩
    rintro rfl
    obtain ⟨line, _, hline, -, hdash⟩ := List.forall₂_cons_left_iff.mp hshows
    rw [← (List.cons_eq_cons.mp hdash).1] at hline
    exact absurd (amountColumn_le_length_debtLine hline) (by decide)

theorem statementShape_of_eq_ok (h : statement s r currency = .ok shown) :
    ∃ lines, shown = ofLines lines ∧ StatementShape r currency s lines := by
  unfold statement statementLines at h
  obtain ⟨lines, hlines, h⟩ := bind_eq_ok.mp h
  obtain ⟨toPay, htoPay, hlines⟩ := bind_eq_ok.mp hlines
  obtain ⟨credited, hcredited, hlines⟩ := bind_eq_ok.mp hlines
  obtain ⟨paid, hpaid, hlines⟩ := bind_eq_ok.mp hlines
  obtain ⟨received, hreceived, hlines⟩ := bind_eq_ok.mp hlines
  obtain ⟨debts, hdebts, hlines⟩ := bind_eq_ok.mp hlines
  exact ⟨lines, (Except.ok.inj h).symm, toPay, credited, paid, received, _,
    sectionShape_of_eq_ok htoPay, sectionShape_of_eq_ok hcredited, sectionShape_of_eq_ok hpaid,
    sectionShape_of_eq_ok hreceived, outstandingShape_of_mapM hdebts, (Except.ok.inj hlines).symm⟩

/-! ## No line is broken -/

theorem OverviewShape.oneLine {lines : List String} (h : OverviewShape l b currency lines)
    (hr : l.accounts.OnLines) (hnotes : ∀ t ∈ l.invoices ++ l.payments, OneLine t.note)
    (hcurrency : OneLine currency) : ∀ line ∈ lines, OneLine line := by
  obtain ⟨invoices, payments, entries, hinvoices, hpayments, hentries, rfl⟩ := h
  have hinvoices' := hinvoices.oneLine fun t ht _ =>
    oneLine_transactionLine hr hcurrency (hnotes t (List.mem_append_left _ ht))
  have hpayments' := hpayments.oneLine fun t ht _ =>
    oneLine_transactionLine hr hcurrency (hnotes t (List.mem_append_right _ ht))
  have hentries' := hentries.oneLine fun _ _ _ => oneLine_entryLine hr hcurrency
  have haccounts : ∀ a ∈ l.accounts.accounts, OneLine (a.acronym ++ " -> " ++ a.name) := by
    intro a ha
    simp +decide [oneLine_append, hr a ha]
  have htitle : OneLine ("Accounting date " ++ l.referenceDate.toString) := by
    simp +decide [oneLine_append, Date.oneLine_toString]
  simp +decide only [List.forall_mem_append, List.forall_mem_cons, List.forall_mem_map, htitle,
    true_and, and_true]
  exact ⟨⟨⟨haccounts, hinvoices'⟩, hpayments'⟩, hentries'⟩

theorem SectionShape.oneLine {heading : String} {c : Counterpart} {ts : List Transaction}
    {lines : List String} (h : SectionShape r currency heading c ts lines) (hr : r.OnLines)
    (hcurrency : OneLine currency) (hnotes : ∀ t ∈ ts, OneLine t.note)
    (hheading : OneLine heading) : ∀ line ∈ lines, OneLine line := by
  cases h with
  | empty => exact fun _ hline => absurd hline List.not_mem_nil
  | headed _ hshows =>
    have hlines := hshows.oneLine fun t ht _ => oneLine_sectionLine hr hcurrency (hnotes t ht)
    simp only [List.forall_mem_cons, oneLine_append]
    exact ⟨by decide, ⟨hheading, by decide⟩, hlines⟩

theorem OutstandingShape.oneLine {debts : List Debt} {lines : List String}
    (h : OutstandingShape r currency debts lines) (hr : r.OnLines) (hcurrency : OneLine currency) :
    ∀ line ∈ lines, OneLine line := by
  by_cases hdebts : debts = []
  · rw [h.dash_iff.mpr hdebts]
    simp +decide
  · exact (h.shows hdebts).oneLine fun _ _ _ => oneLine_debtLine hr hcurrency

theorem StatementShape.oneLine {lines : List String} (h : StatementShape r currency s lines)
    (hr : r.OnLines) (hname : OneLine s.account.name)
    (hnotes : ∀ t ∈ s.transactions, OneLine t.note) (hcurrency : OneLine currency) :
    ∀ line ∈ lines, OneLine line := by
  obtain ⟨toPay, credited, paid, received, outstanding, htoPay, hcredited, hpaid, hreceived,
    houtstanding, rfl⟩ := h
  simp only [Statement.transactions, List.forall_mem_append] at hnotes
  obtain ⟨⟨⟨hnotes₁, hnotes₂⟩, hnotes₃⟩, hnotes₄⟩ := hnotes
  have htitle : OneLine (title s) := by
    simp +decide [title, toString, oneLine_append, Date.oneLine_toString, hname]
  have htoPay' := htoPay.oneLine hr hcurrency hnotes₁ (by decide)
  have hcredited' := hcredited.oneLine hr hcurrency hnotes₂ (by decide)
  have hpaid' := hpaid.oneLine hr hcurrency hnotes₃ (by decide)
  have hreceived' := hreceived.oneLine hr hcurrency hnotes₄ (by decide)
  have houtstanding' := houtstanding.oneLine hr hcurrency
  simp +decide only [List.forall_mem_append, List.forall_mem_cons, htitle, true_and,
    and_true]
  exact ⟨⟨⟨⟨htoPay', hcredited'⟩, hpaid'⟩, hreceived'⟩, houtstanding'⟩

end Report

namespace Ledger

theorem onLines_of_ofString {options : Options} {text : String} {l : Ledger}
    (h : ofString options text = .ok l) : l.accounts.OnLines := fun a ha =>
  have hwritten := (isWritten_of_ofString h).1 a ha
  ⟨hwritten.1.oneLine, hwritten.2.2⟩

/-- A report on a ledger that is read, with its balance, has, at its line feeds, the lines that the
ledger gives it and no other, whatever names and notes say: the overview its title and four blocks,
a statement its title, the sections that are not empty, and what is outstanding. -/
theorem reports_lines {options : Options} {text currency : String} {l : Ledger}
    (h : ofString options text = .ok l) (hcurrency : '\n' ∉ currency.toList) :
    FailsIff .overflow (¬ Balance.Nettable [] (l.invoices ++ l.payments)) l.balance ∧
      ∀ b, l.balance = .ok b →
        (∀ shown, Report.overview l b currency = .ok shown →
          ∃ lines, Report.OverviewShape l b currency lines ∧
            shown.toList.splitOn '\n' = lines.map String.toList ++ [[]]) ∧
        ∀ acronym s shown, Statement.ofAcronym l b acronym = .ok s →
          Report.statement s l.accounts currency = .ok shown →
          ∃ lines, Report.StatementShape l.accounts currency s lines ∧
            shown.toList.splitOn '\n' = lines.map String.toList ++ [[]] := by
  have hl := wellFormed_of_ofString h
  have haccounts := onLines_of_ofString h
  have hnotes : ∀ t ∈ l.invoices ++ l.payments, OneLine t.note := fun t ht =>
    ((isWritten_of_ofString h).2 t ht).2
  refine ⟨hl.failsIff_balance, fun b _ =>
    ⟨fun shown hshown => ?_, fun acronym s shown hs hshown => ?_⟩⟩
  · obtain ⟨lines, rfl, hshape⟩ := Report.overviewShape_of_eq_ok hshown
    exact ⟨lines, hshape,
      Report.splitOn_ofLines (hshape.oneLine haccounts hnotes hcurrency)⟩
  · obtain ⟨lines, rfl, hshape⟩ := Report.statementShape_of_eq_ok hshown
    have hname : OneLine s.account.name := by
      obtain ⟨index, -, hs⟩ := bind_eq_ok.mp hs
      obtain ⟨account, haccount, hs⟩ := bind_eq_ok.mp hs
      obtain ⟨debts, -, hs⟩ := bind_eq_ok.mp hs
      rw [← Except.ok.inj hs]
      exact (haccounts account (Registry.mem_of_get haccount)).2
    have hnotes' : ∀ t ∈ s.transactions, OneLine t.note := fun t ht =>
      hnotes t ((Statement.mem_of_ofAcronym hl.distinct hs).1 t ht)
    exact ⟨lines, hshape,
      Report.splitOn_ofLines (hshape.oneLine haccounts hname hnotes' hcurrency)⟩

/-- A name and a note that look as if they went on with further lines. -/
def forgeryText : String :=
  "accounting_date 1.2.2024\naccount AA Anna\x0cOutstanding:\x0c-\naccount BB Bert\n" ++
    "payment AA -> BB 2.00 1.2.2024 Tea\r\rBalance:\u2028BB -> AA 9.- CHF\n"

/-- The ledger of the text. -/
def forgeryLedger : Ledger where
  referenceDate := februaryFirst
  accounts := ⟨[⟨"AA", "Anna\x0cOutstanding:\x0c-"⟩, ⟨"BB", "Bert"⟩], true⟩
  invoices := []
  payments := [⟨0, 1, ⟨false, 200, -2⟩, februaryFirst, "Tea\r\rBalance:\u2028BB -> AA 9.- CHF",
    .payment⟩]

/-- The overview still has one line for each account, one for the payment, with all that its note
says, and one for the balance. -/
theorem reports_lines_forgery :
    ∃ b shown s shown', ofString {} forgeryText = .ok forgeryLedger ∧
      forgeryLedger.balance = .ok b ∧ Report.overview forgeryLedger b "CHF" = .ok shown ∧
      shown.toList.splitOn '\n' =
        ["Accounting date 1.2.2024", "", "Accounts:", "AA -> Anna\x0cOutstanding:\x0c-",
          "BB -> Bert", "", "Invoices:", "", "Payments:",
          "AA -> BB 2.- CHF\t1.2.2024\tTea\r\rBalance:\u2028BB -> AA 9.- CHF", "", "Balance:",
          "AA -> BB 2.- CHF"].map String.toList ++ [[]] ∧
      Statement.ofAcronym forgeryLedger b "AA" = .ok s ∧
      Report.statement s forgeryLedger.accounts "CHF" = .ok shown' ∧
      ∃ lines, Report.StatementShape forgeryLedger.accounts "CHF" s lines ∧
        shown'.toList.splitOn '\n' = lines.map String.toList ++ [[]] := by
  have hl : ofString {} forgeryText = .ok forgeryLedger := toOption_eq_some.mp (by decide +kernel)
  let b : Balance := ⟨[⟨0, 1, ⟨false, 200, -2⟩⟩]⟩
  have hb : forgeryLedger.balance = .ok b := toOption_eq_some.mp (by decide +kernel)
  have hread : ((Report.overview forgeryLedger b "CHF").toOption.bind fun _ =>
      (Statement.ofAcronym forgeryLedger b "AA").toOption.bind fun s =>
        (Report.statement s forgeryLedger.accounts "CHF").toOption).isSome = true := by
    decide +kernel
  obtain ⟨shown', hread⟩ := Option.isSome_iff_exists.mp hread
  obtain ⟨shown, hshown, hread⟩ := Option.bind_eq_some_iff.mp hread
  obtain ⟨s, hs, hshown'⟩ := Option.bind_eq_some_iff.mp hread
  rw [toOption_eq_some] at hshown hs hshown'
  obtain ⟨-, hreports⟩ := reports_lines hl (by decide : '\n' ∉ "CHF".toList)
  obtain ⟨hoverview, hstatement⟩ := hreports b hb
  refine ⟨b, shown, s, shown', hl, hb, hshown, ?_, hs, hshown', hstatement "AA" s shown' hs hshown'⟩
  obtain ⟨_, ⟨_, _, _, hinvoices, hpayments, hentries, rfl⟩, hsplit⟩ := hoverview shown hshown
  -- There is no invoice, one payment and one entry.
  obtain rfl := List.forall₂_nil_left_iff.mp hinvoices
  obtain ⟨payment, _, hpayment, hnone, rfl⟩ := List.forall₂_cons_left_iff.mp hpayments
  obtain rfl := List.forall₂_nil_left_iff.mp hnone
  obtain ⟨entry, _, hentry, hnone, rfl⟩ := List.forall₂_cons_left_iff.mp hentries
  obtain rfl := List.forall₂_nil_left_iff.mp hnone
  obtain rfl : payment = "AA -> BB 2.- CHF\t1.2.2024\tTea\r\rBalance:\u2028BB -> AA 9.- CHF" :=
    ok_unique hpayment (toOption_eq_some.mp (by decide +kernel))
  obtain rfl : entry = "AA -> BB 2.- CHF" :=
    ok_unique hentry (toOption_eq_some.mp (by decide +kernel))
  have htitle : "Accounting date " ++ forgeryLedger.referenceDate.toString =
      "Accounting date 1.2.2024" := by
    decide +kernel
  rw [hsplit, htitle]
  rfl

end Ledger

end HouseLedger
