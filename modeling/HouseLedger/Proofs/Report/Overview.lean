import HouseLedger.Proofs.Amount
import HouseLedger.Proofs.Statement.Debts
import HouseLedger.Report.Overview

/-!
# The overview and the statements

The overview has a line for each entry of a balance, and the statements of the two accounts
list the debt that the entry leaves. `Report.Agrees` says that line and statements tell the
same: nothing is open, or there is one debt of the cents that are shown, of the first account if
there is a minus sign.

They do exactly if the balance comes to the same cents whether or not it is rounded to
`Decimal.precision` digits before (`Report.overview_agrees`): a statement rounds once, and the
overview twice. A balance that was ever added to is rounded already, so that the two can differ
for a single payment of more digits only.
-/

namespace HouseLedger

open Outcome
open Decimal (nearestCents precision powerOfTen)

/-- Only decimals of more digits than sums keep can be rounded to other cents: what else is rounded
is below the finest place. -/
theorem Decimal.nearestCents_round_of_digitCount_le {x : Decimal}
    (h : Decimal.digitCount x.coefficient ≤ precision) :
    nearestCents x.round.toRat = nearestCents x.toRat := by
  by_cases hplace : Decimal.finestPlace ≤ x.exponent
  · have hshort := Decimal.isShort_of_surplus_eq_zero
      (Decimal.surplus_eq_zero_iff.mpr ⟨h, hplace⟩)
    rw [Decimal.toRat_round_eq_iff.mpr hshort]
  · have hdigits : (x.coefficient : ℚ) ≤ 10 ^ 28 := by
      exact_mod_cast ((Decimal.digitCount_le_iff (by decide)).mp h).le
    have hscale : (10 : ℚ) ^ x.exponent ≤ 10 ^ (-31 : ℤ) := by
      refine zpow_le_zpow_right₀ (by norm_num) ?_
      have hfinest : Decimal.finestPlace = -1000026 := rfl
      omega
    have htiny : |x.toRat| ≤ 1 / 1000 := by
      rw [Decimal.abs_toRat]
      calc (x.coefficient : ℚ) * 10 ^ x.exponent ≤ 10 ^ 28 * 10 ^ (-31 : ℤ) := by gcongr
        _ = 1 / 1000 := by norm_num
    rw [Decimal.nearestCents_eq_zero (by linarith : |x.toRat| < 1 / 200),
      Decimal.nearestCents_eq_zero (by linarith [Decimal.abs_toRat_round_le x])]

namespace Report

/-! ## Lines of the overview -/

/-- What the overview shows of two accounts. -/
def entryText (sender recipient : Account) (minus : Bool) (cents : ℕ) (currency : String) :
    String :=
  s!"{sender.acronym} -> {recipient.acronym} " ++ Amount.signedCents minus cents ++ " " ++ currency

theorem entryText_inj {sender recipient : Account} {minus minus' : Bool} {m n : ℕ}
    {currency : String}
    (h : entryText sender recipient minus m currency =
      entryText sender recipient minus' n currency) : minus = minus' ∧ m = n := by
  unfold entryText at h
  rw [String.append_left_inj, String.append_left_inj, String.append_right_inj] at h
  exact Amount.signedCents_inj h

variable {accounts : Registry} {currency : String} {e : Entry}

theorem entryLine_eq_ok {line : String} (h : entryLine accounts currency e = .ok line)
    {sender recipient : Account} (hsender : accounts.get e.sender = .ok sender)
    (hrecipient : accounts.get e.recipient = .ok recipient) :
    e.balance.hundredths < powerOfTen precision ∧
      line = entryText sender recipient (decide (nearestCents e.balance.toRat < 0))
        e.balance.round.hundredths currency := by
  unfold entryLine at h
  rw [hsender, bind_ok, hrecipient, bind_ok] at h
  obtain ⟨amount, hamount, h⟩ := bind_eq_ok.mp h
  obtain ⟨hsmall, -, rfl⟩ := Amount.displaySigned_eq_ok_iff.mp hamount
  refine ⟨hsmall, (Except.ok.inj h).symm.trans ?_⟩
  simp only [entryText, String.append_assoc]
  rfl

/-- An overview has the line of each entry. -/
theorem mem_of_overview {l : Ledger} {b : Balance} {shown : String}
    (h : overview l b currency = .ok shown) :
    ∃ lines, shown = ofLines lines ∧
      ∀ e ∈ b.entries, ∃ line ∈ lines, entryLine l.accounts currency e = .ok line := by
  unfold overview at h
  obtain ⟨lines, hlines, h⟩ := bind_eq_ok.mp h
  refine ⟨lines, (Except.ok.inj h).symm, fun e he => ?_⟩
  unfold overviewLines at hlines
  obtain ⟨invoices, -, hlines⟩ := bind_eq_ok.mp hlines
  obtain ⟨payments, -, hlines⟩ := bind_eq_ok.mp hlines
  obtain ⟨entries, hentries, hlines⟩ := bind_eq_ok.mp hlines
  obtain ⟨line, hmem, hline⟩ := exists_ok_of_mapM_eq_ok hentries e he
  refine ⟨line, ?_, hline⟩
  rw [← Except.ok.inj hlines]
  exact List.mem_append_right _ hmem

/-! ## Two views of an entry -/

/-- The debts that a statement lists between the accounts of an entry. -/
def debtsOn (e : Entry) (s : Statement) : List Debt :=
  s.outstanding.filter (Debt.isBetween e.sender e.recipient)

/-- The overview shows, and the two statements list, the same between the accounts of an
entry. -/
structure Agrees (e : Entry) (minus : Bool) (cents : ℕ) (s s' : Statement) : Prop where
  settled_iff : cents = 0 ↔ debtsOn e s = [] ∧ debtsOn e s' = []
  debt : cents ≠ 0 → ∃ d, debtsOn e s = [d] ∧ debtsOn e s' = [d] ∧
    d.amount = ⟨false, cents, Decimal.centExponent⟩ ∧ (minus = true ↔ d.debtor = e.sender)

/-- Line and statements agree if the line shows the cents of the entry. -/
theorem agrees_iff {s s' : Statement} (hne : e.sender ≠ e.recipient)
    (hs : debtsOn e s = e.claim.toList) (hs' : debtsOn e s' = e.claim.toList) (cents : ℕ) :
    Agrees e (decide (nearestCents e.balance.toRat < 0)) cents s s' ↔
      cents = e.balance.hundredths := by
  have habs := Decimal.natAbs_nearestCents_toRat e.balance
  by_cases hzero : nearestCents e.balance.toRat = 0
  · have hclaim : e.claim = none := by
      rw [Entry.claim, Debt.ofClaim, Decimal.nearestCents_neg, if_pos (neg_eq_zero.mpr hzero)]
    rw [hclaim, Option.toList_none] at hs hs'
    rw [← habs, hzero, Int.natAbs_zero]
    constructor
    · exact fun h => h.settled_iff.mpr ⟨hs, hs'⟩
    · exact fun h => ⟨iff_of_true h ⟨hs, hs'⟩, fun hcents => absurd h hcents⟩
  · have hclaim : e.claim = some ⟨if 0 < -e.balance.toRat then e.sender else e.recipient,
        if 0 < -e.balance.toRat then e.recipient else e.sender,
        ⟨false, e.balance.hundredths, Decimal.centExponent⟩⟩ := by
      rw [Entry.claim, Debt.ofClaim, Decimal.nearestCents_neg, if_neg (neg_ne_zero.mpr hzero),
        Int.natAbs_neg, habs]
    rw [hclaim, Option.toList_some] at hs hs'
    have hcents : e.balance.hundredths ≠ 0 := by
      rw [← habs]
      exact Int.natAbs_ne_zero.mpr hzero
    have hopen : debtsOn e s ≠ [] := by
      rw [hs]
      exact List.cons_ne_nil _ _
    constructor
    · intro h
      obtain ⟨d, hd, -, hamount, -⟩ := h.debt fun hnone => hopen (h.settled_iff.mp hnone).1
      obtain rfl := List.singleton_inj.mp (hs.symm.trans hd)
      exact (congrArg Decimal.coefficient hamount).symm
    · rintro rfl
      refine ⟨iff_of_false hcents fun h => hopen h.1, fun _ => ⟨_, hs, hs', rfl, ?_⟩⟩
      rw [decide_eq_true_iff, Decimal.nearestCents_lt_zero_iff hzero, ← neg_pos]
      by_cases hneg : 0 < -e.balance.toRat
      · simp [hneg]
      · simp [hneg, hne.symm]

/-! ## Whole reports -/

/-- A balance that is shown in an overview is rounded to the cent without an error. -/
theorem lt_of_overview {l : Ledger} (hl : l.WellFormed) {b : Balance} (hb : l.balance = .ok b)
    {shown : String} (hshown : overview l b currency = .ok shown) :
    ∀ e ∈ b.entries, |e.balance.toRat| < 10 ^ 26 - 1 / 200 := by
  obtain ⟨lines, -, hlines⟩ := mem_of_overview hshown
  intro e he
  obtain ⟨i, j, sender, recipient, hi, hj, hsender, hrecipient⟩ := hl.exists_accounts hb he
  obtain ⟨line, -, hline⟩ := hlines e he
  have hsmall := (entryLine_eq_ok hline (hi ▸ Registry.get_of_getElem? hsender)
    (hj ▸ Registry.get_of_getElem? hrecipient)).1
  exact (Decimal.hundredths_lt_iff _).mp hsmall

/-- Both accounts of an entry have a statement, and it lists what the entry leaves. -/
theorem exists_statements {l : Ledger} (hl : l.WellFormed) {b : Balance} (hb : l.balance = .ok b)
    (hsmall : ∀ e ∈ b.entries, |e.balance.toRat| < 10 ^ 26 - 1 / 200) (he : e ∈ b.entries) :
    ∃ sender recipient s s',
      l.accounts.get e.sender = .ok sender ∧ l.accounts.get e.recipient = .ok recipient ∧
      Statement.ofAcronym l b sender.acronym = .ok s ∧
      Statement.ofAcronym l b recipient.acronym = .ok s' ∧
      debtsOn e s = e.claim.toList ∧ debtsOn e s' = e.claim.toList := by
  have wf := (hl.running hb).wf
  obtain ⟨i, j, sender, recipient, hi, hj, hsender, hrecipient⟩ := hl.exists_accounts hb he
  obtain ⟨debts, hdebts, hfilter⟩ := wf.debtsOf_entry hsmall he (.inl rfl)
  obtain ⟨debts', hdebts', hfilter'⟩ := wf.debtsOf_entry hsmall he (.inr rfl)
  exact ⟨sender, recipient, _, _, hi ▸ Registry.get_of_getElem? hsender,
    hj ▸ Registry.get_of_getElem? hrecipient,
    Statement.ofAcronym_eq_ok hl.distinct hsender (hi ▸ hdebts),
    Statement.ofAcronym_eq_ok hl.distinct hrecipient (hj ▸ hdebts'), hfilter, hfilter'⟩

/-- Of each entry the overview has a line, from which the sign and the cents can be read. It and
the statements of the two accounts tell the same exactly if rounding the balance to `precision`
digits keeps its cents. If they do not, the balance is a single payment of more digits. -/
theorem overview_agrees {options : Options} {text currency shown : String} {l : Ledger}
    {b : Balance} (h : Ledger.ofString options text = .ok l) (hb : l.balance = .ok b)
    (hshown : overview l b currency = .ok shown) :
    ∃ lines, shown = ofLines lines ∧ ∀ e ∈ b.entries, ∃ sender recipient s s' minus cents,
      l.accounts.get e.sender = .ok sender ∧ l.accounts.get e.recipient = .ok recipient ∧
      Statement.ofAcronym l b sender.acronym = .ok s ∧
      Statement.ofAcronym l b recipient.acronym = .ok s' ∧
      entryText sender recipient minus cents currency ∈ lines ∧
      entryLine l.accounts currency e = .ok (entryText sender recipient minus cents currency) ∧
      (∀ minus' cents', entryText sender recipient minus' cents' currency =
        entryText sender recipient minus cents currency → minus' = minus ∧ cents' = cents) ∧
      (Agrees e minus cents s s' ↔
        nearestCents e.balance.round.toRat = nearestCents e.balance.toRat) ∧
      (¬ Agrees e minus cents s s' →
        ∃ t, Balance.between (l.invoices ++ l.payments) e.sender e.recipient = [t] ∧
          t.role = .payment ∧ e.balance = t.amount ∧
            precision < Decimal.digitCount t.amount.coefficient) := by
  have hl := Ledger.wellFormed_of_ofString h
  have hrunning := hl.running hb
  obtain ⟨lines, hlines, hentries⟩ := mem_of_overview hshown
  refine ⟨lines, hlines, fun e he => ?_⟩
  obtain ⟨line, hmem, hline⟩ := hentries e he
  obtain ⟨sender, recipient, s, s', hsender, hrecipient, hs, hs', hdebts, hdebts'⟩ :=
    exists_statements hl hb (lt_of_overview hl hb hshown) he
  obtain ⟨-, rfl⟩ := entryLine_eq_ok hline hsender hrecipient
  have hagrees := (agrees_iff (hrunning.wf.proper e he) hdebts hdebts' _).trans
    (Decimal.nearestCents_round_eq_iff e.balance).symm
  refine ⟨sender, recipient, s, s', _, _, hsender, hrecipient, hs, hs', hmem, hline,
    fun _ _ => entryText_inj, hagrees, fun hdiffer => ?_⟩
  rw [hagrees] at hdiffer
  rcases (hrunning.sums e he).round_eq_or with hround | ⟨t, ht, hrole, hamount⟩
  · exact absurd (by rw [hround]) hdiffer
  · refine ⟨t, ht, hrole, hamount, ?_⟩
    by_contra hshort
    rw [hamount] at hdiffer
    exact hdiffer (Decimal.nearestCents_round_of_digitCount_le (not_lt.mp hshort))

/-- A payment of almost half a cent. -/
def coffeeText : String :=
  "accounting_date 1.2.2024\naccount AA Anna\naccount BB Bert\n" ++
    "payment AA -> BB 0.00499999999999999999999999999999 1.1.2024 coffee\n"

/-- The overview shows a cent of it, which is open in neither statement. -/
theorem overview_agrees_coffee :
    ∃ l b shown, Ledger.ofString {} coffeeText = .ok l ∧ l.balance = .ok b ∧
      overview l b "CHF" = .ok shown ∧ ∃ e ∈ b.entries, ∃ s s',
        entryLine l.accounts "CHF" e = .ok "AA -> BB 0.01 CHF" ∧
        Statement.ofAcronym l b "AA" = .ok s ∧ Statement.ofAcronym l b "BB" = .ok s' ∧
        ¬ Agrees e false 1 s s' := by
  let payment : Decimal := ⟨false, 499999999999999999999999999999, -32⟩
  have hread : (Ledger.ofString {} coffeeText).toOption.bind (fun l =>
      l.balance.toOption.bind fun b => (overview l b "CHF").toOption.map fun _ =>
        (l.accounts, b.entries)) =
      some (⟨[⟨"AA", "Anna"⟩, ⟨"BB", "Bert"⟩], true⟩, [⟨0, 1, payment⟩]) := by
    decide +kernel
  obtain ⟨l, hl, hread⟩ := Option.bind_eq_some_iff.mp hread
  obtain ⟨b, hb, hread⟩ := Option.bind_eq_some_iff.mp hread
  obtain ⟨shown, hshown, hread⟩ := Option.map_eq_some_iff.mp hread
  obtain ⟨haccounts, hentries⟩ := Prod.mk.inj hread
  rw [toOption_eq_some] at hl hb hshown
  have he : (⟨0, 1, payment⟩ : Entry) ∈ b.entries := by simp [hentries]
  obtain ⟨lines, -, hlines⟩ := overview_agrees hl hb hshown
  obtain ⟨sender, recipient, s, s', minus, cents, hsender, hrecipient, hs, hs', -, hline, hinj,
    hagrees, -⟩ := hlines _ he
  rw [haccounts] at hsender hrecipient hline
  have hcents : entryLine ⟨[⟨"AA", "Anna"⟩, ⟨"BB", "Bert"⟩], true⟩ "CHF" ⟨0, 1, payment⟩ =
      .ok (entryText ⟨"AA", "Anna"⟩ ⟨"BB", "Bert"⟩ false 1 "CHF") :=
    toOption_eq_some.mp (by decide +kernel)
  obtain rfl : sender = ⟨"AA", "Anna"⟩ := ok_unique hsender rfl
  obtain rfl : recipient = ⟨"BB", "Bert"⟩ := ok_unique hrecipient rfl
  obtain ⟨rfl, rfl⟩ := hinj false 1 (ok_unique hcents hline)
  refine ⟨l, b, shown, hl, hb, hshown, _, he, s, s', ?_, hs, hs', ?_⟩
  · rw [haccounts, hcents]
    exact toOption_eq_some.mp (by decide +kernel)
  · rw [hagrees, Decimal.nearestCents_round_eq_iff]
    decide +kernel

end Report

end HouseLedger
