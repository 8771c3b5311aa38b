import HouseLedger.Proofs.Ledger.Provenance

/-!
# What a ledger holds

A ledger is put together from its lines one by one, each of which acts on the draft that the
lines before it left. `Ledger.written` gives the same ledger without a draft: the accounts are
those that the lines declare, and the transactions those that each line asks for, once the
accounts of all lines are known. Lines are a ledger if all are acceptable, and it is the written
one (`Ledger.ofLines_eq_ok_iff_written`).

So a ledger depends on its lines of each kind, on their order among themselves, and on nothing
else of the lines.
-/

namespace HouseLedger

open Outcome Text

variable {options : Options} {reference : Date} {earlier : List (List Char)}

/-- Behind lines that ask for a sum that is too large not all invoices can be entered. -/
theorem InvoiceLine.Overmerges.not_enterable {l : InvoiceLine}
    (h : l.Overmerges options reference earlier)
    (hearlier : AllAcceptable options reference earlier)
    {text : List Char} (htext : (Line.invoice l).Spells text) {r : Registry} (hr : r.Distinct)
    (hkept : declared earlier <+: r.accounts) (after : List (List Char)) :
    ¬ Draft.Enterable options.mergeInvoices []
      ((earlier ++ text :: after).flatMap (invoicesOf options reference r)) := by
  obtain ⟨ts, hts, hnot⟩ := h
  obtain ⟨d, -, hd⟩ := hearlier.exists_consists
  have hbehind := hd.invoices r hr (hd.accounts_eq ▸ hkept)
  rw [hd.invoices_eq] at hbehind
  have hasked : invoicesOf options reference r text = ts := by
    rw [invoicesOf, Line.ofText?_eq_some_iff.mpr htext, Option.map_some, Option.getD_some,
      Line.invoices, billed_of_isPrefix hts hkept hr]
    rfl
  rw [List.flatMap_append, List.flatMap_cons, hasked, Draft.enterable_append,
    Draft.enterable_append, ← hbehind]
  exact fun hall => hnot hall.2.1

namespace Ledger

/-- The ledger that lines describe, whether or not they can all be carried out. -/
def written (options : Options) (reference : Date) (body : List (List Char)) : Ledger :=
  let accounts : Registry := ⟨declared body, true⟩
  ⟨reference, accounts,
    ((body.flatMap (invoicesOf options reference accounts)).foldl
      (Draft.recorded options.mergeInvoices) []).reverse,
    body.flatMap (paymentsOf reference accounts)⟩

/-- Lines are a ledger if the first is a header and all others are acceptable, and the ledger is
the one that they describe. -/
theorem ofLines_eq_ok_iff_written {header : List Char} {body : List (List Char)} {l : Ledger} :
    ofLines options header body = .ok l ↔
      ∃ reference, IsHeader options header reference ∧ AllAcceptable options reference body ∧
        l = written options reference body := by
  have hwritten : ∀ {l reference}, ofLines options header body = .ok l →
      IsHeader options header reference → l = written options reference body := by
    intro l reference hl hheader
    obtain ⟨reference', d, hreference, hlines, rfl⟩ := ofLines_eq_ok_iff.mp hl
    obtain rfl := (readHeader_eq_ok_iff.mp hreference).unique hheader
    have hd := Draft.consists_of_addLines hlines
    have hdistinct : (⟨declared body, true⟩ : Registry).Distinct := by
      have hbehind := hd.distinct
      rwa [hd.accounts_eq] at hbehind
    have hkept : d.accounts.accounts <+: declared body := by
      rw [hd.accounts_eq]
      exact List.prefix_refl _
    rw [Draft.finish, written, hd.invoices _ hdistinct hkept, hd.payments _ hdistinct hkept,
      List.reverse_reverse, hd.accounts_eq]
    rfl
  rcases ofLines_cases options header body with ⟨l', reference, hl', hheader, hall⟩ |
    ⟨fault, hfault, htext⟩
  · constructor
    · intro h
      exact ⟨reference, hheader, hall, hwritten h hheader⟩
    · rintro ⟨reference', hheader', -, rfl⟩
      rw [hl', hwritten hl' hheader']
  · constructor
    · intro h
      cases hfault.symm.trans h
    · rintro ⟨reference, hheader, hall, -⟩
      exact absurd hall (htext.not_allAcceptable hheader)

end Ledger

end HouseLedger
