import HouseLedger.Amount
import HouseLedger.Calendar.Written
import HouseLedger.Ledger

/-!
# The overview of a ledger

A plain text with the reference date and four blocks: the accounts, the invoices,
the payments, and the balance of every pair that was seen. Each item has one line.
-/

namespace HouseLedger

namespace Report

/-- Joins lines to a text, each ended by a line feed. -/
def ofLines (lines : List String) : String := String.join (lines.map (· ++ "\n"))

/-- The line of a transaction. -/
def transactionLine (accounts : Registry) (currency : String) (t : Transaction) :
    Except Fault String := do
  let sender ← accounts.get t.sender
  let recipient ← accounts.get t.recipient
  let amount ← Amount.display t.amount currency
  return s!"{sender.acronym} -> {recipient.acronym} {amount}\t{t.date.toString}\t{t.note}"

/-- The line of a balance; it has a minus sign if the first account owes the second. -/
def entryLine (accounts : Registry) (currency : String) (e : Entry) : Except Fault String := do
  let sender ← accounts.get e.sender
  let recipient ← accounts.get e.recipient
  let amount ← Amount.displaySigned e.balance currency
  return s!"{sender.acronym} -> {recipient.acronym} {amount}"

/-- The lines of the overview. -/
def overviewLines (l : Ledger) (b : Balance) (currency : String) : Except Fault (List String) := do
  let invoices ← l.invoices.mapM (transactionLine l.accounts currency)
  let payments ← l.payments.mapM (transactionLine l.accounts currency)
  let entries ← b.entries.mapM (entryLine l.accounts currency)
  return [s!"Accounting date {l.referenceDate.toString}", "", "Accounts:"]
    ++ l.accounts.accounts.map (fun a => s!"{a.acronym} -> {a.name}")
    ++ ["", "Invoices:"] ++ invoices
    ++ ["", "Payments:"] ++ payments
    ++ ["", "Balance:"] ++ entries

/-- The overview of a ledger and its balance. -/
def overview (l : Ledger) (b : Balance) (currency : String) : Except Fault String := do
  return ofLines (← overviewLines l b currency)

end Report

end HouseLedger
