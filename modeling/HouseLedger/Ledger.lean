import HouseLedger.Account
import HouseLedger.Balance

/-!
# Ledgers

A ledger as it is read: the accounts, and the invoices and payments up to a
reference date. `Options` are the choices that reading leaves open.
-/

namespace HouseLedger

/-- What may be chosen about the form of a ledger. -/
structure Options where
  /-- The word that begins the first line. -/
  headerKeyword : String := "accounting_date"
  /-- Whether invoices of one day, one note and the same two accounts become one. -/
  mergeInvoices : Bool := false
  /-- Whether a period takes its years from the field of its days. -/
  legacyYears : Bool := false
  deriving DecidableEq, Repr

/-- The accounts and the transactions of a household. -/
structure Ledger where
  /-- The day up to which transactions count. -/
  referenceDate : Date
  /-- The accounts, in the order of their declaration. -/
  accounts : Registry
  /-- The invoices, in the order in which they were recorded. -/
  invoices : List Transaction
  /-- The payments, in the order in which they were recorded. -/
  payments : List Transaction
  deriving DecidableEq

/-- What every pair of accounts owes each other. -/
def Ledger.balance (l : Ledger) : Except Fault Balance :=
  Balance.ofTransactions l.invoices l.payments

end HouseLedger
