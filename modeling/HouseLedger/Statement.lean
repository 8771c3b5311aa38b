import HouseLedger.Amount
import HouseLedger.Ledger

/-!
# Statements

The statement of one account: the invoices that it has to pay and that it is
credited, the payments that it made and received, each in the order of their dates,
and the debts between it and others that are still open. A debt is a balance rounded
to the cent; what rounds to less than a cent is settled.
-/

namespace HouseLedger

/-- An amount that one account owes another. -/
structure Debt where
  /-- The account that owes. -/
  debtor : Int
  /-- The account that is owed. -/
  creditor : Int
  /-- The amount, above zero and to the cent. -/
  amount : Decimal
  deriving DecidableEq, Repr

/-- What one account is told. -/
structure Statement where
  /-- The index of the account. -/
  index : Int
  /-- The account. -/
  account : Account
  /-- The day up to which transactions count. -/
  referenceDate : Date
  /-- The invoices that the account sends. -/
  toPay : List Transaction
  /-- The invoices that the account receives. -/
  credited : List Transaction
  /-- The payments that the account makes. -/
  paid : List Transaction
  /-- The payments that the account receives. -/
  received : List Transaction
  /-- The debts that the account takes part in. -/
  outstanding : List Debt
  deriving DecidableEq

/-- What an entry leaves open between its two accounts: nothing where it rounds to
less than a cent, and otherwise a debt of the side that the sign names. What has been
rounded to the cent is never too large for its magnitude to be computed. -/
def Entry.debt? (e : Entry) : Except Fault (Option Debt) := do
  let rounded ← Amount.toCents e.balance
  if rounded.magnitude < Amount.cent then return none
  if rounded.isBelowZero then return some ⟨e.sender, e.recipient, rounded.magnitude⟩
  return some ⟨e.recipient, e.sender, rounded.magnitude⟩

/-- The open debts of an account, those of the lowest balances first. -/
def Balance.debtsOf (b : Balance) (account : Int) : Except Fault (List Debt) := do
  let entries := (b.entriesFor account).mergeSort fun x y => x.balance ≤ y.balance
  return (← entries.mapM Entry.debt?).filterMap id

namespace Statement

/-- Transactions in the order of their dates; those of one day keep their order. -/
def byDate (transactions : List Transaction) : List Transaction :=
  transactions.mergeSort fun s t => s.date ≤ t.date

/-- The statement of the account with an acronym. -/
def ofAcronym (l : Ledger) (b : Balance) (acronym : String) : Except Fault Statement := do
  let index ← l.accounts.resolve acronym
  let account ← l.accounts.get index
  return {
    index := index
    account := account
    referenceDate := l.referenceDate
    toPay := byDate (l.invoices.filter (·.sender == index))
    credited := byDate (l.invoices.filter (·.recipient == index))
    paid := byDate (l.payments.filter (·.sender == index))
    received := byDate (l.payments.filter (·.recipient == index))
    outstanding := ← b.debtsOf index }

/-- Whether nothing is open. -/
def isSettled (s : Statement) : Bool := s.outstanding.isEmpty

/-- What an account is owed on the whole, given its open debts. -/
def netOf (index : Int) (debts : List Debt) : Except Fault Decimal :=
  debts.foldlM (fun total d =>
    (if d.creditor = index then total + d.amount else total - d.amount).checked) .zero

/-- What the account is owed on the whole; below zero it owes. -/
def netOutstanding (s : Statement) : Except Fault Decimal := netOf s.index s.outstanding

end Statement

end HouseLedger
