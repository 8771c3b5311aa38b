import HouseLedger.Decimal.Range

/-!
# Transactions

An invoice puts its sender into the debt of its recipient, and a payment reduces
that debt. `Transaction.create` is the way to a valid one: between two accounts, and
of an amount that is not below zero.
-/

namespace HouseLedger

/-- What a transaction does to a debt. -/
inductive Role where
  /-- The sender owes the amount to the recipient. -/
  | invoice
  /-- The sender hands the amount to the recipient. -/
  | payment
  deriving DecidableEq, Repr

/-- An invoice or a payment between two accounts, which are given by their indices. -/
structure Transaction where
  /-- The account that owes or pays. -/
  sender : Int
  /-- The account that is owed or paid. -/
  recipient : Int
  /-- The amount of money. -/
  amount : Decimal
  /-- The day of the transaction. -/
  date : Date
  /-- What it was for. -/
  note : String
  /-- Whether it is an invoice or a payment. -/
  role : Role
  deriving DecidableEq

namespace Transaction

/-- The transaction, if its parties differ and its amount is not below zero. -/
def create (role : Role) (sender recipient : Int) (amount : Decimal) (date : Date)
    (note : String) : Except Fault Transaction :=
  if sender = recipient then .error (.sameParties sender)
  else if amount.isBelowZero then .error (.transactionBelowZero amount)
  else .ok ⟨sender, recipient, amount, date, note, role⟩

/-- The transaction itself, provided that it can be created. -/
def check (t : Transaction) : Except Fault Transaction :=
  create t.role t.sender t.recipient t.amount t.date t.note

/-- What the transaction adds to the balance seen from its sender to its recipient. -/
def signed (t : Transaction) : Decimal :=
  match t.role with
  | .invoice => -t.amount
  | .payment => t.amount

/-- The amount with the sign that its role gives it. Only the opposite is computed. -/
def signedAmount (t : Transaction) : Except Fault Decimal :=
  match t.role with
  | .invoice => t.signed.checked
  | .payment => .ok t.signed

/-- Whether the account takes part. -/
def involves (t : Transaction) (account : Int) : Bool :=
  account == t.sender || account == t.recipient

end Transaction

end HouseLedger
