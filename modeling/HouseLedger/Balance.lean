import HouseLedger.Transaction

/-!
# Balances

A `Balance` nets transactions: it keeps one entry for each unordered pair of
accounts. The entries stand in the order in which their pairs were first seen, and
the orientation of an entry is that of the first transaction of its pair. Entries
are never removed, also when they come to zero.

`Balance.net` is the view of a balance as a function of two accounts.
-/

namespace HouseLedger

/-- The running balance of two accounts. Below zero the sender owes the recipient,
above zero the recipient owes the sender. -/
structure Entry where
  /-- The account from which the balance is seen. -/
  sender : Int
  /-- The account to which the balance is seen. -/
  recipient : Int
  /-- What the payments exceed the invoices by. -/
  balance : Decimal
  deriving DecidableEq, Repr

namespace Entry

/-- The entry, if its accounts differ. -/
def create (sender recipient : Int) (balance : Decimal) : Except Fault Entry :=
  if sender = recipient then .error (.sameAccounts sender)
  else .ok ⟨sender, recipient, balance⟩

/-- Whether the entry is seen from the first account to the second. -/
def joins (e : Entry) (sender recipient : Int) : Bool :=
  e.sender == sender && e.recipient == recipient

/-- Whether the account is one of the two. -/
def involves (e : Entry) (account : Int) : Bool :=
  account == e.sender || account == e.recipient

end Entry

/-- One entry for each pair of accounts that was seen. -/
structure Balance where
  /-- The entries in the order in which their pairs were first seen. -/
  entries : List Entry := []
  deriving DecidableEq, Repr

namespace Balance

/-- The balance before any transaction. -/
def empty : Balance := {}

/-- The number of pairs that were seen. -/
def size (b : Balance) : Nat := b.entries.length

/-- The entry that is stored in this orientation. -/
def find? (b : Balance) (sender recipient : Int) : Option Entry :=
  b.entries.find? (·.joins sender recipient)

/-- The entry of a pair in either orientation. -/
def get? (b : Balance) (first second : Int) : Option Entry :=
  (b.find? first second).or (b.find? second first)

/-- Puts an entry in the place of the one with the same orientation. -/
def replace (b : Balance) (entry : Entry) : Balance :=
  ⟨b.entries.map fun e => if e.joins entry.sender entry.recipient then entry else e⟩

/-- Books an amount, seen from the sender to the recipient: it is added to an entry
of this orientation, taken from an entry of the other, or begins a new entry as it
is. The entry that results is returned with the balance. -/
def apply (b : Balance) (sender recipient : Int) (amount : Decimal) :
    Except Fault (Entry × Balance) :=
  match b.find? sender recipient with
  | some e => do
    let total ← (e.balance + amount).checked
    let e := { e with balance := total }
    return (e, b.replace e)
  | none =>
    match b.find? recipient sender with
    | some e => do
      let total ← (e.balance - amount).checked
      let e := { e with balance := total }
      return (e, b.replace e)
    | none => do
      let e ← Entry.create sender recipient amount
      return (e, ⟨b.entries ++ [e]⟩)

/-- Books a transaction; its role gives the sign. -/
def add (b : Balance) (t : Transaction) : Except Fault (Entry × Balance) := do
  b.apply t.sender t.recipient (← t.signedAmount)

/-- The balance of a pair seen from the first account to the second; zero for a pair
that was never seen. -/
def net (b : Balance) (first second : Int) : Except Fault Decimal :=
  match b.find? first second with
  | some e => .ok e.balance
  | none =>
    match b.find? second first with
    | some e => (-e.balance).checked
    | none => .ok .zero

/-- The entries that an account takes part in. -/
def entriesFor (b : Balance) (account : Int) : List Entry :=
  b.entries.filter (·.involves account)

/-- Books transactions one after the other, up to the first that cannot be booked. -/
def addUpTo (b : Balance) : List Transaction → Balance × Option Fault
  | [] => (b, none)
  | t :: rest =>
    match b.add t with
    | .error fault => (b, some fault)
    | .ok (_, b) => b.addUpTo rest

/-- Books transactions one after the other. -/
def addAll (b : Balance) (transactions : List Transaction) : Except Fault Balance :=
  match b.addUpTo transactions with
  | (b, none) => .ok b
  | (_, some fault) => .error fault

/-- Nets all invoices and then all payments. -/
def ofTransactions (invoices payments : List Transaction) : Except Fault Balance :=
  empty.addAll (invoices ++ payments)

end Balance

end HouseLedger
