import HouseLedger.Report.Overview
import HouseLedger.Statement

/-!
# Statements as text

A statement is a title, a section for each kind of transaction that it has, and the
open debts, or a dash where nothing is open. Lines are laid out in columns, which
are filled up with spaces; what is longer than its column moves the rest along.
-/

namespace HouseLedger

namespace Report

/-! ## Columns -/

/-- The column at which the preposition in front of a name ends. -/
def nameColumn : Nat := 15

/-- The column at which amounts begin. -/
def amountColumn : Nat := 35

/-- The column at which notes begin. -/
def noteColumn : Nat := 50

/-- The text filled up with spaces to a width, which counts characters. -/
def fillTo (width : Nat) (text : String) : String :=
  text ++ String.ofList (List.replicate (width - text.length) ' ')

/-! ## Lines -/

/-- Which side of its transactions a section names. -/
inductive Counterpart where
  /-- The account that sends. -/
  | sender
  /-- The account that receives. -/
  | recipient
  deriving DecidableEq, Repr

namespace Counterpart

/-- The preposition in front of the name. -/
def preposition : Counterpart → String
  | sender => "From"
  | recipient => "To"

/-- The index of the account that is named. -/
def index (c : Counterpart) (t : Transaction) : Int :=
  match c with
  | sender => t.sender
  | recipient => t.recipient

end Counterpart

/-- The line of a transaction in a section of a statement. -/
def sectionLine (accounts : Registry) (currency : String) (c : Counterpart) (t : Transaction) :
    Except Fault String := do
  let other ← accounts.get (c.index t)
  let amount ← Amount.display t.amount currency
  let date := fillTo (nameColumn - c.preposition.length) t.date.toString
  let party := fillTo amountColumn (date ++ c.preposition ++ " " ++ other.name)
  return fillTo noteColumn (party ++ amount) ++ t.note

/-- The lines of a section; a section without transactions has none. -/
def sectionLines (accounts : Registry) (currency : String) (heading : String) (c : Counterpart)
    (transactions : List Transaction) : Except Fault (List String) := do
  if transactions.isEmpty then return []
  return ["", heading ++ ":"] ++ (← transactions.mapM (sectionLine accounts currency c))

/-- The line of an open debt. -/
def debtLine (accounts : Registry) (currency : String) (d : Debt) : Except Fault String := do
  let debtor ← accounts.get d.debtor
  let creditor ← accounts.get d.creditor
  let amount ← Amount.display d.amount currency
  return fillTo amountColumn s!"{debtor.name} -> {creditor.name}" ++ amount

/-! ## Statements -/

/-- The title of a statement. -/
def title (s : Statement) : String :=
  s!"Statement {s.referenceDate.toString} {s.account.name}"

/-- The name of the file that a statement is written to: its title, where a point
becomes an underscore, so that the only point is that of the extension. -/
def fileName (s : Statement) : String :=
  String.ofList ((title s).toList.map fun c => if c = '.' then '_' else c) ++ ".txt"

/-- The lines of a statement. -/
def statementLines (s : Statement) (accounts : Registry) (currency : String) :
    Except Fault (List String) := do
  let toPay ← sectionLines accounts currency "To pay" .recipient s.toPay
  let credited ← sectionLines accounts currency "Credited" .sender s.credited
  let paid ← sectionLines accounts currency "Paid" .recipient s.paid
  let received ← sectionLines accounts currency "Received" .sender s.received
  let debts ← s.outstanding.mapM (debtLine accounts currency)
  return [title s] ++ toPay ++ credited ++ paid ++ received
    ++ ["", "Outstanding:"] ++ (if s.isSettled then ["-"] else debts)

/-- A statement as text. -/
def statement (s : Statement) (accounts : Registry) (currency : String) : Except Fault String := do
  return ofLines (← statementLines s accounts currency)

end Report

end HouseLedger
