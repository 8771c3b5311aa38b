import HouseLedger.Ledger
import HouseLedger.Ledger.Event
import HouseLedger.Ledger.Line
import HouseLedger.Recurrence
import HouseLedger.Text.Lines

/-!
# Reading a ledger

A ledger is read line by line. The first line gives the reference date; every other
line acts on a `Draft`, the ledger as far as it is read. The first line that cannot
be carried out ends the reading with a fault, and the events up to it are kept.

* `Draft.carryOut` is the effect of one line.
* `Ledger.read` is the whole text, with the events on the way.
* `Ledger.ofString` is the ledger of a text, and `Ledger.ofFile` that of a file.
-/

namespace HouseLedger

/-! ## Drafts -/

/-- A ledger as far as it is read. What was recorded stands last first. -/
structure Draft where
  /-- The accounts declared so far. -/
  accounts : Registry := {}
  /-- The invoices, the latest first. -/
  invoices : List Transaction := []
  /-- The payments, the latest first. -/
  payments : List Transaction := []
  /-- The events, the latest first. -/
  events : List Event := []

/-- An amount that goes from one account to another. -/
structure Transfer where
  /-- The account that owes the amount. -/
  sender : Nat
  /-- The account that is owed the amount. -/
  recipient : Nat
  /-- The amount. -/
  amount : Decimal
  deriving DecidableEq, Repr

/-- Whether two transactions are on one day, under one note and between the same two
accounts, in either direction. -/
def Transaction.isAlike (a b : Transaction) : Bool :=
  a.date == b.date && a.note == b.note &&
    (a.sender == b.sender && a.recipient == b.recipient ||
      a.sender == b.recipient && a.recipient == b.sender)

namespace Draft

/-- The draft with one more event. -/
def log (d : Draft) (e : Event) : Draft := { d with events := e :: d.events }

/-- What two alike invoices come to, seen from the sender of the new one: one in the
other direction counts against it. -/
def mergedTotal (old new : Transaction) : Decimal :=
  if old.sender = new.sender then new.amount + old.amount else new.amount - old.amount

/-- The invoice that stands for two alike ones. A total below zero is an invoice in the
other direction; its opposite is as long and as large as the total and is not rounded
again. -/
def mergeInvoices (old new : Transaction) : Transaction :=
  let total := mergedTotal old new
  if total.isBelowZero then
    { new with sender := new.recipient, recipient := new.sender, amount := -total }
  else { new with amount := total }

/-- Enters an invoice between two accounts. Where invoices are merged, one that is
alike is taken out and the sum of both is entered in its stead. -/
def enterInvoice (merging : Bool) (d : Draft) (t : Transaction) : Except Fault Draft :=
  match if merging then d.invoices.find? t.isAlike else none with
  | none => do
    let t ← t.check
    return { d with invoices := t :: d.invoices }
  | some old => do
    let total ← (mergedTotal old t).checked
    let merged ← (mergeInvoices old t).check
    return { d with invoices := merged :: d.invoices.eraseP t.isAlike }.log
      (.merged t.note t.date total)

/-- Enters a transfer as an invoice, unless it would be from an account to itself. -/
def enterTransfer (merging : Bool) (date : Date) (note : String) (d : Draft) (t : Transfer) :
    Except Fault Draft :=
  if t.sender = t.recipient then return d.log (.dropped .invoice t.sender date)
  else enterInvoice merging d ⟨t.sender, t.recipient, t.amount, date, note, .invoice⟩

/-- Enters all transfers of an invoice for one day. -/
def enterOccurrence (merging : Bool) (note : String) (transfers : List Transfer) (d : Draft)
    (date : Date) : Except Fault Draft :=
  transfers.foldlM (enterTransfer merging date note) d

/-- The transfers of a bill: everyone who shares it owes the same part to the first
recipient, who owes the whole amount to the next, and so on along the chain. -/
def transfers (senders : List Nat) (recipient : Nat) (chain : List Nat) (share total : Decimal) :
    List Transfer :=
  senders.map (⟨·, recipient, share⟩) ++
    ((recipient :: chain).zip chain).map fun (a, b) => ⟨a, b, total⟩

/-- Carries out an invoice line. Accounts and dates have to exist also where the
invoice begins after the reference date and is left out; only otherwise is its amount
shared out. -/
def addInvoice (options : Options) (reference : Date) (d : Draft) (line : InvoiceLine) :
    Except Fault Draft := do
  let senders ← (line.sender :: line.sharers).mapM d.accounts.resolve
  let recipient ← d.accounts.resolve line.recipient
  let chain ← line.chain.mapM d.accounts.resolve
  let start ← line.start.toDate
  let finish ← line.recurrence.mapM fun r => r.1.toDate
  let period := line.recurrence.map fun r => r.2.toPeriod options.legacyYears
  if reference < start then return d.log (.ignored .invoice line.note start)
  let total := line.amount.toDecimal
  let share ← (total.share senders.length).checked
  let dates ← Recurrence.occurrences start finish period reference
  let transfers := transfers senders recipient chain share total
  dates.foldlM (enterOccurrence options.mergeInvoices line.note transfers) d

/-- Carries out a payment line. -/
def addPayment (reference : Date) (d : Draft) (line : PaymentLine) : Except Fault Draft := do
  let sender ← d.accounts.resolve line.sender
  let recipient ← d.accounts.resolve line.recipient
  let date ← line.date.toDate
  if reference < date then return d.log (.ignored .payment line.note date)
  if sender = recipient then return d.log (.dropped .payment sender date)
  let payment ← Transaction.create .payment sender recipient line.amount.toDecimal date line.note
  return { d with payments := payment :: d.payments }

/-- Carries out a line. -/
def carryOut (options : Options) (reference : Date) (d : Draft) : Line → Except Fault Draft
  | .blank | .comment => .ok d
  | .account acronym name => return { d with accounts := ← d.accounts.add acronym name }
  | .invoice fields => d.addInvoice options reference fields
  | .payment fields => d.addPayment reference fields

/-- Carries out the line of the given number; a fault names the line. -/
def addLine (options : Options) (reference : Date) (d : Draft) (number : Nat)
    (text : List Char) : Except Fault Draft :=
  match Line.ofText? text with
  | none => .error (.lineMalformed number (String.ofList text))
  | some line =>
    (d.carryOut options reference line).mapError (.atLine number (String.ofList text))

/-- Carries out lines, numbered from `number` on, up to the first fault. -/
def addLines (options : Options) (reference : Date) (d : Draft) (number : Nat) :
    List (List Char) → Draft × Option Fault
  | [] => (d, none)
  | text :: rest =>
    match d.addLine options reference number text with
    | .error fault => (d, some fault)
    | .ok d => d.addLines options reference (number + 1) rest

/-- The ledger that a finished draft stands for; no account can be added to it. -/
def finish (d : Draft) (reference : Date) : Ledger :=
  ⟨reference, d.accounts.freeze, d.invoices.reverse, d.payments.reverse⟩

end Draft

/-! ## Texts and files -/

/-- What came of reading a ledger. -/
structure Reading where
  /-- The events in the order in which they happened. -/
  events : List Event
  /-- The ledger, or why there is none. -/
  outcome : Except Fault Ledger

namespace Ledger

/-- The reference date that the first line gives. -/
def readHeader (options : Options) (line : List Char) : Except Fault Date :=
  let date : Except Fault Date :=
    match Line.header? options.headerKeyword line with
    | none => .error (.headerMissing options.headerKeyword)
    | some written => written.toDate
  date.mapError (.onLine 1 (String.ofList line))

/-- Reads the text of a ledger. -/
def read (options : Options) (text : List Char) : Reading :=
  let (header, body) := Text.splitLines text
  match readHeader options header with
  | .error fault => ⟨[], .error fault⟩
  | .ok reference =>
    match ({} : Draft).addLines options reference 2 body with
    | (d, some fault) => ⟨d.events.reverse, .error fault⟩
    | (d, none) =>
      let ledger := d.finish reference
      let summary := .finished ledger.accounts.size ledger.invoices.length
        ledger.payments.length reference
      ⟨(summary :: d.events).reverse, .ok ledger⟩

/-- The ledger of a text. -/
def ofString (options : Options) (text : String) : Except Fault Ledger :=
  (read options text.toList).outcome

/-- The text that the bytes of a file stand for, with a line feed for each break. -/
def decode (bytes : ByteArray) : Except Fault (List Char) :=
  match String.fromUTF8? bytes with
  | some text => .ok (Text.unifyBreaks text.toList)
  | none => .error .notText

/-- Reads the bytes of a file that holds a ledger. -/
def readFile (options : Options) (path : String) (bytes : ByteArray) : Reading :=
  match decode bytes with
  | .error fault => ⟨[], .error fault⟩
  | .ok text =>
    let reading := read options text
    { reading with events := .fileRead path :: reading.events }

/-- The ledger in the bytes of a file. -/
def ofFile (options : Options) (bytes : ByteArray) : Except Fault Ledger := do
  (read options (← decode bytes)).outcome

end Ledger

end HouseLedger
