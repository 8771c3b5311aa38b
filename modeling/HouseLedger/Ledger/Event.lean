import HouseLedger.Calendar.Written
import HouseLedger.Transaction

/-!
# Events

What happens on the way from the text of a ledger to its balance, for those who want
to follow it. `Event.record` is the line that a log has for an event.
-/

namespace HouseLedger

/-- Something worth a line in the log. -/
inductive Event where
  /-- The text of a ledger was read from a file. -/
  | fileRead (path : String)
  /-- A transaction was left out because both its parties are this account. -/
  | dropped (role : Role) (account : Int) (date : Date)
  /-- An invoice was merged with an earlier one; the total may be below zero. -/
  | merged (note : String) (date : Date) (total : Decimal)
  /-- A line was left out because it begins after the reference date. -/
  | ignored (role : Role) (note : String) (date : Date)
  /-- A ledger was read to its end. -/
  | finished (accounts invoices payments : Nat) (reference : Date)
  /-- Two accounts were seen together for the first time. -/
  | entryOpened (sender recipient : Int)
  deriving DecidableEq

namespace Event

/-- The name of a role in the log. -/
def roleText : Role → String
  | .invoice => "invoice"
  | .payment => "payment"

/-- What is said about an event. -/
def text : Event → String
  | fileRead path => s!"Read ledger file {path}"
  | dropped role account date =>
    s!"Dropping {roleText role} from account {account} to itself on {date.toLogString}"
  | merged note date total =>
    s!"Merged invoice '{note}' on {date.toLogString} into a new total of {total.toString}"
  | ignored .invoice note date =>
    s!"Ignoring invoice '{note}' starting {date.toLogString} after reference date"
  | ignored .payment note date =>
    s!"Ignoring payment '{note}' dated {date.toLogString} after reference date"
  | finished accounts invoices payments reference =>
    s!"Parsed ledger with {accounts} accounts, {invoices} invoices and {payments} payments" ++
      s!" up to {reference.toLogString}"
  | entryOpened sender recipient => s!"New balance entry {sender} -> {recipient}"

/-- The part of the program that reports the event. -/
def channel : Event → String
  | entryOpened .. => "splitledger.domain.balance"
  | _ => "splitledger.domain.parser"

/-- The line of the log. -/
def record (e : Event) : String := s!"DEBUG {e.channel}: {e.text}\n"

end Event

end HouseLedger
