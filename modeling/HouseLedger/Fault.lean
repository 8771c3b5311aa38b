import HouseLedger.Calendar.Date
import HouseLedger.Decimal.Numeral
import HouseLedger.Text.Quoted

/-!
# Faults

Everything that can go wrong, by its cause. A `Fault` carries what its message
needs; `Fault.message` is the only place where the wording stands.
-/

namespace HouseLedger

/-- Why an operation on a file fails. -/
inductive FileFault where
  /-- Nothing is at the path. -/
  | missing
  /-- Something is at the path already. -/
  | taken
  /-- A part of the path that has to be a directory is none. -/
  | notDirectory
  /-- A directory is where a file has to be. -/
  | isDirectory
  /-- A part of the path is longer than a name may be. -/
  | nameTooLong
  /-- The user has no right to it. -/
  | denied
  /-- Whatever else a system finds, by its number and its words. -/
  | other (number : Nat) (text : String)
  deriving DecidableEq, Repr

namespace FileFault

/-- The number that systems give the fault. -/
def number : FileFault → Nat
  | missing => 2
  | taken => 17
  | notDirectory => 20
  | isDirectory => 21
  | nameTooLong => 36
  | denied => 13
  | other number _ => number

/-- The words that systems give the fault. -/
def text : FileFault → String
  | missing => "No such file or directory"
  | taken => "File exists"
  | notDirectory => "Not a directory"
  | isDirectory => "Is a directory"
  | nameTooLong => "File name too long"
  | denied => "Permission denied"
  | other _ text => text

end FileFault

/-- The wording of a defect in a date. -/
def DateDefect.text : DateDefect → String
  | year n => s!"year {n} is out of range"
  | month => "month must be in 1..12"
  | day => "day is out of range for month"

/-- A cause of failure. -/
inductive Fault where
  /-- The result of a computation is larger than computed decimals may be. -/
  | overflow
  /-- An amount was expected and there is only blank text. -/
  | amountBlank
  /-- The text is no amount. -/
  | amountUnreadable (text : String)
  /-- An amount below zero cannot be written in the form that has no sign. -/
  | amountBelowZero (amount : Decimal)
  /-- Written to the cent, the amount has more digits than decimals keep. -/
  | centsTooLong
  /-- The text does not have the form of a date. -/
  | dateUnreadable (text : String)
  /-- The text has the form of a date and names none. -/
  | dateUnreal (text : String) (defect : DateDefect)
  /-- A shift by months leaves the calendar. -/
  | yearOutOfRange (year : Int)
  /-- A shift by more days than any calendar has. -/
  | tooManyDays (days : Int)
  /-- A shift by days leaves the calendar. -/
  | dateOutOfRange
  /-- A recurrence that never moves on. -/
  | periodEmpty
  /-- No account has the acronym. -/
  | accountUnknown (acronym : String)
  /-- An account has the acronym already. -/
  | accountTaken (acronym : String)
  /-- Accounts can no longer be added. -/
  | registryFrozen (acronym : String)
  /-- The list has no such position. -/
  | positionOutOfRange
  /-- A transaction from an account to itself. -/
  | sameParties (account : Int)
  /-- A transaction of an amount below zero. -/
  | transactionBelowZero (amount : Decimal)
  /-- A balance between an account and itself. -/
  | sameAccounts (account : Int)
  /-- The first line of a ledger is no header. -/
  | headerMissing (keyword : String)
  /-- A line of a ledger has none of the forms of a line. -/
  | lineMalformed (number : Nat) (line : String)
  /-- A line of a ledger cannot be carried out. -/
  | onLine (number : Nat) (line : String) (cause : Fault)
  /-- The bytes of a file are no text. -/
  | notText
  /-- A text holds a character that cannot be put out. -/
  | notEncodable
  /-- No file can have the path, since it holds the null character. -/
  | nullInPath
  /-- An operation on the file at the path fails. -/
  | file (cause : FileFault) (path : String)
  /-- The bytes of a file that is open cannot be had. -/
  | reading (cause : FileFault)
  deriving DecidableEq

namespace Fault

/-- A message together with the line that it is about. -/
def messageOnLine (number : Nat) (line message : String) : String :=
  s!"Line {number}: {message} (\"{line}\")"

/-- What the system says about a fault on a file. -/
def systemMessage (cause : FileFault) : String := s!"[Errno {cause.number}] {cause.text}"

/-- What is said about a fault. The faults that end the program without a message of
their own say nothing. -/
def message : Fault → String
  | overflow => ""
  | amountBlank => "Empty amount string"
  | amountUnreadable text =>
    s!"Could not parse amount '{text}': expected digits, '.' and a fractional part"
  | amountBelowZero amount => s!"Cannot format negative amount {amount.toString}"
  | centsTooLong => ""
  | dateUnreadable text => s!"Could not parse date '{text}': expected D.M.YYYY"
  | dateUnreal text defect => s!"Could not parse date '{text}': {defect.text}"
  | yearOutOfRange year => s!"year {year} is out of range"
  | tooManyDays days => s!"days={days}; must have magnitude <= 999999999"
  | dateOutOfRange => "date value out of range"
  | periodEmpty => "Recurrence period must not be zero"
  | accountUnknown acronym => s!"Account '{acronym}' not found"
  | accountTaken acronym => s!"Account with acronym '{acronym}' already exists"
  | registryFrozen acronym =>
    s!"Cannot add account '{acronym}': the ledger's accounts are read-only"
  | positionOutOfRange => "list index out of range"
  | sameParties account => s!"Transaction sender and recipient must differ (index {account})"
  | transactionBelowZero amount =>
    s!"Transaction amount must not be negative: {amount.toString}"
  | sameAccounts account => s!"Balance entry needs two different accounts (index {account})"
  | headerMissing keyword => s!"Ledger must start with a '{keyword} D.M.YYYY' header line"
  | lineMalformed number line => s!"Parsing error on line {number}: \"{line}\""
  | onLine number line cause => messageOnLine number line cause.message
  | notText => ""
  | notEncodable => ""
  | nullInPath => "embedded null byte"
  | file cause path => s!"{systemMessage cause}: {Text.quoted path}"
  | reading cause => systemMessage cause

/-- The fault of a line of a ledger, given what went wrong there. An overflow breaks the
reading off and is not told with its line. -/
def atLine (number : Nat) (line : String) : Fault → Fault
  | overflow => .overflow
  | cause => .onLine number line cause

end Fault

end HouseLedger
