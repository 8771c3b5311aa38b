import HouseLedger.Calendar.Period
import HouseLedger.Text.Blank

/-!
# Written dates

A ledger writes dates as `D.M.YYYY`: one or two digits for the day and for the
month, four for the year. `WrittenDate` keeps the digits as they stand, since a
message repeats them; `WrittenDate.toDate` is the date that they name, and
`WrittenDate.toPeriod` reads the same three numbers as a step.
-/

namespace HouseLedger

/-- The digits of a text of the form `D.M.YYYY`. -/
structure WrittenDate where
  /-- One or two digits. -/
  day : List Char
  /-- One or two digits. -/
  month : List Char
  /-- Four digits. -/
  year : List Char
  deriving DecidableEq, Repr

namespace WrittenDate

/-! ## Reading -/

/-- Takes the digits off the front of a text if there are `least` to `most` of them. -/
def takeDigits? (least most : Nat) (text : List Char) : Option (List Char × List Char) :=
  let (digits, rest) := text.span Char.isDigit
  if least ≤ digits.length ∧ digits.length ≤ most then some (digits, rest) else none

/-- Takes a point off the front of a text. -/
def takePoint? : List Char → Option (List Char)
  | '.' :: rest => some rest
  | _ => none

/-- Takes a written date off the front of a text that does not go on with a digit. -/
def take? (text : List Char) : Option (WrittenDate × List Char) := do
  let (day, text) ← takeDigits? 1 2 text
  let text ← takePoint? text
  let (month, text) ← takeDigits? 1 2 text
  let text ← takePoint? text
  let (year, text) ← takeDigits? 4 4 text
  return (⟨day, month, year⟩, text)

/-- Reads a text that is a written date but for blanks around it. -/
def ofString (text : String) : Except Fault WrittenDate :=
  match take? (Text.strip text.toList) with
  | some (written, []) => .ok written
  | _ => .error (.dateUnreadable text)

/-! ## What it says -/

/-- The text that was read. -/
def text (w : WrittenDate) : String :=
  String.ofList (w.day ++ '.' :: w.month ++ '.' :: w.year)

/-- The number of the day. -/
def dayNumber (w : WrittenDate) : Nat := Nat.ofDigitChars 10 w.day 0

/-- The number of the month. -/
def monthNumber (w : WrittenDate) : Nat := Nat.ofDigitChars 10 w.month 0

/-- The number of the year. -/
def yearNumber (w : WrittenDate) : Nat := Nat.ofDigitChars 10 w.year 0

/-- The date that is written, if the calendar has it. -/
def toDate (w : WrittenDate) : Except Fault Date :=
  (Date.ofFields w.yearNumber w.monthNumber w.dayNumber).mapError (.dateUnreal w.text)

/-- The step of so many days, months and years. In ledgers of the older kind the
field of the days gives the years as well, and that of the years is idle. -/
def toPeriod (w : WrittenDate) (legacyYears : Bool) : Period :=
  ⟨w.dayNumber, w.monthNumber, if legacyYears then w.dayNumber else w.yearNumber⟩

end WrittenDate

namespace Date

/-- Reads a date as ledgers write it. -/
def ofString (text : String) : Except Fault Date := do
  (← WrittenDate.ofString text).toDate

/-- Writes a date as ledgers do, no number being filled up with zeros. -/
def toString (d : Date) : String := s!"{d.day}.{d.month}.{d.year}"

/-- The number with at least `width` digits. -/
def padded (width n : Nat) : String :=
  let digits := Nat.toDigits 10 n
  String.ofList (List.replicate (width - digits.length) '0' ++ digits)

/-- Writes a date as logs do: year, month and day, filled up with zeros. -/
def toLogString (d : Date) : String :=
  padded 4 d.year ++ "-" ++ padded 2 d.month ++ "-" ++ padded 2 d.day

end Date

/-- Reads a step that is written like a date. -/
def Period.ofString (text : String) (legacyYears : Bool) : Except Fault Period := do
  return (← WrittenDate.ofString text).toPeriod legacyYears

end HouseLedger
