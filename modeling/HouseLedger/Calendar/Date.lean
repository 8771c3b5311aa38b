/-!
# Dates

The dates of the Gregorian calendar from the year 1 to the year 9999. A `Date` is a
calendar date by its type. This module holds

* the order of dates (`<`, `≤`, `min`);
* the number of a day, counted from the first date of the calendar
  (`Date.dayNumber`), and the date of a number (`Date.ofDayNumber?`);
* the shift by months, which stays inside the month it reaches
  (`Date.shiftMonths?`).
-/

namespace HouseLedger

namespace Calendar

/-! ## Years and months -/

/-- The last year of the calendar. -/
def lastYear : Nat := 9999

/-- Every fourth year has a 29th of February, a century only if 400 divides it. -/
def IsLeap (year : Nat) : Prop := year % 4 = 0 ∧ (year % 100 ≠ 0 ∨ year % 400 = 0)

instance (year : Nat) : Decidable (IsLeap year) := inferInstanceAs (Decidable (_ ∧ _))

/-- The length of a month. -/
def daysInMonth (year month : Nat) : Nat :=
  match month with
  | 2 => if IsLeap year then 29 else 28
  | 4 | 6 | 9 | 11 => 30
  | _ => 31

theorem daysInMonth_pos (year month : Nat) : 0 < daysInMonth year month := by
  unfold daysInMonth
  grind

/-- Whether the year is one of the calendar. -/
def IsYear (year : Nat) : Prop := 1 ≤ year ∧ year ≤ lastYear

/-- Whether the number is that of a month. -/
def IsMonth (month : Nat) : Prop := 1 ≤ month ∧ month ≤ 12

/-- Whether the month has such a day. -/
def IsDay (year month day : Nat) : Prop := 1 ≤ day ∧ day ≤ daysInMonth year month

instance (year : Nat) : Decidable (IsYear year) := inferInstanceAs (Decidable (_ ∧ _))
instance (month : Nat) : Decidable (IsMonth month) := inferInstanceAs (Decidable (_ ∧ _))
instance (year month day : Nat) : Decidable (IsDay year month day) :=
  inferInstanceAs (Decidable (_ ∧ _))

end Calendar

open Calendar

/-- A date of the calendar. -/
structure Date where
  /-- The year, from 1 on. -/
  year : Nat
  /-- The month, from 1 to 12. -/
  month : Nat
  /-- The day of the month, from 1 on. -/
  day : Nat
  isYear : IsYear year
  isMonth : IsMonth month
  isDay : IsDay year month day
  deriving DecidableEq

/-- What keeps three numbers from being a date. -/
inductive DateDefect where
  /-- The calendar has no such year. -/
  | year (year : Nat)
  /-- The year has no such month. -/
  | month
  /-- The month has no such day. -/
  | day
  deriving DecidableEq, Repr

namespace Date

/-- The date of a year, a month and a day. Of several defects the first in this
order is named. -/
def ofFields (year month day : Nat) : Except DateDefect Date :=
  if hy : IsYear year then
    if hm : IsMonth month then
      if hd : IsDay year month day then .ok ⟨year, month, day, hy, hm, hd⟩
      else .error .day
    else .error .month
  else .error (.year year)

/-! ## Order -/

/-- The place of a date in a calendar whose months all have 31 days. Dates come in
the order of their places. -/
def place (d : Date) : Nat := 372 * d.year + 31 * d.month + d.day

instance : LT Date := ⟨fun a b => a.place < b.place⟩
instance : LE Date := ⟨fun a b => a.place ≤ b.place⟩
instance (a b : Date) : Decidable (a < b) := inferInstanceAs (Decidable (a.place < b.place))
instance (a b : Date) : Decidable (a ≤ b) := inferInstanceAs (Decidable (a.place ≤ b.place))
instance : Min Date := minOfLe

/-! ## Numbered days -/

/-- The number of days before a year begins. -/
def daysBeforeYear (year : Nat) : Nat :=
  let past := year - 1
  365 * past + past / 4 - past / 100 + past / 400

/-- The number of days of a year before a month of it begins. -/
def daysBeforeMonth (year month : Nat) : Nat :=
  (List.range' 1 (month - 1)).foldl (fun days m => days + daysInMonth year m) 0

/-- The number of the day, the first of January of the year 1 having the number 1. -/
def dayNumber (d : Date) : Nat :=
  daysBeforeYear d.year + daysBeforeMonth d.year d.month + d.day

/-- The year that the numbered day lies in: whole cycles of 400 years, then whole
centuries, then whole cycles of four years, then whole years. The last century of
a cycle and the last year of four are a day longer than the others, which must not
count as one more. -/
def yearOfDay (number : Nat) : Nat :=
  let past := number - 1
  let cycles := past / 146097
  let past := past % 146097
  let centuries := min (past / 36524) 3
  let past := past - 36524 * centuries
  let fours := past / 1461
  let years := min (past % 1461 / 365) 3
  400 * cycles + 100 * centuries + 4 * fours + years + 1

/-- The month of a year that its numbered day lies in: as many months as begin
before that day ends. -/
def monthOfDay (year day : Nat) : Nat :=
  ((List.range' 1 12).filter fun month => daysBeforeMonth year month < day).length

/-- The date of the numbered day, if the calendar has it. -/
def ofDayNumber? (number : Nat) : Option Date :=
  let year := yearOfDay number
  let day := number - daysBeforeYear year
  let month := monthOfDay year day
  (ofFields year month (day - daysBeforeMonth year month)).toOption

/-! ## Shifts by months -/

/-- The months from the beginning of the year 0 to the month of the date. -/
def monthNumber (d : Date) : Nat := 12 * d.year + (d.month - 1)

/-- The date in the numbered month on the given day, or on the last day of a month
that is too short; `none` outside the calendar. -/
def onDayOfMonth? (number : Nat) (day : Nat) (h : 1 ≤ day) : Option Date :=
  let year := number / 12
  let month := number % 12 + 1
  if hy : IsYear year then
    some ⟨year, month, min day (daysInMonth year month), hy,
      ⟨Nat.le_add_left .., Nat.mod_lt _ (by decide)⟩,
      ⟨Nat.le_min.mpr ⟨h, daysInMonth_pos ..⟩, Nat.min_le_right ..⟩⟩
  else none

/-- The year that lies `months` months after the date, inside the calendar or not. -/
def yearAfterMonths (d : Date) (months : Int) : Int := (d.monthNumber + months) / 12

/-- The date `months` months later, its day cut down to the length of the month
reached; `none` outside the calendar. -/
def shiftMonths? (d : Date) (months : Int) : Option Date :=
  onDayOfMonth? (d.monthNumber + months).toNat d.day d.isDay.1

/-- The date `days` days later, if the calendar has it. -/
def shiftDays? (d : Date) (days : Int) : Option Date :=
  ofDayNumber? (d.dayNumber + days).toNat

end Date

end HouseLedger
