import HouseLedger.Fault

/-!
# Periods

A period is the step between the occurrences of a recurring invoice: days, months
and years. `Date.advance` moves a date by a period, months first.
-/

namespace HouseLedger

/-- A step of days, months and years. -/
structure Period where
  /-- The days, added last. -/
  days : Int := 0
  /-- The months. -/
  months : Int := 0
  /-- The years, twelve months each. -/
  years : Int := 0
  deriving DecidableEq, Repr

namespace Period

/-- The period taken `factor` times. -/
def scale (p : Period) (factor : Int) : Period :=
  ⟨p.days * factor, p.months * factor, p.years * factor⟩

/-- Whether none of the three fields moves a date. -/
def isEmpty (p : Period) : Bool := p.days == 0 && p.months == 0 && p.years == 0

/-- Months and years together, in months. -/
def totalMonths (p : Period) : Int := 12 * p.years + p.months

end Period

namespace Date

/-- The largest number of days, in either direction, that a shift may have. -/
def maxShift : Nat := 999999999

/-- The date one period later. The months are added first, the day of the month
being cut down to a shorter month, and the days are added to the date reached. -/
def advance (d : Date) (p : Period) : Except Fault Date := do
  let some moved := d.shiftMonths? p.totalMonths
    | throw (.yearOutOfRange (d.yearAfterMonths p.totalMonths))
  if maxShift < p.days.natAbs then throw (.tooManyDays p.days)
  let some reached := moved.shiftDays? p.days
    | throw .dateOutOfRange
  return reached

end Date

end HouseLedger
