import HouseLedger.Calendar.Period
import HouseLedger.Proofs.Calendar.DayNumber

/-!
# Moving dates

`Date.IsMoved d months days r` says in terms of the calendar alone that `r` lies
`months` months and then `days` days after `d`. `Date.advance_eq_ok_iff` says that
`Date.advance` finds that date wherever there is one.

Moving further by both months and days leads to a later date
(`Date.IsMoved.lt_of_lt`), and a date that can be reached leaves no gap before it
(`Date.IsMoved.exists_of_le`).
-/

namespace HouseLedger

open Calendar

namespace Date

/-- The date `r` is reached from `d` by first moving `months` months, to the same day of
the month or to the last day of a month that is too short, and then `days` days. -/
def IsMoved (d : Date) (months days : Int) (r : Date) : Prop :=
  ∃ turn : Date, (turn.monthNumber : Int) = d.monthNumber + months ∧
    turn.day = min d.day (daysInMonth turn.year turn.month) ∧
    (r.dayNumber : Int) = turn.dayNumber + days

/-! ## Shifts -/

/-- A date is told by its month and its day. -/
theorem eq_of_monthNumber_eq {a b : Date} (h : a.monthNumber = b.monthNumber)
    (hday : a.day = b.day) : a = b := by
  have ha := a.month_bounds
  have hb := b.month_bounds
  apply eq_of_place_eq
  rw [monthNumber, monthNumber] at h
  rw [place, place]
  omega

/-- Every month of the calendar has the day, or a last day before it. -/
theorem onDayOfMonth?_of_isYear {number day : Nat} (h : 1 ≤ day) (hyear : IsYear (number / 12)) :
    ∃ d, onDayOfMonth? number day h = some d ∧ d.monthNumber = number ∧
      d.day = min day (daysInMonth d.year d.month) := by
  refine ⟨⟨number / 12, number % 12 + 1, min day (daysInMonth (number / 12) (number % 12 + 1)),
    hyear, ⟨by omega, by omega⟩, ⟨Nat.le_min.mpr ⟨h, daysInMonth_pos ..⟩, Nat.min_le_right ..⟩⟩,
    dif_pos hyear, ?_, rfl⟩
  show 12 * (number / 12) + (number % 12 + 1 - 1) = number
  omega

theorem isYear_monthNumber (d : Date) : IsYear (d.monthNumber / 12) := by
  have hmonth := d.month_bounds
  have hyear : d.monthNumber / 12 = d.year := by
    rw [monthNumber]
    omega
  rw [hyear]
  exact d.isYear

theorem onDayOfMonth?_eq_some_iff {number day : Nat} (h : 1 ≤ day) (d : Date) :
    onDayOfMonth? number day h = some d ↔
      d.monthNumber = number ∧ d.day = min day (daysInMonth d.year d.month) := by
  constructor
  · intro hsome
    by_cases hyear : IsYear (number / 12)
    · obtain ⟨d', hsome', hmonth, hday⟩ := onDayOfMonth?_of_isYear h hyear
      rw [hsome, Option.some.injEq] at hsome'
      rw [hsome']
      exact ⟨hmonth, hday⟩
    · rw [onDayOfMonth?, dif_neg hyear] at hsome
      cases hsome
  · rintro ⟨rfl, hday⟩
    obtain ⟨d', hsome, hmonth, hday'⟩ := onDayOfMonth?_of_isYear h d.isYear_monthNumber
    have hplace : d'.year = d.year ∧ d'.month = d.month := by
      have := d.month_bounds
      have := d'.month_bounds
      rw [monthNumber, monthNumber] at hmonth
      omega
    rw [hplace.1, hplace.2, ← hday] at hday'
    rw [hsome, eq_of_monthNumber_eq hmonth hday']

theorem shiftMonths?_eq_some_iff (d : Date) (months : Int) (r : Date) :
    d.shiftMonths? months = some r ↔
      (r.monthNumber : Int) = d.monthNumber + months ∧
        r.day = min d.day (daysInMonth r.year r.month) := by
  have hyear := r.isYear.1
  have hpos : 12 ≤ r.monthNumber := by rw [monthNumber]; omega
  rw [shiftMonths?, onDayOfMonth?_eq_some_iff]
  constructor
  · rintro ⟨hmonth, hday⟩
    exact ⟨by omega, hday⟩
  · rintro ⟨hmonth, hday⟩
    exact ⟨by omega, hday⟩

theorem shiftDays?_eq_some_iff (d : Date) (days : Int) (r : Date) :
    d.shiftDays? days = some r ↔ (r.dayNumber : Int) = d.dayNumber + days := by
  have hpos := r.dayNumber_pos
  rw [shiftDays?, ofDayNumber?_eq_some_iff]
  omega

/-- A shift between two dates is never too long to be tried. -/
theorem natAbs_le_maxShift {a b : Date} {days : Int}
    (h : (b.dayNumber : Int) = a.dayNumber + days) : days.natAbs ≤ maxShift := by
  have ha := a.dayNumber_le_lastDay
  have hb := b.dayNumber_le_lastDay
  unfold lastDay at ha hb
  unfold maxShift
  omega

theorem advance_eq (d : Date) (p : Period) :
    d.advance p = match d.shiftMonths? p.totalMonths with
      | none => .error (.yearOutOfRange (d.yearAfterMonths p.totalMonths))
      | some turn =>
        if maxShift < p.days.natAbs then .error (.tooManyDays p.days)
        else match turn.shiftDays? p.days with
          | none => .error .dateOutOfRange
          | some reached => .ok reached := by
  unfold advance
  cases d.shiftMonths? p.totalMonths with
  | none => rfl
  | some turn =>
    by_cases hlong : maxShift < p.days.natAbs
    · simp only [if_pos hlong]
      rfl
    · simp only [if_neg hlong]
      cases turn.shiftDays? p.days with
      | none => rfl
      | some reached => rfl

/-- Advancing a date by a period finds the date that the calendar has there. -/
theorem advance_eq_ok_iff (d : Date) (p : Period) (r : Date) :
    d.advance p = .ok r ↔ d.IsMoved p.totalMonths p.days r := by
  rw [advance_eq]
  constructor
  · intro h
    cases hturn : d.shiftMonths? p.totalMonths with
    | none =>
      rw [hturn] at h
      cases h
    | some turn =>
      rw [hturn] at h
      dsimp only at h
      by_cases hlong : maxShift < p.days.natAbs
      · rw [if_pos hlong] at h
        cases h
      · rw [if_neg hlong] at h
        cases hdays : turn.shiftDays? p.days with
        | none =>
          rw [hdays] at h
          cases h
        | some reached =>
          rw [hdays] at h
          cases h
          obtain ⟨hmonth, hday⟩ := (shiftMonths?_eq_some_iff ..).mp hturn
          exact ⟨turn, hmonth, hday, (shiftDays?_eq_some_iff ..).mp hdays⟩
  · rintro ⟨turn, hmonth, hday, hnumber⟩
    have hturn := (shiftMonths?_eq_some_iff d p.totalMonths turn).mpr ⟨hmonth, hday⟩
    have hdays := (shiftDays?_eq_some_iff turn p.days r).mpr hnumber
    rw [hturn]
    dsimp only
    rw [if_neg (Nat.not_lt.mpr (natAbs_le_maxShift hnumber)), hdays]

/-! ## Moving further -/

theorem isMoved_zero (d : Date) : d.IsMoved 0 0 d :=
  ⟨d, by simp, (Nat.min_eq_left d.isDay.2).symm, by simp⟩

/-- There is one date to move the days from. -/
theorem turn_unique {d turn turn' : Date} {months : Int}
    (hmonth : (turn.monthNumber : Int) = d.monthNumber + months)
    (hday : turn.day = min d.day (daysInMonth turn.year turn.month))
    (hmonth' : (turn'.monthNumber : Int) = d.monthNumber + months)
    (hday' : turn'.day = min d.day (daysInMonth turn'.year turn'.month)) : turn = turn' := by
  have h := (shiftMonths?_eq_some_iff d months turn).mpr ⟨hmonth, hday⟩
  have h' := (shiftMonths?_eq_some_iff d months turn').mpr ⟨hmonth', hday'⟩
  rw [h, Option.some.injEq] at h'
  exact h'

/-- A date is moved to one place at most. -/
theorem IsMoved.unique {d r r' : Date} {months days : Int} (h : d.IsMoved months days r)
    (h' : d.IsMoved months days r') : r = r' := by
  obtain ⟨turn, hmonth, hday, hnumber⟩ := h
  obtain ⟨turn', hmonth', hday', hnumber'⟩ := h'
  have hturn := turn_unique hmonth hday hmonth' hday'
  subst hturn
  exact dayNumber_inj (by omega)

/-- The later of two months has the later days, whatever is cut off at its end. -/
theorem dayNumber_lt_of_monthNumber_lt {a b : Date} (h : a.monthNumber < b.monthNumber) :
    a.dayNumber < b.dayNumber := by
  have ha := a.month_bounds
  have hb := b.month_bounds
  rw [monthNumber, monthNumber] at h
  rw [← lt_iff_dayNumber_lt, lt_iff]
  omega

/-- More months or more days, and not less of the other, lead to a later date. -/
theorem IsMoved.lt_of_lt {d r r' : Date} {months months' days days' : Int}
    (h : d.IsMoved months days r) (h' : d.IsMoved months' days' r')
    (hmonths : months ≤ months') (hdays : days ≤ days')
    (hfurther : months < months' ∨ days < days') : r < r' := by
  obtain ⟨turn, hmonth, hday, hnumber⟩ := h
  obtain ⟨turn', hmonth', hday', hnumber'⟩ := h'
  rw [lt_iff_dayNumber_lt]
  rcases Int.lt_or_eq_of_le hmonths with hlt | heq
  · have := dayNumber_lt_of_monthNumber_lt (a := turn) (b := turn') (by omega)
    omega
  · -- Without a step by months both count their days from one date.
    subst heq
    have hturn := turn_unique hmonth hday hmonth' hday'
    subst hturn
    omega

/-- Where a date can be moved forward, it can be moved forward less. -/
theorem IsMoved.exists_of_le {d r' : Date} {months months' days days' : Int}
    (h' : d.IsMoved months' days' r') (hmonths : 0 ≤ months) (hmonths' : months ≤ months')
    (hdays : 0 ≤ days) (hdays' : days ≤ days') : ∃ r, d.IsMoved months days r := by
  obtain ⟨turn', hmonth', hday', hnumber'⟩ := h'
  -- The year lies between two years of the calendar.
  have hyear : IsYear ((d.monthNumber + months).toNat / 12) := by
    have hfirst := d.isYear_monthNumber.1
    have hlast := turn'.isYear_monthNumber.2
    exact ⟨by omega, by omega⟩
  obtain ⟨turn, -, hmonth, hday⟩ := onDayOfMonth?_of_isYear d.isDay.1 hyear
  have hturn : turn.dayNumber ≤ turn'.dayNumber := by
    rcases Int.lt_or_eq_of_le hmonths' with hlt | heq
    · exact Nat.le_of_lt (dayNumber_lt_of_monthNumber_lt (by omega))
    · subst heq
      exact Nat.le_of_eq (congrArg dayNumber (turn_unique (by omega) hday hmonth' hday'))
  have hpos := turn.dayNumber_pos
  have hlast := r'.dayNumber_le_lastDay
  have hreach : 1 ≤ (turn.dayNumber + days).toNat := by omega
  obtain ⟨r, hr⟩ := exists_dayNumber_eq hreach (by omega)
  exact ⟨r, turn, by omega, hday, by omega⟩

end Date

end HouseLedger
