import HouseLedger.Calendar.Written
import HouseLedger.Proofs.Outcome

/-!
# Written dates

The digits of a written date name a date of the calendar (`WrittenDate.Names`) or miss it
(`WrittenDate.Misses`), and are read so; read as a period they lead on or do not
(`WrittenDate.LeadsOn`).
-/

namespace HouseLedger

open Calendar Outcome

namespace WrittenDate

/-- The digits name the date. -/
def Names (w : WrittenDate) (d : Date) : Prop :=
  d.day = w.dayNumber ∧ d.month = w.monthNumber ∧ d.year = w.yearNumber

/-- The digits name some date. -/
def IsReal (w : WrittenDate) : Prop := ∃ date, w.Names date

/-- What keeps the digits from naming a date. -/
inductive Misses (w : WrittenDate) : DateDefect → Prop
  | year : ¬ IsYear w.yearNumber → Misses w (.year w.yearNumber)
  | month : IsYear w.yearNumber → ¬ IsMonth w.monthNumber → Misses w .month
  | day : IsYear w.yearNumber → IsMonth w.monthNumber →
      ¬ IsDay w.yearNumber w.monthNumber w.dayNumber → Misses w .day

theorem toDate_eq_ok_iff {w : WrittenDate} {d : Date} : w.toDate = .ok d ↔ w.Names d := by
  rw [toDate, mapError_eq_ok, Names]
  unfold Date.ofFields
  constructor
  · intro h
    split at h
    · split at h
      · split at h
        · cases h
          exact ⟨rfl, rfl, rfl⟩
        · cases h
      · cases h
    · cases h
  · rintro ⟨hday, hmonth, hyear⟩
    rw [← hday, ← hmonth, ← hyear, dif_pos d.isYear, dif_pos d.isMonth, dif_pos d.isDay]

theorem exists_misses_of_toDate_eq_error {w : WrittenDate} {fault : Fault}
    (h : w.toDate = .error fault) :
    ∃ defect, w.Misses defect ∧ fault = .dateUnreal w.text defect := by
  obtain ⟨defect, hfields, rfl⟩ := mapError_eq_error.mp h
  refine ⟨defect, ?_, rfl⟩
  unfold Date.ofFields at hfields
  split at hfields
  · next hyear =>
    split at hfields
    · next hmonth =>
      split at hfields
      · cases hfields
      · next hday =>
        cases hfields
        exact .day hyear hmonth hday
    · next hmonth =>
      cases hfields
      exact .month hyear hmonth
  · next hyear =>
    cases hfields
    exact .year hyear

theorem Misses.not_isReal {w : WrittenDate} {defect : DateDefect} (h : w.Misses defect) :
    ¬ w.IsReal := by
  rintro ⟨date, hday, hmonth, hyear⟩
  cases h with
  | year hno => exact hno (hyear ▸ date.isYear)
  | month _ hno => exact hno (hmonth ▸ date.isMonth)
  | day _ _ hno => exact hno (hday ▸ hmonth ▸ hyear ▸ date.isDay)

/-- Of several defects only the first counts. -/
theorem Misses.unique {w : WrittenDate} {defect defect' : DateDefect} (h : w.Misses defect)
    (h' : w.Misses defect') : defect = defect' := by
  cases h with
  | year hyear =>
    cases h' with
    | year _ => rfl
    | month hyear' _ => exact absurd hyear' hyear
    | day hyear' _ _ => exact absurd hyear' hyear
  | month hyear hmonth =>
    cases h' with
    | year hyear' => exact absurd hyear hyear'
    | month _ _ => rfl
    | day _ hmonth' _ => exact absurd hmonth' hmonth
  | day hyear hmonth _ =>
    cases h' with
    | year hyear' => exact absurd hyear hyear'
    | month _ hmonth' => exact absurd hmonth hmonth'
    | day _ _ _ => rfl

/-- The digits, read as a period, lead on: the days, the months or, unless the days give them
as well, the years are not zero. -/
def LeadsOn (w : WrittenDate) (legacyYears : Bool) : Prop :=
  w.dayNumber ≠ 0 ∨ w.monthNumber ≠ 0 ∨ legacyYears = false ∧ w.yearNumber ≠ 0

theorem isEmpty_toPeriod_iff {w : WrittenDate} {legacyYears : Bool} :
    (w.toPeriod legacyYears).isEmpty = true ↔ ¬ w.LeadsOn legacyYears := by
  cases legacyYears with
  | true => grind [toPeriod, Period.isEmpty, LeadsOn]
  | false => grind [toPeriod, Period.isEmpty, LeadsOn]

end WrittenDate

end HouseLedger
