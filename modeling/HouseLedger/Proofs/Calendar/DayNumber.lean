import HouseLedger.Calendar.Date

/-!
# Dates and the numbers of their days

`Date.dayNumber` counts the days of the calendar in their order.

* `Date.lt_iff_dayNumber_lt`: a later date has a larger number.
* `Date.ofDayNumber?_eq_some_iff`: `Date.ofDayNumber?` finds exactly the date that has
  a number.
* `Date.exists_dayNumber_eq`: every number from 1 to `Date.lastDay` is that of a date.
-/

namespace HouseLedger

open Calendar

namespace Calendar

/-! ## Lengths -/

/-- The length of a year. -/
def daysInYear (year : Nat) : Nat := if IsLeap year then 366 else 365

theorem daysInMonth_le (year month : Nat) : daysInMonth year month ≤ 31 := by
  unfold daysInMonth
  grind

end Calendar

namespace Date

theorem daysBeforeYear_succ {year : Nat} (h : 1 ≤ year) :
    daysBeforeYear (year + 1) = daysBeforeYear year + daysInYear year := by
  obtain ⟨past, rfl⟩ : ∃ past, year = past + 1 := ⟨year - 1, by omega⟩
  have hle : past / 100 ≤ past / 4 := by omega
  unfold daysBeforeYear daysInYear
  simp only [Nat.add_sub_cancel]
  -- Each quotient grows by one exactly where its divisor divides the year.
  simp only [Nat.succ_div, Nat.dvd_iff_mod_eq_zero]
  by_cases h4 : (past + 1) % 4 = 0
  · by_cases h100 : (past + 1) % 100 = 0
    · by_cases h400 : (past + 1) % 400 = 0
      · rw [if_pos h4, if_pos h100, if_pos h400, if_pos ⟨h4, .inr h400⟩]
        omega
      · rw [if_pos h4, if_pos h100, if_neg h400, if_neg (by simp [IsLeap, h100, h400])]
        omega
    · have h400 : ¬ (past + 1) % 400 = 0 := by omega
      rw [if_pos h4, if_neg h100, if_neg h400, if_pos ⟨h4, .inl h100⟩]
      omega
  · have h100 : ¬ (past + 1) % 100 = 0 := by omega
    have h400 : ¬ (past + 1) % 400 = 0 := by omega
    rw [if_neg h4, if_neg h100, if_neg h400, if_neg (by simp [IsLeap, h4])]
    omega

theorem daysBeforeYear_mono {a b : Nat} (ha : 1 ≤ a) (h : a ≤ b) :
    daysBeforeYear a ≤ daysBeforeYear b := by
  induction h with
  | refl => exact Nat.le_refl _
  | step hab ih =>
    rw [Nat.succ_eq_add_one, daysBeforeYear_succ (Nat.le_trans ha hab)]
    exact Nat.le_add_right_of_le ih

theorem daysBeforeMonth_one (year : Nat) : daysBeforeMonth year 1 = 0 := rfl

theorem daysBeforeMonth_succ (year : Nat) {month : Nat} (h : 1 ≤ month) :
    daysBeforeMonth year (month + 1) = daysBeforeMonth year month + daysInMonth year month := by
  obtain ⟨m, rfl⟩ : ∃ m, month = m + 1 := ⟨month - 1, by omega⟩
  simp only [daysBeforeMonth, Nat.add_sub_cancel, List.range'_concat, List.foldl_append,
    List.foldl_cons, List.foldl_nil]
  rw [Nat.one_mul, Nat.add_comm 1 m]

theorem daysBeforeMonth_mono (year : Nat) {a b : Nat} (ha : 1 ≤ a) (h : a ≤ b) :
    daysBeforeMonth year a ≤ daysBeforeMonth year b := by
  induction h with
  | refl => exact Nat.le_refl _
  | step hab ih =>
    rw [Nat.succ_eq_add_one, daysBeforeMonth_succ year (Nat.le_trans ha hab)]
    exact Nat.le_add_right_of_le ih

/-- A year is as long as its twelve months together. -/
theorem daysBeforeMonth_thirteen (year : Nat) : daysBeforeMonth year 13 = daysInYear year := by
  have h (m : Nat) : daysBeforeMonth year (m + 1 + 1) =
      daysBeforeMonth year (m + 1) + daysInMonth year (m + 1) :=
    daysBeforeMonth_succ year (by omega)
  rw [h 11, h 10, h 9, h 8, h 7, h 6, h 5, h 4, h 3, h 2, h 1, h 0, daysBeforeMonth_one]
  simp only [daysInMonth, daysInYear]
  split <;> rfl

/-! ## Order -/

theorem lt_def (a b : Date) : a < b ↔ a.place < b.place := Iff.rfl

theorem le_refl (d : Date) : d ≤ d := Nat.le_refl d.place

theorem le_trans {a b c : Date} (h : a ≤ b) (h' : b ≤ c) : a ≤ c := Nat.le_trans h h'

theorem lt_trans {a b c : Date} (h : a < b) (h' : b < c) : a < c := Nat.lt_trans h h'

theorem lt_of_le_of_lt {a b c : Date} (h : a ≤ b) (h' : b < c) : a < c :=
  Nat.lt_of_le_of_lt h h'

theorem lt_of_lt_of_le {a b c : Date} (h : a < b) (h' : b ≤ c) : a < c :=
  Nat.lt_of_lt_of_le h h'

theorem le_of_lt {a b : Date} (h : a < b) : a ≤ b := Nat.le_of_lt h

theorem not_lt {a b : Date} : ¬ a < b ↔ b ≤ a := Nat.not_lt

theorem not_le {a b : Date} : ¬ a ≤ b ↔ b < a := Nat.not_le

theorem le_min_iff {a b c : Date} : a ≤ min b c ↔ a ≤ b ∧ a ≤ c := by
  have hmin : min b c = if b ≤ c then b else c := rfl
  by_cases h : b ≤ c
  · rw [hmin, if_pos h]
    exact ⟨fun ha => ⟨ha, le_trans ha h⟩, And.left⟩
  · rw [hmin, if_neg h]
    exact ⟨fun ha => ⟨le_trans ha (le_of_lt (not_le.mp h)), ha⟩, And.right⟩

theorem day_bounds (d : Date) :
    1 ≤ d.day ∧ d.day ≤ daysInMonth d.year d.month ∧ d.day ≤ 31 :=
  ⟨d.isDay.1, d.isDay.2, Nat.le_trans d.isDay.2 (daysInMonth_le ..)⟩

theorem month_bounds (d : Date) : 1 ≤ d.month ∧ d.month ≤ 12 := d.isMonth

/-- Dates compare by year, then by month, then by day. -/
theorem lt_iff (a b : Date) :
    a < b ↔ a.year < b.year ∨ a.year = b.year ∧
      (a.month < b.month ∨ a.month = b.month ∧ a.day < b.day) := by
  have ha := a.day_bounds
  have hb := b.day_bounds
  have ha' := a.month_bounds
  have hb' := b.month_bounds
  rw [lt_def, place, place]
  omega

/-- The days of a month lie before the next month. -/
theorem dayOfYear_le (d : Date) :
    daysBeforeMonth d.year d.month + d.day ≤ daysBeforeMonth d.year (d.month + 1) := by
  rw [daysBeforeMonth_succ d.year d.isMonth.1]
  exact Nat.add_le_add_left d.isDay.2 _

/-- The days of a year lie before the next year. -/
theorem dayNumber_bounds (d : Date) :
    daysBeforeYear d.year < d.dayNumber ∧ d.dayNumber ≤ daysBeforeYear (d.year + 1) := by
  have hday := d.day_bounds
  have hmonth := d.month_bounds
  have hle := d.dayOfYear_le
  have hyear := daysBeforeMonth_mono d.year (a := d.month + 1) (b := 13) (by omega) (by omega)
  rw [daysBeforeMonth_thirteen] at hyear
  rw [daysBeforeYear_succ d.isYear.1, dayNumber]
  omega

theorem dayNumber_lt_of_lt {a b : Date} (h : a < b) : a.dayNumber < b.dayNumber := by
  rcases (lt_iff a b).mp h with hyear | ⟨hyear, hmonth | ⟨hmonth, hday⟩⟩
  · have ha := a.dayNumber_bounds
    have hb := b.dayNumber_bounds
    have hmono := daysBeforeYear_mono (a := a.year + 1) (by omega) hyear
    omega
  · have ha := a.dayOfYear_le
    have hb := b.day_bounds
    have hmono := daysBeforeMonth_mono a.year (a := a.month + 1) (by omega) hmonth
    rw [dayNumber, dayNumber, ← hyear]
    omega
  · rw [dayNumber, dayNumber, ← hyear, ← hmonth]
    omega

theorem eq_of_place_eq {a b : Date} (h : a.place = b.place) : a = b := by
  have ha := a.day_bounds
  have hb := b.day_bounds
  have ha' := a.month_bounds
  have hb' := b.month_bounds
  rw [place, place] at h
  have hyear : a.year = b.year := by omega
  have hmonth : a.month = b.month := by omega
  have hday : a.day = b.day := by omega
  cases a
  cases b
  subst hyear hmonth hday
  rfl

/-- A later date has a larger number. -/
theorem lt_iff_dayNumber_lt (a b : Date) : a < b ↔ a.dayNumber < b.dayNumber := by
  constructor
  · exact dayNumber_lt_of_lt
  · intro h
    rcases Nat.lt_trichotomy a.place b.place with hlt | heq | hgt
    · exact hlt
    · rw [eq_of_place_eq heq] at h
      exact absurd h (Nat.lt_irrefl _)
    · exact absurd (dayNumber_lt_of_lt (a := b) (b := a) hgt) (Nat.lt_asymm h)

theorem dayNumber_inj {a b : Date} (h : a.dayNumber = b.dayNumber) : a = b := by
  have hab := lt_iff_dayNumber_lt a b
  have hba := lt_iff_dayNumber_lt b a
  rw [lt_def] at hab hba
  exact eq_of_place_eq (by omega)

/-! ## From numbers to dates -/

/-- The days before a year that is given by its place in cycles of 400, of 100 and of
4 years. -/
theorem daysBeforeYear_parts (cycles : Nat) {centuries fours years : Nat} (hc : centuries ≤ 3)
    (hf : fours ≤ 24) (hy : years ≤ 3) :
    daysBeforeYear (400 * cycles + 100 * centuries + 4 * fours + years + 1) =
      146097 * cycles + 36524 * centuries + 1461 * fours + 365 * years := by
  unfold daysBeforeYear
  dsimp only
  have h4 : (400 * cycles + 100 * centuries + 4 * fours + years) / 4 =
      100 * cycles + 25 * centuries + fours := by omega
  have h100 : (400 * cycles + 100 * centuries + 4 * fours + years) / 100 =
      4 * cycles + centuries := by omega
  have h400 : (400 * cycles + 100 * centuries + 4 * fours + years) / 400 = cycles := by omega
  rw [Nat.add_sub_cancel, h4, h100, h400]
  omega

theorem daysInYear_ge (year : Nat) : 365 ≤ daysInYear year := by
  unfold daysInYear
  split <;> omega

/-- The year of a day is the one that the day lies in. -/
theorem yearOfDay_bounds {number : Nat} (h : 1 ≤ number) :
    1 ≤ yearOfDay number ∧ daysBeforeYear (yearOfDay number) < number ∧
      number ≤ daysBeforeYear (yearOfDay number + 1) := by
  unfold yearOfDay
  dsimp only
  generalize hcycles : (number - 1) / 146097 = cycles
  generalize hp₁ : (number - 1) % 146097 = past₁
  generalize hcenturies : min (past₁ / 36524) 3 = centuries
  generalize hp₂ : past₁ - 36524 * centuries = past₂
  generalize hfours : past₂ / 1461 = fours
  generalize hp₃ : past₂ % 1461 = past₃
  generalize hyears : min (past₃ / 365) 3 = years
  have hnumber : number = 146097 * cycles + past₁ + 1 := by omega
  have hcentury : past₁ = 36524 * centuries + past₂ ∧ centuries ≤ 3 ∧
      (past₂ < 36524 ∨ centuries = 3 ∧ past₂ = 36524) := by omega
  have hfour : past₂ = 1461 * fours + past₃ ∧ past₃ < 1461 ∧ fours ≤ 24 := by omega
  have hyear : 365 * years ≤ past₃ ∧ years ≤ 3 ∧
      (past₃ < 365 * years + 365 ∨ years = 3 ∧ past₃ = 1460) := by omega
  have hbefore := daysBeforeYear_parts cycles hcentury.2.1 hfour.2.2 hyear.2.1
  rw [hbefore, daysBeforeYear_succ (Nat.le_add_left 1 _), hbefore]
  refine ⟨by omega, by omega, ?_⟩
  rcases hyear.2.2 with hinside | ⟨hlast, hleapDay⟩
  · have := daysInYear_ge (400 * cycles + 100 * centuries + 4 * fours + years + 1)
    omega
  · -- Only the last year of four has a day 366, unless it ends a century but no cycle.
    have hleap : IsLeap (400 * cycles + 100 * centuries + 4 * fours + years + 1) := by
      refine ⟨by omega, ?_⟩
      by_cases hend : fours = 24
      · exact .inr (by omega)
      · exact .inl (by omega)
    rw [daysInYear, if_pos hleap]
    omega

/-- Bounds of this kind determine the year. -/
theorem year_unique {a b number : Nat} (ha : 1 ≤ a) (hb : 1 ≤ b)
    (ha' : daysBeforeYear a < number ∧ number ≤ daysBeforeYear (a + 1))
    (hb' : daysBeforeYear b < number ∧ number ≤ daysBeforeYear (b + 1)) : a = b := by
  rcases Nat.lt_trichotomy a b with hlt | heq | hgt
  · have := daysBeforeYear_mono (a := a + 1) (by omega) hlt
    omega
  · exact heq
  · have := daysBeforeYear_mono (a := b + 1) (by omega) hgt
    omega

theorem yearOfDay_dayNumber (d : Date) : yearOfDay d.dayNumber = d.year := by
  have hbounds := d.dayNumber_bounds
  have hpos : 1 ≤ d.dayNumber := by omega
  obtain ⟨hyear, hlow, hhigh⟩ := yearOfDay_bounds hpos
  exact year_unique hyear d.isYear.1 ⟨hlow, hhigh⟩ hbounds

/-- The month of a day is the one that the day lies in. -/
theorem monthOfDay_eq {year month day : Nat} (hmonth : IsMonth month)
    (hlow : daysBeforeMonth year month < day) (hhigh : day ≤ daysBeforeMonth year (month + 1)) :
    monthOfDay year day = month := by
  have hsplit : List.range' 1 12 = List.range' 1 month ++ List.range' (1 + month) (12 - month) := by
    rw [List.range'_append_1, Nat.add_sub_cancel' hmonth.2]
  have hbegun : ∀ m ∈ List.range' 1 month, decide (daysBeforeMonth year m < day) = true := by
    intro m hm
    rw [List.mem_range'_1] at hm
    have := daysBeforeMonth_mono year hm.1 (b := month) (by omega)
    exact decide_eq_true (by omega)
  have hahead : ∀ m ∈ List.range' (1 + month) (12 - month),
      ¬ decide (daysBeforeMonth year m < day) = true := by
    intro m hm
    rw [List.mem_range'_1] at hm
    have := daysBeforeMonth_mono year (a := month + 1) (b := m) (by omega) (by omega)
    rw [decide_eq_true_iff]
    omega
  rw [monthOfDay, hsplit, List.filter_append, List.filter_eq_self.mpr hbegun,
    List.filter_eq_nil_iff.mpr hahead, List.append_nil, List.length_range']

theorem ofFields_toOption_eq_some_iff (year month day : Nat) (d : Date) :
    (ofFields year month day).toOption = some d ↔
      year = d.year ∧ month = d.month ∧ day = d.day := by
  constructor
  · intro h
    unfold ofFields at h
    split at h
    · split at h
      · split at h
        · cases h
          exact ⟨rfl, rfl, rfl⟩
        · cases h
      · cases h
    · cases h
  · rintro ⟨rfl, rfl, rfl⟩
    rw [ofFields, dif_pos d.isYear, dif_pos d.isMonth, dif_pos d.isDay]
    rfl

theorem ofDayNumber?_dayNumber (d : Date) : ofDayNumber? d.dayNumber = some d := by
  have hday : d.dayNumber - daysBeforeYear d.year =
      daysBeforeMonth d.year d.month + d.day := by
    rw [dayNumber]
    omega
  have hmonth : monthOfDay d.year (daysBeforeMonth d.year d.month + d.day) = d.month :=
    monthOfDay_eq d.isMonth (by have := d.isDay.1; omega) d.dayOfYear_le
  unfold ofDayNumber?
  dsimp only
  rw [ofFields_toOption_eq_some_iff, yearOfDay_dayNumber, hday, hmonth]
  exact ⟨rfl, rfl, by omega⟩

/-- A day of a year lies in one of its months. -/
theorem exists_month {year day : Nat} (hlow : 1 ≤ day) (hhigh : day ≤ daysInYear year) :
    ∃ month, IsMonth month ∧ daysBeforeMonth year month < day ∧
      day ≤ daysBeforeMonth year (month + 1) := by
  rw [← daysBeforeMonth_thirteen] at hhigh
  suffices h : ∀ k, day ≤ daysBeforeMonth year (k + 1) → ∃ month, 1 ≤ month ∧ month ≤ k ∧
      daysBeforeMonth year month < day ∧ day ≤ daysBeforeMonth year (month + 1) by
    obtain ⟨month, hpos, hle, hin⟩ := h 12 hhigh
    exact ⟨month, ⟨hpos, hle⟩, hin⟩
  intro k hk
  induction k with
  | zero =>
    rw [daysBeforeMonth_one] at hk
    omega
  | succ k ih =>
    by_cases hin : daysBeforeMonth year (k + 1) < day
    · exact ⟨k + 1, by omega, Nat.le_refl _, hin, hk⟩
    · obtain ⟨month, hpos, hle, hmonth⟩ := ih (by omega)
      exact ⟨month, hpos, by omega, hmonth⟩

/-- The number of days in the calendar. -/
def lastDay : Nat := 3652059

theorem daysBeforeYear_end : daysBeforeYear (lastYear + 1) = lastDay := rfl

theorem dayNumber_pos (d : Date) : 1 ≤ d.dayNumber := by
  have := d.dayNumber_bounds
  omega

theorem dayNumber_le_lastDay (d : Date) : d.dayNumber ≤ lastDay := by
  have hbounds := d.dayNumber_bounds
  have hmono := daysBeforeYear_mono (a := d.year + 1) (b := lastYear + 1) (by omega)
    (Nat.succ_le_succ d.isYear.2)
  rw [daysBeforeYear_end] at hmono
  omega

theorem yearOfDay_le_iff {number : Nat} (h : 1 ≤ number) :
    yearOfDay number ≤ lastYear ↔ number ≤ lastDay := by
  obtain ⟨hyear, hbefore, hafter⟩ := yearOfDay_bounds h
  rw [← daysBeforeYear_end]
  constructor
  · intro hle
    exact Nat.le_trans hafter (daysBeforeYear_mono (by omega) (Nat.succ_le_succ hle))
  · intro hle
    refine Nat.le_of_not_lt fun hbeyond => ?_
    have := daysBeforeYear_mono (a := lastYear + 1) (by decide) hbeyond
    omega

/-- Every number up to that of the last day is the number of a date. -/
theorem exists_dayNumber_eq {number : Nat} (hlow : 1 ≤ number) (hhigh : number ≤ lastDay) :
    ∃ d : Date, d.dayNumber = number := by
  obtain ⟨hyear, hbefore, hafter⟩ := yearOfDay_bounds hlow
  have hlast := (yearOfDay_le_iff hlow).mpr hhigh
  rw [daysBeforeYear_succ hyear] at hafter
  have hday : 1 ≤ number - daysBeforeYear (yearOfDay number) ∧
      number - daysBeforeYear (yearOfDay number) ≤ daysInYear (yearOfDay number) := by omega
  obtain ⟨month, hmonth, hin, hout⟩ := exists_month hday.1 hday.2
  rw [daysBeforeMonth_succ _ hmonth.1] at hout
  refine ⟨⟨yearOfDay number, month,
    number - daysBeforeYear (yearOfDay number) - daysBeforeMonth (yearOfDay number) month,
    ⟨hyear, hlast⟩, hmonth, ⟨by omega, by omega⟩⟩, ?_⟩
  rw [dayNumber]
  dsimp only
  omega

/-- The date of a number is the one that has it, inside the calendar or not. -/
theorem ofDayNumber?_eq_some_iff (number : Nat) (d : Date) :
    ofDayNumber? number = some d ↔ d.dayNumber = number := by
  constructor
  · intro h
    by_cases hlow : 1 ≤ number
    · by_cases hhigh : number ≤ lastDay
      · obtain ⟨d', rfl⟩ := exists_dayNumber_eq hlow hhigh
        rw [ofDayNumber?_dayNumber, Option.some.injEq] at h
        rw [h]
      · -- Behind the last day the year is beyond the calendar.
        have hfields := (ofFields_toOption_eq_some_iff ..).mp h
        have hyear := d.isYear.2
        rw [← hfields.1, yearOfDay_le_iff hlow] at hyear
        exact absurd hyear hhigh
    · have hzero : number = 0 := by omega
      subst hzero
      cases h
  · rintro rfl
    exact ofDayNumber?_dayNumber d

end Date

end HouseLedger
