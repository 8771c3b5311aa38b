import HouseLedger.Recurrence
import HouseLedger.Proofs.Calendar.Advance
import HouseLedger.Proofs.Outcome

/-!
# The dates of a recurring invoice

1. `Recurrence.IsOccurrence.lt_of_lt`, `Recurrence.IsOccurrence.exists_of_le`: under a
   period that leads forward a later occurrence has a later date, and a date that the
   calendar has is preceded by dates that it has.
2. `Recurrence.exists_run`, `Recurrence.Run.occurrencesFrom_eq`: the search for dates
   ends by itself, before its steps run out.
3. `Recurrence.IsExpansion`: the dates that are found are all that there are up to the
   last day, in their order.
4. `Recurrence.occurrences_filter`: an earlier reference date only cuts off later dates.
-/

namespace HouseLedger

/-- A period that leads forward: no field is negative, and not all are zero. -/
structure Period.IsForward (p : Period) : Prop where
  days_nonneg : 0 ≤ p.days
  months_nonneg : 0 ≤ p.months
  years_nonneg : 0 ≤ p.years
  not_isEmpty : p.isEmpty = false

namespace Recurrence

variable {start last : Date} {p : Period}

/-! ## Occurrences -/

/-- The occurrence number `k`: the first date moved by `k` times the months and years of
the period, and then by `k` times its days. -/
def IsOccurrence (start : Date) (p : Period) (k : Nat) (d : Date) : Prop :=
  start.IsMoved (k * (12 * p.years + p.months)) (k * p.days) d

theorem isOccurrence_zero (start : Date) (p : Period) : IsOccurrence start p 0 start := by
  have h := start.isMoved_zero
  simpa [IsOccurrence] using h

/-- A recurrence tries the dates that the calendar has. -/
theorem occurrence?_eq_some_iff (k : Nat) (d : Date) :
    occurrence? start p k = some d ↔ IsOccurrence start p k d := by
  have hmonths : (p.scale k).totalMonths = k * (12 * p.years + p.months) := by
    rw [Int.mul_add, Int.mul_left_comm, Int.mul_comm _ p.years, Int.mul_comm _ p.months]
    rfl
  have hdays : (p.scale k).days = k * p.days := Int.mul_comm ..
  have hadvance := Date.advance_eq_ok_iff start (p.scale k) d
  rw [hmonths, hdays] at hadvance
  rw [occurrence?, IsOccurrence, ← hadvance]
  exact Outcome.toOption_eq_some

theorem IsOccurrence.unique {k : Nat} {d d' : Date} (h : IsOccurrence start p k d)
    (h' : IsOccurrence start p k d') : d = d' :=
  Date.IsMoved.unique h h'

/-- A later occurrence has a later date. -/
theorem IsOccurrence.lt_of_lt (hp : p.IsForward) {k k' : Nat} {d d' : Date}
    (h : IsOccurrence start p k d) (h' : IsOccurrence start p k' d') (hk : k < k') : d < d' := by
  have hd := hp.days_nonneg
  have hm : 0 ≤ 12 * p.years + p.months := by
    have := hp.months_nonneg
    have := hp.years_nonneg
    omega
  have hle : (k : Int) ≤ k' := by omega
  have hlt : (k : Int) < k' := by omega
  refine Date.IsMoved.lt_of_lt h h' (Int.mul_le_mul_of_nonneg_right hle hm)
    (Int.mul_le_mul_of_nonneg_right hle hd) ?_
  -- One of the fields is positive, and `k'` times as much is more than `k` times.
  have hmoves : 0 < 12 * p.years + p.months ∨ 0 < p.days := by
    have hempty := hp.not_isEmpty
    have := hp.months_nonneg
    have := hp.years_nonneg
    simp only [Period.isEmpty, Bool.and_eq_false_iff, beq_eq_false_iff_ne] at hempty
    omega
  rcases hmoves with hmonths | hdays
  · exact .inl (Int.mul_lt_mul_of_pos_right hlt hmonths)
  · exact .inr (Int.mul_lt_mul_of_pos_right hlt hdays)

/-- An occurrence inside the calendar is preceded by occurrences inside the calendar. -/
theorem IsOccurrence.exists_of_le (hp : p.IsForward) {k k' : Nat} {d' : Date}
    (h' : IsOccurrence start p k' d') (hk : k ≤ k') : ∃ d, IsOccurrence start p k d := by
  have hd := hp.days_nonneg
  have hm : 0 ≤ 12 * p.years + p.months := by
    have := hp.months_nonneg
    have := hp.years_nonneg
    omega
  have hle : (k : Int) ≤ k' := by omega
  exact Date.IsMoved.exists_of_le h' (Int.mul_nonneg (Int.natCast_nonneg k) hm)
    (Int.mul_le_mul_of_nonneg_right hle hm) (Int.mul_nonneg (Int.natCast_nonneg k) hd)
    (Int.mul_le_mul_of_nonneg_right hle hd)

/-- There are `k` days before the occurrence number `k`. -/
theorem IsOccurrence.lt_dayNumber (hp : p.IsForward) {k : Nat} {d : Date}
    (h : IsOccurrence start p k d) : k < d.dayNumber := by
  induction k generalizing d with
  | zero => exact d.dayNumber_pos
  | succ k ih =>
    obtain ⟨d', h'⟩ := h.exists_of_le hp (Nat.le_succ k)
    have hlt := (Date.lt_iff_dayNumber_lt d' d).mp (h'.lt_of_lt hp h (Nat.lt_succ_self k))
    exact Nat.lt_of_le_of_lt (ih h') hlt

/-! ## The search for dates -/

/-- The dates that are found from the occurrence number `k` on: as many as follow one
another up to the last day. -/
inductive Run (start : Date) (p : Period) (last : Date) : Nat → List Date → Prop
  | stop {k : Nat} (beyond : ∀ d, IsOccurrence start p k d → last < d) : Run start p last k []
  | step {k : Nat} {d : Date} {ds : List Date} (here : IsOccurrence start p k d)
      (inside : d ≤ last) (rest : Run start p last (k + 1) ds) : Run start p last k (d :: ds)

/-- The search ends, since the calendar does. -/
theorem exists_run (hp : p.IsForward) (start last : Date) (k : Nat) :
    ∃ ds, Run start p last k ds := by
  suffices h : ∀ steps k, Date.lastDay ≤ k + steps → ∃ ds, Run start p last k ds from
    h Date.lastDay k (Nat.le_add_left ..)
  intro steps
  induction steps with
  | zero =>
    -- No date has so many days before it.
    intro k hk
    refine ⟨[], .stop fun d h => ?_⟩
    have := h.lt_dayNumber hp
    have := d.dayNumber_le_lastDay
    omega
  | succ steps ih =>
    intro k hk
    obtain ⟨ds, hrest⟩ := ih (k + 1) (by omega)
    by_cases hhere : ∃ d, IsOccurrence start p k d ∧ d ≤ last
    · obtain ⟨d, hd, hin⟩ := hhere
      exact ⟨d :: ds, .step hd hin hrest⟩
    · refine ⟨[], .stop fun d hd => ?_⟩
      exact Date.not_le.mp fun hin => hhere ⟨d, hd, hin⟩

/-- The search takes no more steps than the calendar has days. -/
theorem Run.length_lt (hp : p.IsForward) {k : Nat} {ds : List Date} (h : Run start p last k ds)
    (hk : k ≤ Date.lastDay) : k + ds.length ≤ Date.lastDay := by
  induction h with
  | stop beyond => exact hk
  | @step k d ds here inside rest ih =>
    have := here.lt_dayNumber hp
    have := d.dayNumber_le_lastDay
    rw [List.length_cons, Nat.add_comm ds.length, ← Nat.add_assoc]
    exact ih (by omega)

/-- With steps enough the dates of a run are the ones that are listed. -/
theorem Run.occurrencesFrom_eq {k : Nat} {ds : List Date} (h : Run start p last k ds)
    (found : List Date) {steps : Nat} (hsteps : ds.length < steps) :
    occurrencesFrom start p last k found steps = found.reverse ++ ds := by
  induction h generalizing found steps with
  | @stop k beyond =>
    obtain ⟨steps, rfl⟩ : ∃ n, steps = n + 1 := ⟨steps - 1, by omega⟩
    rw [occurrencesFrom, List.append_nil]
    cases htry : occurrence? start p k with
    | none => rfl
    | some d => exact if_pos (beyond d ((occurrence?_eq_some_iff k d).mp htry))
  | @step k d ds here inside rest ih =>
    rw [List.length_cons] at hsteps
    obtain ⟨steps, rfl⟩ : ∃ n, steps = n + 1 := ⟨steps - 1, by omega⟩
    rw [occurrencesFrom, (occurrence?_eq_some_iff k d).mpr here]
    dsimp only
    rw [if_neg (Date.not_lt.mpr inside), ih (d :: found) (by omega), List.reverse_cons,
      List.append_assoc, List.singleton_append]

theorem Run.occurrences_eq (hp : p.IsForward) {finish reference : Date} {ds : List Date}
    (h : Run start p (min finish reference) 1 ds) :
    occurrences start (some finish) (some p) reference = .ok (start :: ds) := by
  have hlength : 1 + ds.length ≤ maxSteps := h.length_lt hp (by decide)
  rw [occurrences, hp.not_isEmpty, h.occurrencesFrom_eq [start] (by omega)]
  rfl

theorem Run.getElem? {k : Nat} {ds : List Date} (h : Run start p last k ds) {i : Nat} {d : Date}
    (hd : ds[i]? = some d) : IsOccurrence start p (k + i) d ∧ d ≤ last := by
  induction h generalizing i with
  | stop beyond => simp at hd
  | @step k d' ds here inside rest ih =>
    cases i with
    | zero =>
      cases hd
      exact ⟨here, inside⟩
    | succ i =>
      rw [List.getElem?_cons_succ] at hd
      rw [← Nat.add_assoc, Nat.add_right_comm]
      exact ih hd

theorem Run.beyond {k : Nat} {ds : List Date} (h : Run start p last k ds) {d : Date}
    (hd : IsOccurrence start p (k + ds.length) d) : last < d := by
  induction h with
  | stop beyond => exact beyond d hd
  | @step k d' ds here inside rest ih =>
    rw [List.length_cons, ← Nat.add_assoc, Nat.add_right_comm] at hd
    exact ih hd

/-! ## Expansion -/

/-- The dates are the first date and the occurrences up to the last day. -/
structure IsExpansion (start : Date) (p : Period) (last : Date) (dates : List Date) : Prop where
  /-- The first date comes first, whatever the last day is. -/
  head : dates[0]? = some start
  /-- The others are the occurrences in turn, each counted from the first date. -/
  occurrence : ∀ k d, dates[k]? = some d → IsOccurrence start p k d
  /-- None of the others is after the last day. -/
  bounded : ∀ k d, 1 ≤ k → dates[k]? = some d → d ≤ last
  /-- They come in the order of the calendar, and none twice. -/
  increasing : dates.Pairwise (· < ·)
  /-- There are as many as follow one another up to the last day. -/
  largest : ∀ k, k < dates.length ↔
    ∀ i, 1 ≤ i → i ≤ k → ∃ d, IsOccurrence start p i d ∧ d ≤ last
  /-- All further ones are after the last day or outside the calendar. -/
  complete : ∀ k d, dates.length ≤ k → IsOccurrence start p k d → last < d

theorem Run.isExpansion (hp : p.IsForward) {ds : List Date} (h : Run start p last 1 ds) :
    IsExpansion start p last (start :: ds) := by
  have hoccurrence : ∀ k d, (start :: ds)[k]? = some d → IsOccurrence start p k d := by
    intro k d hd
    cases k with
    | zero =>
      cases hd
      exact isOccurrence_zero start p
    | succ k =>
      rw [List.getElem?_cons_succ] at hd
      rw [Nat.add_comm]
      exact (h.getElem? hd).1
  have hbounded : ∀ k d, 1 ≤ k → (start :: ds)[k]? = some d → d ≤ last := by
    intro k d hk hd
    obtain ⟨k, rfl⟩ : ∃ n, k = n + 1 := ⟨k - 1, by omega⟩
    rw [List.getElem?_cons_succ] at hd
    exact (h.getElem? hd).2
  have hcomplete : ∀ k d, (start :: ds).length ≤ k → IsOccurrence start p k d → last < d := by
    intro k d hk hd
    rw [List.length_cons, Nat.add_comm] at hk
    obtain ⟨d', hd'⟩ := hd.exists_of_le hp hk
    rcases Nat.lt_or_eq_of_le hk with hlt | rfl
    · exact Date.lt_trans (h.beyond hd') (hd'.lt_of_lt hp hd hlt)
    · exact h.beyond hd
  refine ⟨rfl, hoccurrence, hbounded, ?_, ?_, hcomplete⟩
  · rw [List.pairwise_iff_getElem]
    intro i j hi hj hij
    exact (hoccurrence i _ (List.getElem?_eq_getElem hi)).lt_of_lt hp
      (hoccurrence j _ (List.getElem?_eq_getElem hj)) hij
  · intro k
    constructor
    · intro hk i hi hik
      have hget := List.getElem?_eq_getElem (Nat.lt_of_le_of_lt hik hk)
      exact ⟨_, hoccurrence i _ hget, hbounded i _ hi hget⟩
    · intro hall
      refine Nat.lt_of_not_le fun hk => ?_
      obtain ⟨d, hd, hin⟩ := hall _ (Nat.le_add_left 1 ds.length) hk
      exact Date.not_lt.mpr hin (hcomplete _ d (Nat.le_refl _) hd)

/-- A recurrence that leads forward has dates, and they are all its occurrences up to its
end and the reference date. The search for them is over once they are found, no matter
how many steps it may take. -/
theorem occurrences_isExpansion (start finish reference : Date) (p : Period) (hp : p.IsForward) :
    ∃ dates, occurrences start (some finish) (some p) reference = .ok dates ∧
      IsExpansion start p (min finish reference) dates ∧
      ∀ steps, dates.length ≤ steps →
        occurrencesFrom start p (min finish reference) 1 [start] steps = dates := by
  obtain ⟨ds, hrun⟩ := exists_run hp start (min finish reference) 1
  exact ⟨start :: ds, hrun.occurrences_eq hp, hrun.isExpansion hp,
    fun steps hsteps => hrun.occurrencesFrom_eq [start] hsteps⟩

/-- A first and a last day for a recurrence that passes a short month. -/
def endOfJanuary : Date := ⟨2024, 1, 31, by decide, by decide, by decide⟩
def endOfApril : Date := ⟨2024, 4, 30, by decide, by decide, by decide⟩

theorem occurrences_isExpansion_monthly :
    Period.IsForward ⟨0, 1, 0⟩ ∧
      ∃ dates, occurrences endOfJanuary (some endOfApril) (some ⟨0, 1, 0⟩) endOfApril =
          .ok dates ∧
        IsExpansion endOfJanuary ⟨0, 1, 0⟩ (min endOfApril endOfApril) dates ∧
        ∀ steps, dates.length ≤ steps →
          occurrencesFrom endOfJanuary ⟨0, 1, 0⟩ (min endOfApril endOfApril) 1
            [endOfJanuary] steps = dates := by
  have hp : Period.IsForward ⟨0, 1, 0⟩ := ⟨by decide, by decide, by decide, by decide⟩
  exact ⟨hp, occurrences_isExpansion endOfJanuary endOfApril endOfApril ⟨0, 1, 0⟩ hp⟩

example : (occurrences endOfJanuary (some endOfApril) (some ⟨0, 1, 0⟩) endOfApril).toOption =
    some [endOfJanuary, ⟨2024, 2, 29, by decide, by decide, by decide⟩,
      ⟨2024, 3, 31, by decide, by decide, by decide⟩, endOfApril] := by
  decide +kernel

/-! ## Earlier reference dates -/

theorem Run.lt_of_mem (hp : p.IsForward) {k : Nat} {ds : List Date}
    (h : Run start p last (k + 1) ds) {d x : Date} (hd : IsOccurrence start p k d) (hx : x ∈ ds) :
    d < x := by
  obtain ⟨i, hi⟩ := List.mem_iff_getElem?.mp hx
  exact hd.lt_of_lt hp (h.getElem? hi).1 (by omega)

/-- An earlier last day only ends the search earlier. -/
theorem Run.filter (hp : p.IsForward) {last' cut : Date}
    (hlast : ∀ d, d ≤ last ↔ d ≤ last' ∧ d ≤ cut) {k : Nat} {ds : List Date}
    (h : Run start p last' k ds) : Run start p last k (ds.filter (· ≤ cut)) := by
  induction h with
  | stop beyond =>
    refine .stop fun d hd => Date.not_le.mp fun hin => ?_
    exact Date.not_lt.mpr ((hlast d).mp hin).1 (beyond d hd)
  | @step k d ds here inside rest ih =>
    by_cases hcut : d ≤ cut
    · -- The run goes on under the earlier last day as well.
      rw [List.filter_cons_of_pos (by simpa using hcut)]
      exact .step here ((hlast d).mpr ⟨inside, hcut⟩) ih
    · -- Here it ends, since all dates after this one are beyond the cut too.
      have hnil : (d :: ds).filter (· ≤ cut) = [] := by
        rw [List.filter_eq_nil_iff]
        intro x hx
        rw [decide_eq_true_iff, Date.not_le]
        rcases List.mem_cons.mp hx with rfl | hx
        · exact Date.not_le.mp hcut
        · exact Date.lt_trans (Date.not_le.mp hcut) (rest.lt_of_mem hp here hx)
      rw [hnil]
      refine .stop fun x hx => Date.not_le.mp fun hin => hcut ?_
      rw [here.unique hx]
      exact ((hlast x).mp hin).2

variable {finish : Option Date} {period : Option Period} {reference : Date} {dates : List Date}

/-- All dates of an invoice are found by a search, or there is only the first one. -/
theorem occurrences_cases (hp : ∀ p, period = some p → p.isEmpty = false → p.IsForward)
    (h : occurrences start finish period reference = .ok dates) :
    (dates = [start] ∧ ∀ cut, occurrences start finish period cut = .ok [start]) ∨
      ∃ last p ds, finish = some last ∧ period = some p ∧ p.IsForward ∧ dates = start :: ds ∧
        Run start p (min last reference) 1 ds := by
  cases finish with
  | none => exact .inl ⟨(Except.ok.inj h).symm, fun _ => rfl⟩
  | some last =>
    cases period with
    | none => exact .inl ⟨(Except.ok.inj h).symm, fun _ => rfl⟩
    | some p =>
      cases hempty : p.isEmpty with
      | true =>
        rw [occurrences, hempty] at h
        cases h
      | false =>
        have hforward := hp p rfl hempty
        obtain ⟨ds, hrun⟩ := exists_run hforward start (min last reference) 1
        rw [hrun.occurrences_eq hforward] at h
        exact .inr ⟨last, p, ds, rfl, rfl, hforward, (Except.ok.inj h).symm, hrun⟩

theorem start_le_of_mem_occurrences (hp : ∀ p, period = some p → p.isEmpty = false → p.IsForward)
    (h : occurrences start finish period reference = .ok dates) {d : Date} (hd : d ∈ dates) :
    start ≤ d := by
  rcases occurrences_cases hp h with ⟨rfl, -⟩ | ⟨last, p, ds, rfl, rfl, hforward, rfl, hrun⟩
  · rw [List.mem_singleton.mp hd]
    exact start.le_refl
  · rcases List.mem_cons.mp hd with rfl | hd
    · exact d.le_refl
    · exact Date.le_of_lt (hrun.lt_of_mem hforward (isOccurrence_zero start p) hd)

theorem le_of_mem_occurrences (hp : ∀ p, period = some p → p.isEmpty = false → p.IsForward)
    (h : occurrences start finish period reference = .ok dates) (hstart : start ≤ reference)
    {d : Date} (hd : d ∈ dates) : d ≤ reference := by
  rcases occurrences_cases hp h with ⟨rfl, -⟩ | ⟨last, p, ds, rfl, rfl, hforward, rfl, hrun⟩
  · rwa [List.mem_singleton.mp hd]
  · rcases List.mem_cons.mp hd with rfl | hd
    · exact hstart
    · obtain ⟨i, hi⟩ := List.mem_iff_getElem?.mp hd
      exact (Date.le_min_iff.mp (hrun.getElem? hi).2).2

/-- Whether a recurrence moves on does not depend on the reference date. -/
theorem occurrences_eq_error {fault : Fault}
    (h : occurrences start finish period reference = .error fault) (cut : Date) :
    occurrences start finish period cut = .error fault := by
  unfold occurrences at h ⊢
  split at h
  · split at h
    · next hempty =>
      rw [← h]
      exact if_pos hempty
    · cases h
  · cases h

/-- At an earlier reference date an invoice has those of its dates that are not after it. -/
theorem occurrences_filter (hp : ∀ p, period = some p → p.isEmpty = false → p.IsForward)
    (h : occurrences start finish period reference = .ok dates) {cut : Date}
    (hcut : cut ≤ reference) (hstart : start ≤ cut) :
    occurrences start finish period cut = .ok (dates.filter (· ≤ cut)) := by
  rcases occurrences_cases hp h with ⟨rfl, hsingle⟩ | ⟨last, p, ds, rfl, rfl, hforward, rfl, hrun⟩
  · rw [hsingle cut, List.filter_cons_of_pos (by simpa using hstart), List.filter_nil]
  · have hlast : ∀ d, d ≤ min last cut ↔ d ≤ min last reference ∧ d ≤ cut := by
      intro d
      rw [Date.le_min_iff, Date.le_min_iff]
      exact ⟨fun ⟨hl, hc⟩ => ⟨⟨hl, Date.le_trans hc hcut⟩, hc⟩, fun ⟨⟨hl, _⟩, hc⟩ => ⟨hl, hc⟩⟩
    rw [List.filter_cons_of_pos (by simpa using hstart)]
    exact (hrun.filter hforward hlast).occurrences_eq hforward

end Recurrence

end HouseLedger
