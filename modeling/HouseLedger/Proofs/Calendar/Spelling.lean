import HouseLedger.Proofs.Calendar.DayNumber
import HouseLedger.Proofs.Calendar.Written
import HouseLedger.Proofs.Ledger.Parts
import Mathlib.Algebra.Group.Nat.Defs

/-!
# Dates, written and read again

A ledger writes the year of a date with four digits, and `Date.toString` writes as many as the
year has.

* `WrittenDate.ofString_text`: the text of a written date is read again exactly if its year has
  four digits.
* `Date.bare` is what `Date.toString` writes, and `Date.filled` is the same with the year filled
  up to four digits, as every date can be written in a ledger.
* `Date.ofString_toString`: a date that is shown is read again from the year 1000 on, and no
  date before it is. A text that was read can be shown and read again unless the year in it
  begins with a zero.
-/

namespace HouseLedger

open Calendar Outcome Text

/-! ## Digits -/

namespace AreDigits

variable {least most n : Nat} {cs : List Char}

theorem toDigits (hleast : least ≤ 1) (hmost : 0 < most) (hn : n < 10 ^ most) :
    AreDigits least most (Nat.toDigits 10 n) where
  all _ hc := Nat.isDigit_of_mem_toDigits (by decide) (by decide) hc
  least_le := Nat.le_trans hleast (List.length_pos_iff.mpr Nat.toDigits_ne_nil)
  le_most := (Nat.length_toDigits_le_iff (by decide) hmost).mpr hn

theorem mono (h : AreDigits least most cs) {least' most' : Nat} (hleast : least' ≤ least)
    (hmost : most ≤ most') : AreDigits least' most' cs :=
  ⟨h.all, Nat.le_trans hleast h.least_le, Nat.le_trans h.le_most hmost⟩

/-- Digits with zeros in front. -/
theorem padded (h : AreDigits 1 most cs) :
    AreDigits most most (List.replicate (most - cs.length) '0' ++ cs) := by
  have hlength : (List.replicate (most - cs.length) '0' ++ cs).length = most := by
    rw [List.length_append, List.length_replicate, Nat.sub_add_cancel h.le_most]
  refine ⟨fun c hc => ?_, hlength.ge, hlength.le⟩
  rcases List.mem_append.mp hc with hc | hc
  · rw [List.eq_of_mem_replicate hc]
    rfl
  · exact h.all c hc

/-- Digits end at the point behind them. -/
theorem point_inj (h : AreDigits least most cs) {least' most' : Nat} {cs' rest rest' : List Char}
    (h' : AreDigits least' most' cs') (heq : cs ++ '.' :: rest = cs' ++ '.' :: rest') :
    cs = cs' ∧ rest = rest' := by
  have hspan := span_eq_iff.mpr ⟨rfl, h.all, noDigit_point rest⟩
  have hspan' := span_eq_iff.mpr ⟨heq, h'.all, noDigit_point rest'⟩
  obtain ⟨hdigits, hrest⟩ := Prod.mk.inj (hspan.symm.trans hspan')
  exact ⟨hdigits, (List.cons.inj hrest).2⟩

theorem not_isBlank (h : AreDigits least most cs) {c : Char} (hc : c ∈ cs) :
    isBlank c = false := by
  rw [← Bool.not_eq_true]
  exact fun hblank => Bool.false_ne_true ((not_isDigit_of_isBlank hblank).symm.trans (h.all c hc))

end AreDigits

/-! ## Blanks around a text -/

theorem dropWhile_eq_self {p : Char → Bool} {text : List Char}
    (h : ∀ c, text.head? = some c → p c = false) : text.dropWhile p = text := by
  cases text with
  | nil => rfl
  | cons c text => exact List.dropWhile_cons_of_neg (by simp [h c rfl])

/-- Nothing is stripped of a text that neither begins nor ends with a blank. -/
theorem strip_eq_self {text : List Char} (hfirst : ∀ c, text.head? = some c → isBlank c = false)
    (hlast : ∀ c, text.getLast? = some c → isBlank c = false) : strip text = text := by
  rw [strip, dropWhile_eq_self hfirst, dropWhile_eq_self, List.reverse_reverse]
  rwa [List.head?_reverse]

namespace WrittenDate

variable {w w' : WrittenDate} {text : String}

/-! ## Reading what is written -/

theorem ofString_eq_ok_iff :
    ofString text = .ok w ↔ w.IsProper ∧ strip text.toList = w.text.toList := by
  unfold ofString
  constructor
  · intro h
    split at h
    · next hw =>
      cases h
      obtain ⟨hproper, htext, -⟩ := take?_eq_some_iff.mp hw
      rw [List.append_nil] at htext
      exact ⟨hproper, htext⟩
    · cases h
  · rintro ⟨hproper, htext⟩
    have hw : take? (strip text.toList) = some (w, []) :=
      take?_eq_some_iff.mpr ⟨hproper, by rw [htext, List.append_nil], fun c hc => nomatch hc⟩
    rw [hw]

theorem eq_of_ofString_eq_error {fault : Fault} (h : ofString text = .error fault) :
    fault = .dateUnreadable text := by
  unfold ofString at h
  split at h
  · cases h
  · exact (Except.error.inj h).symm

/-- Digits for each of the three numbers, however many for the year. -/
structure IsNumbered (w : WrittenDate) : Prop where
  day : AreDigits 1 2 w.day
  month : AreDigits 1 2 w.month
  year : AreDigits 1 4 w.year

theorem IsProper.isNumbered (h : w.IsProper) : w.IsNumbered :=
  ⟨h.day, h.month, h.year.mono (by decide) (Nat.le_refl 4)⟩

theorem IsNumbered.isProper_iff (h : w.IsNumbered) : w.IsProper ↔ w.year.length = 4 :=
  ⟨fun hproper => Nat.le_antisymm hproper.year.le_most hproper.year.least_le,
    fun hlength => ⟨h.day, h.month, h.year.all, hlength.ge, hlength.le⟩⟩

/-- The numbers can be told from the text. -/
theorem IsNumbered.eq_of_text_eq (h : w.IsNumbered) (h' : w'.IsNumbered)
    (htext : w.text = w'.text) : w = w' := by
  have hlist := congrArg String.toList htext
  rw [toList_text, toList_text] at hlist
  obtain ⟨hday, hlist⟩ := h.day.point_inj h'.day hlist
  obtain ⟨hmonth, hyear⟩ := h.month.point_inj h'.month hlist
  cases w
  cases w'
  simp_all

theorem IsNumbered.strip_text (h : w.IsNumbered) : strip w.text.toList = w.text.toList := by
  have hday : w.day ≠ [] := List.ne_nil_of_length_pos h.day.least_le
  have hyear : w.year ≠ [] := List.ne_nil_of_length_pos h.year.least_le
  rw [toList_text]
  refine strip_eq_self (fun c hc => ?_) fun c hc => ?_
  · rw [List.head?_append_of_ne_nil _ hday] at hc
    exact h.day.not_isBlank (List.mem_of_mem_head? hc)
  · rw [List.getLast?_append_of_ne_nil _ (List.cons_ne_nil _ _), List.getLast?_cons_of_ne_nil
      (by simp), List.getLast?_append_of_ne_nil _ (List.cons_ne_nil _ _),
      List.getLast?_cons_of_ne_nil hyear] at hc
    exact h.year.not_isBlank (List.mem_of_getLast? hc)

/-- The text of a written date is read again exactly if its year has four digits. -/
theorem ofString_text (h : w.IsNumbered) :
    ofString w.text =
      if w.year.length = 4 then .ok w else .error (.dateUnreadable w.text) := by
  split
  · next hlength =>
    exact ofString_eq_ok_iff.mpr ⟨h.isProper_iff.mpr hlength, h.strip_text⟩
  · next hlength =>
    cases hread : ofString w.text with
    | error fault => rw [eq_of_ofString_eq_error hread]
    | ok w' =>
      -- What was read is proper, and is what was written.
      obtain ⟨hproper, hstrip⟩ := ofString_eq_ok_iff.mp hread
      have htext := String.toList_inj.mp (h.strip_text.symm.trans hstrip)
      obtain rfl := h.eq_of_text_eq hproper.isNumbered htext
      exact absurd (h.isProper_iff.mp hproper) hlength

end WrittenDate

namespace Date

/-! ## Writing a date -/

/-- The numbers of the date as they are. -/
def bare (d : Date) : WrittenDate :=
  ⟨Nat.toDigits 10 d.day, Nat.toDigits 10 d.month, Nat.toDigits 10 d.year⟩

/-- The date as a ledger writes it, the year with four digits. -/
def filled (d : Date) : WrittenDate :=
  { d.bare with
    year := List.replicate (4 - (Nat.toDigits 10 d.year).length) '0' ++ Nat.toDigits 10 d.year }

theorem toString_eq (d : Date) : d.toString = d.bare.text := by
  have hpoint : (ToString.toString ".").toList = ['.'] := rfl
  refine String.toList_inj.mp ?_
  rw [WrittenDate.toList_text]
  simp [Date.toString, bare, hpoint]

theorem isNumbered_bare (d : Date) : d.bare.IsNumbered := by
  have hday := d.day_bounds
  have hmonth := d.month_bounds
  have hyear : d.year ≤ 9999 := d.isYear.2
  exact ⟨.toDigits (Nat.le_refl 1) (by decide) (by omega),
    .toDigits (Nat.le_refl 1) (by decide) (by omega),
    .toDigits (Nat.le_refl 1) (by decide) (by omega)⟩

theorem names_bare (d : Date) : d.bare.Names d :=
  ⟨(Nat.ofDigitChars_toDigits (by decide) (by decide)).symm,
    (Nat.ofDigitChars_toDigits (by decide) (by decide)).symm,
    (Nat.ofDigitChars_toDigits (by decide) (by decide)).symm⟩

theorem length_year_bare_iff (d : Date) : d.bare.year.length = 4 ↔ 1000 ≤ d.year := by
  have hmost := d.isNumbered_bare.year.le_most
  have hthree : d.bare.year.length ≤ 3 ↔ d.year < 10 ^ 3 :=
    Nat.length_toDigits_le_iff (by decide) (by decide)
  omega

theorem isProper_filled (d : Date) : d.filled.IsProper :=
  ⟨d.isNumbered_bare.day, d.isNumbered_bare.month, d.isNumbered_bare.year.padded⟩

theorem names_filled (d : Date) : d.filled.Names d := by
  refine ⟨d.names_bare.1, d.names_bare.2.1, ?_⟩
  simp [filled, WrittenDate.yearNumber, Nat.ofDigitChars_append, Nat.ofDigitChars_replicate_zero,
    Nat.ofDigitChars_toDigits]

/-- Every date can be written, its year with zeros in front if it needs them. -/
theorem exists_names (d : Date) : ∃ w : WrittenDate, w.IsProper ∧ w.Names d :=
  ⟨d.filled, d.isProper_filled, d.names_filled⟩

/-! ## Reading it again -/

theorem ofString_eq_ok_iff {text : String} {d : Date} :
    ofString text = .ok d ↔ ∃ w, WrittenDate.ofString text = .ok w ∧ w.Names d := by
  rw [ofString, bind_eq_ok]
  simp only [WrittenDate.toDate_eq_ok_iff]

theorem ofString_bare (d : Date) :
    ofString d.toString =
      if 1000 ≤ d.year then .ok d else .error (.dateUnreadable d.toString) := by
  rw [toString_eq, ofString, WrittenDate.ofString_text d.isNumbered_bare]
  simp only [d.length_year_bare_iff]
  split
  · exact WrittenDate.toDate_eq_ok_iff.mpr d.names_bare
  · rfl

theorem ofString_filled (d : Date) : ofString d.filled.text = .ok d := by
  have hproper := d.isProper_filled
  refine ofString_eq_ok_iff.mpr ⟨d.filled, ?_, d.names_filled⟩
  exact WrittenDate.ofString_eq_ok_iff.mpr ⟨hproper, hproper.isNumbered.strip_text⟩

/-- Four digits are a year from 1000 on unless the first of them is a zero. -/
theorem le_yearNumber_iff {w : WrittenDate} (h : w.IsProper) :
    1000 ≤ w.yearNumber ↔ w.year.head? ≠ some '0' := by
  obtain ⟨a, b, c, e, hyear⟩ := List.length_eq_four.mp (h.isNumbered.isProper_iff.mp h)
  have hdigits := h.year.all
  have hzero : a = '0' ↔ a.toNat = 48 := Char.toNat_inj.symm
  have h48 : ('0' : Char).toNat = 48 := rfl
  have h57 : ('9' : Char).toNat = 57 := rfl
  rw [hyear] at hdigits
  simp only [List.forall_mem_cons, Char.isDigit_iff_toNat] at hdigits
  simp only [WrittenDate.yearNumber, hyear, Nat.ofDigitChars_cons, Nat.ofDigitChars_nil,
    List.head?_cons, ne_eq, Option.some.injEq, hzero]
  omega

/-- A date that is shown is read again from the year 1000 on; an earlier one is not, although
every date can be read where its year is filled up to four digits. So a text that was read can
be shown and read again unless the year in it begins with a zero. -/
theorem ofString_toString (d : Date) :
    ofString d.toString =
      (if 1000 ≤ d.year then .ok d else .error (.dateUnreadable d.toString)) ∧
    ofString d.filled.text = .ok d ∧
    ∀ text : String, ofString text = .ok d →
      ∃ w, WrittenDate.ofString text = .ok w ∧ w.Names d ∧
        (ofString d.toString = .ok d ↔ w.year.head? ≠ some '0') := by
  refine ⟨ofString_bare d, ofString_filled d, fun text h => ?_⟩
  obtain ⟨w, hw, hnames⟩ := ofString_eq_ok_iff.mp h
  refine ⟨w, hw, hnames, ?_⟩
  rw [← le_yearNumber_iff (WrittenDate.ofString_eq_ok_iff.mp hw).1, ← hnames.2.2, ofString_bare]
  split
  · next hyear => simp [hyear]
  · next hyear => simp [hyear]

/-- A date of the first thousand years, written with zeros in front and blanks around it. -/
theorem ofString_toString_early :
    ∃ d : Date, ofString " 05.03.0999\n" = .ok d ∧ d.toString = "5.3.999" ∧
      ofString d.toString = .error (.dateUnreadable "5.3.999") ∧
      d.filled.text = "5.3.0999" ∧ ofString d.filled.text = .ok d ∧
      ∃ w, WrittenDate.ofString " 05.03.0999\n" = .ok w ∧ w.Names d ∧
        (ofString d.toString = .ok d ↔ w.year.head? ≠ some '0') := by
  have hread : ofString " 05.03.0999\n" = .ok ⟨999, 3, 5, by decide, by decide, by decide⟩ := by
    decide +kernel
  obtain ⟨hshown, hfilled, hagain⟩ := ofString_toString ⟨999, 3, 5, by decide, by decide, by decide⟩
  exact ⟨_, hread, by decide +kernel, hshown, by decide +kernel, hfilled, hagain _ hread⟩

/-- Not every date can be shown and read again. -/
theorem exists_ofString_toString_ne : ∃ d : Date, ofString d.toString ≠ .ok d :=
  ⟨⟨999, 3, 5, by decide, by decide, by decide⟩, by decide +kernel⟩

end Date

end HouseLedger
