import HouseLedger.Ledger.Line
import Mathlib.Data.List.Infix
import Mathlib.Data.List.TakeDrop

/-!
# Parts of lines

A line is made of words with one blank between any two. `Leads` says of a text that it begins
with some words, each behind a blank, and goes on with a rest. Each function that takes a part
off the front of a text is described here by the words that the text leads with; for instance
`Line.takeAmount?_eq_some_iff`, `Line.TakesMembers.eq_iff` and `Line.takeTerms?_eq_some_iff`.
-/

namespace HouseLedger

open Text (isBlank)

/-! ## Words -/

/-- The text begins with the words, each behind a blank, and goes on with the rest. -/
def Leads : List String → List Char → List Char → Prop
  | [], text, rest => text = rest
  | word :: words, text, rest =>
    ∃ v next, isBlank v = true ∧ text = v :: (word.toList ++ next) ∧ Leads words next rest

/-- The text is the words with one blank between any two. -/
def IsRow : List String → List Char → Prop
  | [], text => text = []
  | word :: words, text => ∃ next, text = word.toList ++ next ∧ Leads words next []

/-- The words with a space between any two. -/
def spaced : List String → List Char
  | [] => []
  | word :: words => word.toList ++ words.flatMap fun next => ' ' :: next.toList

/-- Two capital letters. -/
def IsAcronym (word : String) : Prop :=
  ∃ a b : Char, a.isUpper = true ∧ b.isUpper = true ∧ word = String.ofList [a, b]

/-- From `least` to `most` digits and nothing else. -/
structure AreDigits (least most : Nat) (cs : List Char) : Prop where
  all : ∀ c ∈ cs, c.isDigit = true
  least_le : least ≤ cs.length
  le_most : cs.length ≤ most

/-- Digits, a point and digits. -/
structure WrittenAmount.IsProper (w : WrittenAmount) : Prop where
  whole : ∀ c ∈ w.whole, c.isDigit = true
  fraction : ∀ c ∈ w.fraction, c.isDigit = true
  whole_ne : w.whole ≠ []
  fraction_ne : w.fraction ≠ []

/-- The amount as it is written. -/
def WrittenAmount.text (w : WrittenAmount) : String :=
  String.ofList (w.whole ++ '.' :: w.fraction)

/-- One or two digits for the day, as many for the month, and four for the year. -/
structure WrittenDate.IsProper (w : WrittenDate) : Prop where
  day : AreDigits 1 2 w.day
  month : AreDigits 1 2 w.month
  year : AreDigits 4 4 w.year

/-- The words of a recurrence: its last possible day and its period. -/
def recurrenceWords (r : WrittenDate × WrittenDate) : List String :=
  ["-", r.1.text, ":", r.2.text]

/-- Whether the note could be read as a recurrence with a note behind it. -/
def IsRecurrent (note : String) : Prop :=
  ∃ r : WrittenDate × WrittenDate, r.1.IsProper ∧ r.2.IsProper ∧
    ∃ note' : String, note' ≠ "" ∧ IsRow (recurrenceWords r ++ [note']) note.toList

/-! ## Leading words -/

theorem leads_append {ws us : List String} {text rest : List Char} :
    Leads (ws ++ us) text rest ↔ ∃ next, Leads ws text next ∧ Leads us next rest := by
  induction ws generalizing text with
  | nil => simp [Leads]
  | cons w ws ih =>
    constructor
    · rintro ⟨v, next, hv, rfl, h⟩
      obtain ⟨mid, hws, hus⟩ := ih.mp h
      exact ⟨mid, ⟨v, next, hv, rfl, hws⟩, hus⟩
    · rintro ⟨mid, ⟨v, next, hv, rfl, hws⟩, hus⟩
      exact ⟨v, next, hv, rfl, ih.mpr ⟨mid, hws, hus⟩⟩

theorem leads_cons {w : String} {ws : List String} {text rest : List Char} :
    Leads (w :: ws) text rest ↔ ∃ next, Leads [w] text next ∧ Leads ws next rest :=
  @leads_append [w] ws text rest

theorem leads_singleton {w : String} {text rest : List Char} :
    Leads [w] text rest ↔ ∃ v, isBlank v = true ∧ text = v :: (w.toList ++ rest) := by
  constructor
  · rintro ⟨v, next, hv, htext, rfl⟩
    exact ⟨v, hv, htext⟩
  · rintro ⟨v, hv, htext⟩
    exact ⟨v, rest, hv, htext, rfl⟩

theorem isRow_spaced (words : List String) : IsRow words (spaced words) := by
  have hleads : ∀ words : List String,
      Leads words (words.flatMap fun next => ' ' :: next.toList) [] := by
    intro words
    induction words with
    | nil => rfl
    | cons word words ih => exact ⟨' ', _, by decide, rfl, ih⟩
  cases words with
  | nil => rfl
  | cons word words => exact ⟨_, rfl, hleads words⟩

/-- What stands neither in a word nor between two does not stand in the row. -/
theorem notMem_spaced {words : List String} {c : Char} (hspace : c ≠ ' ')
    (h : ∀ word ∈ words, c ∉ word.toList) : c ∉ spaced words := by
  cases words with
  | nil => exact List.not_mem_nil
  | cons word words =>
    obtain ⟨hword, hwords⟩ := List.forall_mem_cons.mp h
    rw [spaced, List.mem_append, not_or, List.mem_flatMap]
    refine ⟨hword, ?_⟩
    rintro ⟨next, hnext, hc⟩
    exact (List.mem_cons.mp hc).elim hspace (hwords next hnext)

/-- A text leaves one rest behind words that it leads with. -/
theorem leads_unique {words : List String} {text rest rest' : List Char}
    (h : Leads words text rest) (h' : Leads words text rest') : rest = rest' := by
  induction words generalizing text with
  | nil => exact h.symm.trans h'
  | cons word words ih =>
    obtain ⟨v, next, -, rfl, hnext⟩ := h
    obtain ⟨v', next', -, heq, hnext'⟩ := h'
    rw [← List.append_cancel_left (List.cons.inj heq).2] at hnext'
    exact ih hnext hnext'

/-- What stands in a word stands in the text. -/
theorem mem_of_leads {words : List String} {text rest : List Char} (h : Leads words text rest)
    {word : String} (hword : word ∈ words) {c : Char} (hc : c ∈ word.toList) : c ∈ text := by
  induction words generalizing text with
  | nil => exact absurd hword List.not_mem_nil
  | cons first words ih =>
    obtain ⟨v, next, -, rfl, hnext⟩ := h
    rcases List.mem_cons.mp hword with rfl | hword
    · exact List.mem_cons_of_mem v (List.mem_append_left _ hc)
    · exact List.mem_cons_of_mem v (List.mem_append_right _ (ih hnext hword))

theorem mem_of_isRow {words : List String} {text : List Char} (h : IsRow words text)
    {word : String} (hword : word ∈ words) {c : Char} (hc : c ∈ word.toList) : c ∈ text := by
  cases words with
  | nil => exact absurd hword List.not_mem_nil
  | cons first words =>
    obtain ⟨next, rfl, hnext⟩ := h
    rcases List.mem_cons.mp hword with rfl | hword
    · exact List.mem_append_left _ hc
    · exact List.mem_append_right _ (mem_of_leads hnext hword hc)

/-- No digit comes next. -/
def NoDigit (text : List Char) : Prop := ∀ c, text.head? = some c → c.isDigit = false

theorem not_isDigit_of_isBlank {c : Char} (h : isBlank c = true) : c.isDigit = false := by
  rw [← Bool.not_eq_true]
  intro hdigit
  simp only [Char.isDigit, Bool.and_eq_true, decide_eq_true_eq, UInt32.le_iff_toNat_le] at hdigit
  simp only [isBlank, Text.blankRanges, List.any_cons, List.any_nil, Bool.or_eq_true,
    Bool.and_eq_true, decide_eq_true_eq, Char.toNat, Bool.false_eq_true, or_false] at h
  have h48 : ('0' : Char).val.toNat = 48 := rfl
  have h57 : ('9' : Char).val.toNat = 57 := rfl
  omega

theorem noDigit_of_leads {w : String} {ws : List String} {text rest : List Char}
    (h : Leads (w :: ws) text rest) : NoDigit text := by
  obtain ⟨v, next, hv, rfl, -⟩ := h
  intro c hc
  cases hc
  exact not_isDigit_of_isBlank hv

/-! ## Taking parts -/

theorem span_eq_iff {p : Char → Bool} {text cs rest : List Char} :
    text.span p = (cs, rest) ↔
      text = cs ++ rest ∧ (∀ c ∈ cs, p c = true) ∧ ∀ c, rest.head? = some c → p c = false := by
  rw [List.span_eq_takeWhile_dropWhile, Prod.mk.injEq]
  constructor
  · rintro ⟨rfl, rfl⟩
    refine ⟨List.takeWhile_append_dropWhile.symm, fun c hc => ?_, fun c hc => ?_⟩
    · exact List.all_eq_true.mp List.all_takeWhile c hc
    · have h := List.head?_dropWhile_not p text
      rw [hc] at h
      simpa using h
  · rintro ⟨rfl, hcs, hrest⟩
    have hstop : rest.takeWhile p = [] ∧ rest.dropWhile p = rest := by
      cases rest with
      | nil => exact ⟨rfl, rfl⟩
      | cons c rest =>
        have hc := hrest c rfl
        simp [hc]
    rw [List.takeWhile_append_of_pos hcs, List.dropWhile_append_of_pos hcs, hstop.1, hstop.2]
    exact ⟨List.append_nil cs, rfl⟩

theorem WrittenDate.takeDigits?_eq_some_iff {least most : Nat} {text cs rest : List Char} :
    takeDigits? least most text = some (cs, rest) ↔
      AreDigits least most cs ∧ text = cs ++ rest ∧ NoDigit rest := by
  unfold takeDigits?
  constructor
  · intro h
    obtain ⟨ds, tail, hspan⟩ : ∃ ds tail, text.span Char.isDigit = (ds, tail) := ⟨_, _, rfl⟩
    rw [hspan] at h
    dsimp only at h
    split at h
    · next hlength =>
      cases h
      obtain ⟨rfl, hdigits, hrest⟩ := span_eq_iff.mp hspan
      exact ⟨⟨hdigits, hlength.1, hlength.2⟩, rfl, hrest⟩
    · cases h
  · rintro ⟨hcs, rfl, hrest⟩
    rw [span_eq_iff.mpr ⟨rfl, hcs.all, hrest⟩]
    exact if_pos ⟨hcs.least_le, hcs.le_most⟩

theorem WrittenDate.takePoint?_eq_some_iff {text rest : List Char} :
    takePoint? text = some rest ↔ text = '.' :: rest := by
  unfold takePoint?
  split
  · simp
  · next hno => simpa using fun h => hno rest h

/-- The text of a date, character by character. -/
theorem WrittenDate.toList_text (w : WrittenDate) :
    w.text.toList = w.day ++ '.' :: (w.month ++ '.' :: w.year) := by
  simp [text]

theorem noDigit_point (rest : List Char) : NoDigit ('.' :: rest) := by
  intro c hc
  cases hc
  rfl

theorem WrittenDate.take?_eq_some_iff {text rest : List Char} {w : WrittenDate} :
    take? text = some (w, rest) ↔ w.IsProper ∧ text = w.text.toList ++ rest ∧ NoDigit rest := by
  unfold take?
  constructor
  · intro h
    obtain ⟨⟨day, t₁⟩, hday, h⟩ := Option.bind_eq_some_iff.mp h
    obtain ⟨t₂, hpoint, h⟩ := Option.bind_eq_some_iff.mp h
    obtain ⟨⟨month, t₃⟩, hmonth, h⟩ := Option.bind_eq_some_iff.mp h
    obtain ⟨t₄, hpoint', h⟩ := Option.bind_eq_some_iff.mp h
    obtain ⟨⟨year, t₅⟩, hyear, h⟩ := Option.bind_eq_some_iff.mp h
    cases h
    obtain ⟨hdays, rfl, -⟩ := takeDigits?_eq_some_iff.mp hday
    obtain rfl := takePoint?_eq_some_iff.mp hpoint
    obtain ⟨hmonths, rfl, -⟩ := takeDigits?_eq_some_iff.mp hmonth
    obtain rfl := takePoint?_eq_some_iff.mp hpoint'
    obtain ⟨hyears, rfl, hrest⟩ := takeDigits?_eq_some_iff.mp hyear
    refine ⟨⟨hdays, hmonths, hyears⟩, ?_, hrest⟩
    rw [toList_text]
    simp
  · rintro ⟨hw, rfl, hrest⟩
    have hday := takeDigits?_eq_some_iff.mpr
      ⟨hw.day, rfl, noDigit_point (w.month ++ '.' :: (w.year ++ rest))⟩
    have hmonth := takeDigits?_eq_some_iff.mpr
      ⟨hw.month, rfl, noDigit_point (w.year ++ rest)⟩
    have hyear := takeDigits?_eq_some_iff.mpr ⟨hw.year, rfl, hrest⟩
    rw [toList_text, List.append_assoc, List.cons_append, List.append_assoc, List.cons_append,
      hday]
    simp [takePoint?, hmonth, hyear]

theorem WrittenAmount.toList_text (w : WrittenAmount) :
    w.text.toList = w.whole ++ '.' :: w.fraction := by
  simp [text]

/-- An amount begins with a digit. -/
theorem WrittenAmount.IsProper.exists_head? {w : WrittenAmount} (h : w.IsProper) :
    ∃ c, w.text.toList.head? = some c ∧ c.isDigit = true := by
  obtain ⟨c, cs, hwhole⟩ := List.exists_cons_of_ne_nil h.whole_ne
  refine ⟨c, ?_, h.whole c (hwhole ▸ List.mem_cons_self)⟩
  rw [toList_text, hwhole, List.cons_append, List.head?_cons]

theorem WrittenAmount.take?_eq_some_iff {text rest : List Char} {w : WrittenAmount} :
    take? text = some (w, rest) ↔ w.IsProper ∧ text = w.text.toList ++ rest ∧ NoDigit rest := by
  unfold take?
  constructor
  · intro h
    obtain ⟨whole, tail, hwhole⟩ : ∃ whole tail, text.span Char.isDigit = (whole, tail) :=
      ⟨_, _, rfl⟩
    rw [hwhole] at h
    dsimp only at h
    split at h
    · next more =>
      obtain ⟨fraction, rest', hfraction⟩ :
          ∃ fraction rest', more.span Char.isDigit = (fraction, rest') := ⟨_, _, rfl⟩
      rw [hfraction] at h
      dsimp only at h
      split at h
      · cases h
      · next hne =>
        cases h
        rw [not_or] at hne
        obtain ⟨rfl, hdigits, -⟩ := span_eq_iff.mp hwhole
        obtain ⟨rfl, hdigits', hrest⟩ := span_eq_iff.mp hfraction
        refine ⟨⟨hdigits, hdigits', hne.1, hne.2⟩, ?_, hrest⟩
        rw [toList_text, List.append_assoc, List.cons_append]
    · cases h
  · rintro ⟨hw, rfl, hrest⟩
    have hwhole := span_eq_iff.mpr ⟨rfl, hw.whole, noDigit_point (w.fraction ++ rest)⟩
    have hfraction := span_eq_iff.mpr ⟨rfl, hw.fraction, hrest⟩
    rw [toList_text, List.append_assoc, List.cons_append, hwhole]
    simp only [hfraction]
    exact if_neg (by simp [hw.whole_ne, hw.fraction_ne])

namespace Line

theorem takeBlank?_eq_some_iff {text rest : List Char} :
    takeBlank? text = some rest ↔ ∃ v, isBlank v = true ∧ text = v :: rest := by
  cases text with
  | nil => simp [takeBlank?]
  | cons c text =>
    simp only [takeBlank?, List.cons.injEq]
    constructor
    · intro h
      split at h
      · next hblank => exact ⟨c, hblank, rfl, Option.some.inj h⟩
      · cases h
    · rintro ⟨v, hv, rfl, rfl⟩
      exact if_pos hv

theorem takeWord?_eq_some_iff {word : String} {text rest : List Char} :
    takeWord? word text = some rest ↔ text = word.toList ++ rest := by
  rw [takeWord?, List.isPrefixOf?_eq_some_iff_append_eq, eq_comm]

theorem takeAcronym?_eq_some_iff {text rest : List Char} {a : String} :
    takeAcronym? text = some (a, rest) ↔ IsAcronym a ∧ text = a.toList ++ rest := by
  constructor
  · intro h
    unfold takeAcronym? at h
    split at h
    · next x y tail =>
      split at h
      · next hupper =>
        cases h
        rw [Bool.and_eq_true] at hupper
        exact ⟨⟨x, y, hupper.1, hupper.2, rfl⟩, by simp⟩
      · cases h
    · cases h
  · rintro ⟨⟨x, y, hx, hy, rfl⟩, rfl⟩
    simp [takeAcronym?, hx, hy]

/-! ## Words behind a blank -/

theorem takeMark?_eq_some_iff {mark : String} {text rest : List Char} :
    takeMark? mark text = some rest ↔ Leads [mark] text rest := by
  simp only [takeMark?, leads_singleton, Option.bind_eq_bind, Option.bind_eq_some_iff,
    takeBlank?_eq_some_iff, takeWord?_eq_some_iff]
  constructor
  · rintro ⟨next, ⟨v, hv, rfl⟩, rfl⟩
    exact ⟨v, hv, rfl⟩
  · rintro ⟨v, hv, rfl⟩
    exact ⟨_, ⟨v, hv, rfl⟩, rfl⟩

theorem exists_takeBlank?_takeAcronym?_iff {text rest : List Char} {a : String} :
    (∃ next, takeBlank? text = some next ∧ takeAcronym? next = some (a, rest)) ↔
      IsAcronym a ∧ Leads [a] text rest := by
  simp only [leads_singleton, takeBlank?_eq_some_iff, takeAcronym?_eq_some_iff]
  constructor
  · rintro ⟨next, ⟨v, hv, rfl⟩, ha, rfl⟩
    exact ⟨ha, v, hv, rfl⟩
  · rintro ⟨ha, v, hv, rfl⟩
    exact ⟨_, ⟨v, hv, rfl⟩, ha, rfl⟩

theorem takeAmount?_eq_some_iff {text rest : List Char} {w : WrittenAmount} :
    takeAmount? text = some (w, rest) ↔
      w.IsProper ∧ Leads [w.text] text rest ∧ NoDigit rest := by
  simp only [takeAmount?, leads_singleton, Option.bind_eq_bind, Option.bind_eq_some_iff,
    takeBlank?_eq_some_iff, WrittenAmount.take?_eq_some_iff]
  constructor
  · rintro ⟨next, ⟨v, hv, rfl⟩, hw, rfl, hrest⟩
    exact ⟨hw, ⟨v, hv, rfl⟩, hrest⟩
  · rintro ⟨hw, ⟨v, hv, rfl⟩, hrest⟩
    exact ⟨_, ⟨v, hv, rfl⟩, hw, rfl, hrest⟩

theorem takeDate?_eq_some_iff {text rest : List Char} {w : WrittenDate} :
    takeDate? text = some (w, rest) ↔ w.IsProper ∧ Leads [w.text] text rest ∧ NoDigit rest := by
  simp only [takeDate?, leads_singleton, Option.bind_eq_bind, Option.bind_eq_some_iff,
    takeBlank?_eq_some_iff, WrittenDate.take?_eq_some_iff]
  constructor
  · rintro ⟨next, ⟨v, hv, rfl⟩, hw, rfl, hrest⟩
    exact ⟨hw, ⟨v, hv, rfl⟩, hrest⟩
  · rintro ⟨hw, ⟨v, hv, rfl⟩, hrest⟩
    exact ⟨_, ⟨v, hv, rfl⟩, hw, rfl, hrest⟩

theorem takeNote?_eq_some_iff {text : List Char} {note : String} :
    takeNote? text = some note ↔ note ≠ "" ∧ Leads [note] text [] := by
  rw [leads_singleton]
  unfold takeNote?
  constructor
  · intro h
    split at h
    · next c rest hblank =>
      cases h
      obtain ⟨v, hv, rfl⟩ := takeBlank?_eq_some_iff.mp hblank
      exact ⟨by simp, v, hv, by simp⟩
    · cases h
  · rintro ⟨hne, v, hv, rfl⟩
    rw [takeBlank?_eq_some_iff.mpr ⟨v, hv, rfl⟩, List.append_nil]
    cases hnote : note.toList with
    | nil => exact absurd (String.toList_eq_nil_iff.mp hnote) hne
    | cons c cs => simp [← hnote]

/-! ## Accounts behind a mark -/

/-- Takes a mark and the acronym behind it. -/
def takeMember? (mark : String) (text : List Char) : Option (String × List Char) :=
  (takeMark? mark text).bind fun rest => (takeBlank? rest).bind takeAcronym?

theorem takeMember?_eq_some_iff {mark a : String} {text rest : List Char} :
    takeMember? mark text = some (a, rest) ↔ IsAcronym a ∧ Leads [mark, a] text rest := by
  unfold takeMember?
  rw [Option.bind_eq_some_iff, leads_cons]
  simp only [takeMark?_eq_some_iff, Option.bind_eq_some_iff, exists_takeBlank?_takeAcronym?_iff]
  constructor
  · rintro ⟨next, hmark, ha, hrest⟩
    exact ⟨ha, next, hmark, hrest⟩
  · rintro ⟨ha, next, hmark, hrest⟩
    exact ⟨next, hmark, ha, hrest⟩

/-- The five characters or more that an account behind a mark is made of. -/
theorem takeMember?_eq_some_iff_text {mark m : String} {text rest : List Char} :
    takeMember? mark text = some (m, rest) ↔ ∃ v w a b : Char,
      (isBlank v && isBlank w && a.isUpper && b.isUpper) = true ∧ m = String.ofList [a, b] ∧
        text = v :: (mark.toList ++ w :: a :: b :: rest) := by
  rw [takeMember?_eq_some_iff]
  simp only [Bool.and_eq_true]
  constructor
  · rintro ⟨⟨a, b, ha, hb, rfl⟩, v, next, hv, rfl, w, next', hw, rfl, rfl⟩
    exact ⟨v, w, a, b, ⟨⟨⟨hv, hw⟩, ha⟩, hb⟩, rfl, by simp⟩
  · rintro ⟨v, w, a, b, ⟨⟨⟨hv, hw⟩, ha⟩, hb⟩, rfl, rfl⟩
    exact ⟨⟨a, b, ha, hb, rfl⟩, v, w :: a :: b :: rest, hv, rfl, w, rest, hw, by simp, rfl⟩

/-- The function takes as many accounts as follow, each behind the mark. -/
structure TakesMembers (mark : String) (take : List Char → List String × List Char) : Prop where
  of_some : ∀ {text rest m}, takeMember? mark text = some (m, rest) →
    take text = (m :: (take rest).1, (take rest).2)
  of_none : ∀ {text}, takeMember? mark text = none → take text = ([], text)

theorem takesMembers_takeSharers : TakesMembers ":" takeSharers := by
  constructor
  · intro text rest m h
    obtain ⟨v, w, a, b, hcond, rfl, rfl⟩ := takeMember?_eq_some_iff_text.mp h
    exact if_pos hcond
  · intro text h
    unfold takeSharers
    split
    · next v w a b rest =>
      refine if_neg fun hcond => ?_
      have hsome : takeMember? ":" (v :: ':' :: w :: a :: b :: rest) =
          some (String.ofList [a, b], rest) :=
        takeMember?_eq_some_iff_text.mpr ⟨v, w, a, b, hcond, rfl, rfl⟩
      exact Option.some_ne_none _ (hsome.symm.trans h)
    · rfl

theorem takesMembers_takeRecipients : TakesMembers "->" takeRecipients := by
  constructor
  · intro text rest m h
    obtain ⟨v, w, a, b, hcond, rfl, rfl⟩ := takeMember?_eq_some_iff_text.mp h
    exact if_pos hcond
  · intro text h
    unfold takeRecipients
    split
    · next v w a b rest =>
      refine if_neg fun hcond => ?_
      have hsome : takeMember? "->" (v :: '-' :: '>' :: w :: a :: b :: rest) =
          some (String.ofList [a, b], rest) :=
        takeMember?_eq_some_iff_text.mpr ⟨v, w, a, b, hcond, rfl, rfl⟩
      exact Option.some_ne_none _ (hsome.symm.trans h)
    · rfl

theorem length_lt_of_leads {w : String} {ws : List String} {text rest : List Char}
    (h : Leads (w :: ws) text rest) : rest.length < text.length := by
  induction ws generalizing w text with
  | nil =>
    obtain ⟨v, -, rfl⟩ := leads_singleton.mp h
    simp only [List.length_cons, List.length_append]
    omega
  | cons u us ih =>
    obtain ⟨v, next, -, rfl, hnext⟩ := h
    have := ih hnext
    simp only [List.length_cons, List.length_append]
    omega

theorem TakesMembers.eq_iff {mark : String} {take : List Char → List String × List Char}
    (h : TakesMembers mark take) {text rest : List Char} {as : List String} :
    take text = (as, rest) ↔ (∀ a ∈ as, IsAcronym a) ∧
      Leads (as.flatMap fun a => [mark, a]) text rest ∧ takeMember? mark rest = none := by
  constructor
  · intro htake
    induction hlength : text.length using Nat.strongRecOn generalizing text as with
    | ind n ih =>
      cases hmember : takeMember? mark text with
      | none =>
        rw [h.of_none hmember] at htake
        cases htake
        exact ⟨by simp, rfl, hmember⟩
      | some member =>
        obtain ⟨a, next⟩ := member
        rw [h.of_some hmember] at htake
        cases htake
        obtain ⟨ha, hleads⟩ := takeMember?_eq_some_iff.mp hmember
        obtain ⟨has, hmore, hnone⟩ := ih next.length (hlength ▸ length_lt_of_leads hleads) rfl rfl
        refine ⟨List.forall_mem_cons.mpr ⟨ha, has⟩, ?_, hnone⟩
        rw [List.flatMap_cons]
        exact leads_append.mpr ⟨next, hleads, hmore⟩
  · rintro ⟨has, hleads, hnone⟩
    induction as generalizing text with
    | nil =>
      have heq : text = rest := hleads
      rw [heq, h.of_none hnone]
    | cons a as ih =>
      obtain ⟨ha, has⟩ := List.forall_mem_cons.mp has
      rw [List.flatMap_cons] at hleads
      obtain ⟨next, hmember, hmore⟩ := leads_append.mp hleads
      rw [h.of_some (takeMember?_eq_some_iff.mpr ⟨ha, hmember⟩), ih has hmore]

/-- A word that begins otherwise than the mark is not the mark before a further account. -/
theorem takeMember?_eq_none_of_leads {mark w : String} {ws : List String} {text rest : List Char}
    (h : Leads (w :: ws) text rest) {c d : Char} (hw : w.toList.head? = some c)
    (hmark : mark.toList.head? = some d) (hne : c ≠ d) : takeMember? mark text = none := by
  rw [Option.eq_none_iff_forall_ne_some]
  rintro ⟨m, rest'⟩ hsome
  obtain ⟨v, next, -, rfl, -⟩ := h
  obtain ⟨v', w', a, b, -, -, heq⟩ := takeMember?_eq_some_iff_text.mp hsome
  have hhead := congrArg List.head? (List.cons.inj heq).2
  rw [List.head?_append, List.head?_append, hw, hmark] at hhead
  exact hne (Option.some.inj hhead)

/-! ## Terms -/

theorem takeRecurrence?_eq_some_iff {text rest : List Char} {r : WrittenDate × WrittenDate} :
    takeRecurrence? text = some (r, rest) ↔
      r.1.IsProper ∧ r.2.IsProper ∧ Leads (recurrenceWords r) text rest ∧ NoDigit rest := by
  unfold takeRecurrence?
  constructor
  · intro h
    obtain ⟨t₁, hdash, h⟩ := Option.bind_eq_some_iff.mp h
    obtain ⟨⟨finish, t₂⟩, hfinish, h⟩ := Option.bind_eq_some_iff.mp h
    obtain ⟨t₃, hcolon, h⟩ := Option.bind_eq_some_iff.mp h
    obtain ⟨⟨period, t₄⟩, hperiod, h⟩ := Option.bind_eq_some_iff.mp h
    cases h
    obtain ⟨hfinish, hfinishText, -⟩ := takeDate?_eq_some_iff.mp hfinish
    obtain ⟨hperiod, hperiodText, hrest⟩ := takeDate?_eq_some_iff.mp hperiod
    refine ⟨hfinish, hperiod, ?_, hrest⟩
    exact leads_cons.mpr ⟨t₁, takeMark?_eq_some_iff.mp hdash, leads_cons.mpr ⟨t₂, hfinishText,
      leads_cons.mpr ⟨t₃, takeMark?_eq_some_iff.mp hcolon, hperiodText⟩⟩⟩
  · rintro ⟨hfinish, hperiod, hleads, hrest⟩
    obtain ⟨t₁, hdash, hleads⟩ := leads_cons.mp hleads
    obtain ⟨t₂, hfinishText, hleads⟩ := leads_cons.mp hleads
    obtain ⟨t₃, hcolon, hperiodText⟩ := leads_cons.mp hleads
    rw [takeMark?_eq_some_iff.mpr hdash]
    simp [takeDate?_eq_some_iff.mpr ⟨hfinish, hfinishText, noDigit_of_leads hcolon⟩,
      takeMark?_eq_some_iff.mpr hcolon, takeDate?_eq_some_iff.mpr ⟨hperiod, hperiodText, hrest⟩]

/-- A row of words is what stands behind the blank before the first of them. -/
theorem leads_cons_blank {v : Char} (hv : isBlank v = true) {w : String} {ws : List String}
    {text : List Char} : Leads (w :: ws) (v :: text) [] ↔ IsRow (w :: ws) text := by
  constructor
  · rintro ⟨v', next, -, heq, h⟩
    cases heq
    exact ⟨next, rfl, h⟩
  · rintro ⟨next, rfl, h⟩
    exact ⟨v, next, hv, rfl, h⟩

theorem isRecurrent_iff {v : Char} (hv : isBlank v = true) {note : String} :
    IsRecurrent note ↔ ∃ r : WrittenDate × WrittenDate, r.1.IsProper ∧ r.2.IsProper ∧
      ∃ note' : String, note' ≠ "" ∧
        Leads (recurrenceWords r ++ [note']) (v :: note.toList) [] := by
  simp only [IsRecurrent, recurrenceWords, List.cons_append, leads_cons_blank hv]

/-- Takes a recurrence and the note behind it. -/
def takeRecurring? (text : List Char) :
    Option (Option (WrittenDate × WrittenDate) × String) :=
  (takeRecurrence? text).bind fun taken =>
    (takeNote? taken.2).bind fun note => some (some taken.1, note)

theorem takeTerms?_eq (text : List Char) :
    takeTerms? text = (takeRecurring? text).or ((takeNote? text).map fun note => (none, note)) :=
  rfl

theorem takeRecurring?_eq_some_iff {text : List Char}
    {terms : Option (WrittenDate × WrittenDate) × String} :
    takeRecurring? text = some terms ↔
      ∃ r : WrittenDate × WrittenDate, r.1.IsProper ∧ r.2.IsProper ∧ ∃ note, note ≠ "" ∧
        Leads (recurrenceWords r ++ [note]) text [] ∧ terms = (some r, note) := by
  unfold takeRecurring?
  constructor
  · intro h
    obtain ⟨⟨r, t₁⟩, hr, h⟩ := Option.bind_eq_some_iff.mp h
    obtain ⟨note, hnote, h⟩ := Option.bind_eq_some_iff.mp h
    cases h
    obtain ⟨hfinish, hperiod, hleads, -⟩ := takeRecurrence?_eq_some_iff.mp hr
    obtain ⟨hne, hnote⟩ := takeNote?_eq_some_iff.mp hnote
    exact ⟨r, hfinish, hperiod, note, hne, leads_append.mpr ⟨t₁, hleads, hnote⟩, rfl⟩
  · rintro ⟨r, hfinish, hperiod, note, hne, hleads, rfl⟩
    obtain ⟨t₁, hleads, hnote⟩ := leads_append.mp hleads
    rw [takeRecurrence?_eq_some_iff.mpr ⟨hfinish, hperiod, hleads, noDigit_of_leads hnote⟩,
      Option.bind_some, takeNote?_eq_some_iff.mpr ⟨hne, hnote⟩, Option.bind_some]

theorem takeTerms?_eq_some_iff {text : List Char}
    {recurrence : Option (WrittenDate × WrittenDate)} {note : String} :
    takeTerms? text = some (recurrence, note) ↔
      note ≠ "" ∧ (∀ r, recurrence = some r → r.1.IsProper ∧ r.2.IsProper) ∧
        (recurrence = none → ¬ IsRecurrent note) ∧
        Leads ((recurrence.map recurrenceWords).getD [] ++ [note]) text [] := by
  rw [takeTerms?_eq, Option.or_eq_some_iff, takeRecurring?_eq_some_iff,
    Option.eq_none_iff_forall_ne_some]
  constructor
  · rintro (⟨r, hfinish, hperiod, note, hne, hleads, heq⟩ | ⟨hno, h⟩)
    · cases heq
      exact ⟨hne, fun r' hr' => Option.some.inj hr' ▸ ⟨hfinish, hperiod⟩, by simp, hleads⟩
    · obtain ⟨note, hnote, heq⟩ := Option.map_eq_some_iff.mp h
      cases heq
      obtain ⟨hne, hleads⟩ := takeNote?_eq_some_iff.mp hnote
      refine ⟨hne, by simp, fun _ => ?_, hleads⟩
      -- A recurrence at the front of the note would have been taken for one.
      obtain ⟨v, hv, rfl⟩ := leads_singleton.mp hleads
      rw [isRecurrent_iff hv]
      rintro ⟨r, hfinish, hperiod, note', hne', hleads'⟩
      rw [← List.append_nil note.toList] at hleads'
      exact hno _ (takeRecurring?_eq_some_iff.mpr ⟨r, hfinish, hperiod, note', hne', hleads', rfl⟩)
  · rintro ⟨hne, hdates, honce, hleads⟩
    cases recurrence with
    | some r => exact .inl ⟨r, (hdates r rfl).1, (hdates r rfl).2, note, hne, hleads, rfl⟩
    | none =>
      have hleads : Leads [note] text [] := hleads
      refine .inr ⟨fun x hx => ?_, ?_⟩
      · obtain ⟨v, hv, rfl⟩ := leads_singleton.mp hleads
        obtain ⟨r, hfinish, hperiod, note', hne', hleads', -⟩ := takeRecurring?_eq_some_iff.mp hx
        rw [List.append_nil] at hleads'
        exact honce rfl ((isRecurrent_iff hv).mpr ⟨r, hfinish, hperiod, note', hne', hleads'⟩)
      · rw [takeNote?_eq_some_iff.mpr ⟨hne, hleads⟩]
        rfl

end Line

end HouseLedger
