import HouseLedger.Proofs.Calendar.Written
import HouseLedger.Proofs.Ledger.Grammar
import HouseLedger.Proofs.Ledger.Requests

/-!
# Which lines can be carried out

`Line.Admissible` says what a line needs of the lines before it, of the calendar and of the
reference date, and `Line.FailsWith` which fault a line has that lacks it: the first in the
order of the checks (`Line.FailsWith.unique`). A text is acceptable behind some lines if it
spells an admissible line, and has a `LineFault` otherwise.

* `Draft.Consists.carryOut_cases`: a draft that holds what the lines before ask for carries a line
  out if it is admissible, and fails as the line does otherwise.
* `Draft.addLines_cases`: lines are read to their end if all are acceptable, and up to the
  first that is not otherwise.
-/

namespace HouseLedger

open Outcome
open Decimal (InRange)

variable {options : Options} {reference : Date}

/-! ## Acceptable lines -/

/-- One of the lines declares an account of the acronym. -/
def Declared (lines : List (List Char)) (acronym : String) : Prop :=
  ∃ text ∈ lines, ∃ name, (Line.account acronym name).Spells text

theorem declared_iff_mem {lines : List (List Char)} {acronym : String} :
    Declared lines acronym ↔ acronym ∈ (declared lines).map (·.acronym) := by
  have htext (text : List Char) : (∃ name, (Line.account acronym name).Spells text) ↔
      ∃ a ∈ accountsOf text, a.acronym = acronym := by
    simp only [← Line.ofText?_eq_some_iff, accountsOf]
    cases Line.ofText? text with
    | none => simp
    | some line => cases line <;> simp [Line.declares, eq_comm]
  simp only [Declared, htext, declared, List.mem_map, List.mem_flatMap]
  tauto

/-- The invoice begins by the reference date, and a share of its amount is too large. -/
def InvoiceLine.Overshares (reference : Date) (l : InvoiceLine) : Prop :=
  ∃ start, l.start.Names start ∧ start ≤ reference ∧
    ¬ InRange (l.amount.toDecimal.share (l.sharers.length + 1)).toRat

/-- The invoice recurs from a day up to the reference date on, and by no step. -/
def InvoiceLine.Stalls (options : Options) (reference : Date) (l : InvoiceLine) : Prop :=
  ∃ start r, l.start.Names start ∧ start ≤ reference ∧ l.recurrence = some r ∧
    ¬ r.2.LeadsOn options.legacyYears

/-- The line asks for an invoice that comes to too much with an alike one before it. -/
def InvoiceLine.Overmerges (options : Options) (reference : Date) (earlier : List (List Char))
    (l : InvoiceLine) : Prop :=
  ∃ ts, l.billed options reference (accountsBehind earlier) = .ok ts ∧
    ¬ Draft.Enterable options.mergeInvoices (invoicesBehind options reference earlier) ts

namespace Line

/-- The acronyms that a line refers to, in the order in which they stand there. -/
def parties : Line → List String
  | invoice l => l.parties
  | payment l => [l.sender, l.recipient]
  | _ => []

/-- The dates of a line. -/
def dates : Line → List WrittenDate
  | invoice l => l.start :: (l.recurrence.map (·.1)).toList
  | payment l => [l.date]
  | _ => []

/-- What the format of ledgers asks of the line behind the lines before it. -/
structure Regular (options : Options) (reference : Date) (earlier : List (List Char))
    (line : Line) : Prop where
  fresh : ∀ acronym name, line = account acronym name → ¬ Declared earlier acronym
  declared : ∀ acronym ∈ line.parties, Declared earlier acronym
  real : ∀ w ∈ line.dates, w.IsReal
  moving : ∀ l, line = invoice l → ¬ l.Stalls options reference

/-- What the line needs to be carried out behind the lines before it. -/
structure Admissible (options : Options) (reference : Date) (earlier : List (List Char))
    (line : Line) : Prop extends line.Regular options reference earlier where
  sharable : ∀ l, line = invoice l → ¬ l.Overshares reference
  mergeable : ∀ l, line = invoice l → ¬ l.Overmerges options reference earlier

/-- The fault of a line that is not admissible. Acronyms come before dates, both from the left
to the right, then the share of an amount, and then a period; the sums with alike invoices come
last. -/
inductive FailsWith (options : Options) (reference : Date) (earlier : List (List Char)) :
    Line → Fault → Prop
  | taken {acronym name : String} : Declared earlier acronym →
      FailsWith options reference earlier (account acronym name) (.accountTaken acronym)
  | unknown {line : Line} {acronym : String} :
      FirstWithout (Declared earlier) line.parties acronym →
      FailsWith options reference earlier line (.accountUnknown acronym)
  | unreal {line : Line} {w : WrittenDate} {defect : DateDefect} :
      (∀ a ∈ line.parties, Declared earlier a) →
      FirstWithout WrittenDate.IsReal line.dates w → w.Misses defect →
      FailsWith options reference earlier line (.dateUnreal w.text defect)
  | overshares {l : InvoiceLine} : (∀ a ∈ l.parties, Declared earlier a) →
      (∀ w ∈ (invoice l).dates, w.IsReal) → l.Overshares reference →
      FailsWith options reference earlier (invoice l) .overflow
  | stalls {l : InvoiceLine} : (∀ a ∈ l.parties, Declared earlier a) →
      (∀ w ∈ (invoice l).dates, w.IsReal) → ¬ l.Overshares reference →
      l.Stalls options reference → FailsWith options reference earlier (invoice l) .periodEmpty
  | overmerges {l : InvoiceLine} : (∀ a ∈ l.parties, Declared earlier a) →
      (∀ w ∈ (invoice l).dates, w.IsReal) → ¬ l.Overshares reference →
      ¬ l.Stalls options reference → l.Overmerges options reference earlier →
      FailsWith options reference earlier (invoice l) .overflow

variable {earlier : List (List Char)} {line : Line} {fault fault' : Fault}

theorem FailsWith.not_admissible (h : line.FailsWith options reference earlier fault) :
    ¬ line.Admissible options reference earlier := by
  intro hline
  cases h with
  | taken htaken => exact hline.fresh _ _ rfl htaken
  | unknown hfirst => exact hfirst.not_forall hline.declared
  | unreal _ hfirst _ => exact hfirst.not_forall hline.real
  | overshares _ _ hover => exact hline.sharable _ rfl hover
  | stalls _ _ _ hstalls => exact hline.moving _ rfl hstalls
  | overmerges _ _ _ _ hover => exact hline.mergeable _ rfl hover

theorem FailsWith.unique (h : line.FailsWith options reference earlier fault)
    (h' : line.FailsWith options reference earlier fault') : fault = fault' := by
  cases h with
  | taken _ =>
    cases h' with
    | taken _ => rfl
    | unknown hfirst => cases hfirst
    | unreal _ hfirst _ => cases hfirst
  | unknown hfirst =>
    cases h' with
    | taken _ => cases hfirst
    | unknown hfirst' => rw [hfirst.unique hfirst']
    | unreal hdeclared _ _ => exact absurd hdeclared hfirst.not_forall
    | overshares hdeclared _ _ => exact absurd hdeclared hfirst.not_forall
    | stalls hdeclared _ _ _ => exact absurd hdeclared hfirst.not_forall
    | overmerges hdeclared _ _ _ _ => exact absurd hdeclared hfirst.not_forall
  | unreal hdeclared hfirst hmisses =>
    cases h' with
    | taken _ => cases hfirst
    | unknown hfirst' => exact absurd hdeclared hfirst'.not_forall
    | unreal _ hfirst' hmisses' =>
      obtain rfl := hfirst.unique hfirst'
      rw [hmisses.unique hmisses']
    | overshares _ hreal _ => exact absurd hreal hfirst.not_forall
    | stalls _ hreal _ _ => exact absurd hreal hfirst.not_forall
    | overmerges _ hreal _ _ _ => exact absurd hreal hfirst.not_forall
  | overshares hdeclared hreal hover =>
    cases h' with
    | unknown hfirst => exact absurd hdeclared hfirst.not_forall
    | unreal _ hfirst _ => exact absurd hreal hfirst.not_forall
    | overshares _ _ _ => rfl
    | stalls _ _ hnot _ => exact absurd hover hnot
    | overmerges _ _ _ _ _ => rfl
  | stalls hdeclared hreal hnot hstalls =>
    cases h' with
    | unknown hfirst => exact absurd hdeclared hfirst.not_forall
    | unreal _ hfirst _ => exact absurd hreal hfirst.not_forall
    | overshares _ _ hover => exact absurd hover hnot
    | stalls _ _ _ _ => rfl
    | overmerges _ _ _ hmoving _ => exact absurd hstalls hmoving
  | overmerges hdeclared hreal hnot hmoving _ =>
    cases h' with
    | unknown hfirst => exact absurd hdeclared hfirst.not_forall
    | unreal _ hfirst _ => exact absurd hreal hfirst.not_forall
    | overshares _ _ _ => rfl
    | stalls _ _ _ hstalls => exact absurd hstalls hmoving
    | overmerges _ _ _ _ _ => rfl

theorem admissible_invoice_iff {l : InvoiceLine} :
    (invoice l).Admissible options reference earlier ↔
      (∀ a ∈ l.parties, Declared earlier a) ∧ (∀ w ∈ (invoice l).dates, w.IsReal) ∧
        ¬ l.Overshares reference ∧ ¬ l.Stalls options reference ∧
        ¬ l.Overmerges options reference earlier := by
  constructor
  · intro h
    exact ⟨h.declared, h.real, h.sharable l rfl, h.moving l rfl, h.mergeable l rfl⟩
  · rintro ⟨hparties, hdates, hshares, hmoves, hmerges⟩
    refine ⟨⟨nofun, hparties, hdates, ?_⟩, ?_, ?_⟩
    · rintro _ ⟨rfl⟩
      exact hmoves
    · rintro _ ⟨rfl⟩
      exact hshares
    · rintro _ ⟨rfl⟩
      exact hmerges

end Line

/-- The text spells a line that is admissible behind the lines before it. -/
def Acceptable (options : Options) (reference : Date) (earlier : List (List Char))
    (text : List Char) : Prop :=
  ∃ line : Line, line.Spells text ∧ line.Admissible options reference earlier

/-- Every line is acceptable where it stands. -/
def AllAcceptable (options : Options) (reference : Date) (body : List (List Char)) : Prop :=
  ∀ before text after, body = before ++ text :: after → Acceptable options reference before text

/-- The fault of a line that is not acceptable, with its number and its text unless it is an
overflow. -/
inductive LineFault (options : Options) (reference : Date) (earlier : List (List Char))
    (number : Nat) (text : List Char) : Fault → Prop
  | malformed : (∀ line : Line, ¬ line.Spells text) →
      LineFault options reference earlier number text (.lineMalformed number (String.ofList text))
  | failing {line : Line} {cause : Fault} : line.Spells text →
      line.FailsWith options reference earlier cause →
      LineFault options reference earlier number text (cause.atLine number (String.ofList text))

theorem LineFault.not_acceptable {earlier : List (List Char)} {number : Nat} {text : List Char}
    {fault : Fault} (h : LineFault options reference earlier number text fault) :
    ¬ Acceptable options reference earlier text := by
  rintro ⟨line, htext, hline⟩
  cases h with
  | malformed hno => exact hno line htext
  | failing htext' hfails =>
    rw [htext'.unique htext] at hfails
    exact hfails.not_admissible hline

theorem LineFault.unique {earlier : List (List Char)} {number : Nat} {text : List Char}
    {fault fault' : Fault} (h : LineFault options reference earlier number text fault)
    (h' : LineFault options reference earlier number text fault') : fault = fault' := by
  cases h with
  | malformed hno =>
    cases h' with
    | malformed _ => rfl
    | failing htext _ => exact absurd htext (hno _)
  | failing htext hfails =>
    cases h' with
    | malformed hno => exact absurd htext (hno _)
    | failing htext' hfails' =>
      obtain rfl := htext.unique htext'
      rw [hfails.unique hfails']

theorem allAcceptable_nil : AllAcceptable options reference [] := by
  intro before text after h
  exact absurd h (by simp)

theorem AllAcceptable.of_append {body more : List (List Char)}
    (h : AllAcceptable options reference (body ++ more)) :
    AllAcceptable options reference body := by
  intro before text after heq
  refine h before text (after ++ more) ?_
  rw [heq, List.append_assoc, List.cons_append]

theorem allAcceptable_concat_iff {body : List (List Char)} {text : List Char} :
    AllAcceptable options reference (body ++ [text]) ↔
      AllAcceptable options reference body ∧ Acceptable options reference body text := by
  constructor
  · intro h
    exact ⟨h.of_append, h body text [] rfl⟩
  · rintro ⟨hbody, htext⟩ before text' after heq
    rcases List.eq_nil_or_concat after with rfl | ⟨after, last, rfl⟩
    · obtain ⟨rfl, hlast⟩ := List.append_inj' heq rfl
      cases hlast
      exact htext
    · rw [List.concat_eq_append, ← List.cons_append, ← List.append_assoc] at heq
      exact hbody before text' after (List.append_inj' heq rfl).1

/-- The first line that is not acceptable, and its fault. -/
def FirstFault (options : Options) (reference : Date) (body : List (List Char))
    (fault : Fault) : Prop :=
  ∃ before text after, body = before ++ text :: after ∧ AllAcceptable options reference before ∧
    LineFault options reference before (before.length + 2) text fault

theorem FirstFault.not_allAcceptable {body : List (List Char)} {fault : Fault}
    (h : FirstFault options reference body fault) : ¬ AllAcceptable options reference body := by
  obtain ⟨before, text, after, hbody, -, hfault⟩ := h
  exact fun hall => hfault.not_acceptable (hall before text after hbody)

theorem FirstFault.unique {body : List (List Char)} {fault fault' : Fault}
    (h : FirstFault options reference body fault)
    (h' : FirstFault options reference body fault') : fault = fault' := by
  obtain ⟨before, text, after, rfl, hbefore, hfault⟩ := h
  obtain ⟨before', text', after', hbody, hbefore', hfault'⟩ := h'
  -- Neither of the two lines stands before the other, where all lines are acceptable.
  rcases List.append_eq_append_iff.mp hbody with ⟨between, rfl, hrest⟩ | ⟨between, rfl, hrest⟩
  · cases between with
    | nil =>
      rw [List.append_nil] at hfault'
      cases hrest
      exact hfault.unique hfault'
    | cons first between =>
      cases hrest
      exact absurd (hbefore' before text between rfl) hfault.not_acceptable
  · cases between with
    | nil =>
      rw [List.append_nil] at hfault
      cases hrest
      exact hfault.unique hfault'
    | cons first between =>
      cases hrest
      exact absurd (hbefore before' text' between rfl) hfault'.not_acceptable

/-! ## Accounts of the lines before -/

variable {earlier : List (List Char)}

theorem find?_eq_none_iff_not_declared {acronym : String} :
    (accountsBehind earlier).find? acronym = none ↔ ¬ Declared earlier acronym := by
  rw [Registry.find?_eq_none_iff, accountsBehind, declared_iff_mem]

theorem declared_iff_exists_resolve {acronym : String} :
    Declared earlier acronym ↔ ∃ i, (accountsBehind earlier).resolve acronym = .ok i := by
  simp only [Registry.resolve_eq_ok_iff]
  rw [← Option.ne_none_iff_exists', Ne, find?_eq_none_iff_not_declared, Classical.not_not]

theorem not_declared_of_resolve {acronym : String} {fault : Fault}
    (he : (accountsBehind earlier).resolve acronym = .error fault) :
    ¬ Declared earlier acronym ∧ fault = .accountUnknown acronym := by
  obtain ⟨hnone, rfl⟩ := Registry.resolve_eq_error_iff.mp he
  exact ⟨find?_eq_none_iff_not_declared.mp hnone, rfl⟩

theorem declared_of_mapM {acronyms : List String} {is : List Nat}
    (his : acronyms.mapM (accountsBehind earlier).resolve = .ok is) :
    ∀ a ∈ acronyms, Declared earlier a := by
  intro a ha
  obtain ⟨i, -, hi⟩ := exists_ok_of_mapM_eq_ok his a ha
  exact declared_iff_exists_resolve.mpr ⟨i, hi⟩

theorem exists_unknown_of_mapM {acronyms : List String} {fault : Fault}
    (he : acronyms.mapM (accountsBehind earlier).resolve = .error fault) :
    ∃ acronym, FirstWithout (Declared earlier) acronyms acronym ∧
      fault = .accountUnknown acronym := by
  obtain ⟨acronym, hfirst, hacronym⟩ := exists_firstWithout_of_mapM_eq_error he
  exact ⟨acronym, hfirst.congr fun a _ => declared_iff_exists_resolve.symm,
    (not_declared_of_resolve hacronym).2⟩

namespace InvoiceLine

/-! ## Invoice lines -/

theorem isReal_of_mem_dates {l : InvoiceLine} {start : Date} {finish : Option Date}
    (hstart : l.start.toDate = .ok start)
    (hfinish : l.recurrence.mapM (fun r => r.1.toDate) = .ok finish) :
    ∀ w ∈ (Line.invoice l).dates, w.IsReal := by
  refine List.forall_mem_cons.mpr ⟨⟨start, WrittenDate.toDate_eq_ok_iff.mp hstart⟩, ?_⟩
  cases hr : l.recurrence with
  | none => exact List.forall_mem_nil _
  | some r =>
    rw [hr] at hfinish
    obtain ⟨date, hdate, -⟩ := bind_eq_ok.mp hfinish
    exact List.forall_mem_singleton.mpr ⟨date, WrittenDate.toDate_eq_ok_iff.mp hdate⟩

/-- The dates of a line are found unless it recurs by no step. -/
theorem occurrences_eq_error_iff {l : InvoiceLine} {start : Date} {finish : Option Date}
    (hfinish : l.recurrence.mapM (fun r => r.1.toDate) = .ok finish) {legacyYears : Bool}
    {fault : Fault} :
    Recurrence.occurrences start finish (l.recurrence.map fun r => r.2.toPeriod legacyYears)
        reference = .error fault ↔
      ∃ r, l.recurrence = some r ∧ ¬ r.2.LeadsOn legacyYears ∧ fault = .periodEmpty := by
  cases hr : l.recurrence with
  | none =>
    rw [hr] at hfinish
    cases hfinish
    simp [Recurrence.occurrences]
  | some r =>
    rw [hr] at hfinish
    obtain ⟨date, -, hdate⟩ := bind_eq_ok.mp hfinish
    cases hdate
    simp only [Option.map_some, Recurrence.occurrences, Option.some.injEq, exists_eq_left',
      ← WrittenDate.isEmpty_toPeriod_iff]
    cases (r.2.toPeriod legacyYears).isEmpty with
    | true => simp [eq_comm]
    | false => simp

/-- Looking up the accounts of an invoice fails at the first that is not declared. -/
theorem resolve_parties_cases {l : InvoiceLine} {fault : Fault}
    {α : Type} {next : List Nat → Nat → List Nat → Except Fault α}
    (he : (do
      let senders ← (l.sender :: l.sharers).mapM (accountsBehind earlier).resolve
      let recipient ← (accountsBehind earlier).resolve l.recipient
      let chain ← l.chain.mapM (accountsBehind earlier).resolve
      next senders recipient chain) = .error fault) :
    (∃ acronym, FirstWithout (Declared earlier) l.parties acronym ∧
      fault = .accountUnknown acronym) ∨
    (∀ a ∈ l.parties, Declared earlier a) ∧
      ∃ senders recipient chain, senders.length = l.sharers.length + 1 ∧
        next senders recipient chain = .error fault := by
  rcases bind_eq_error.mp he with hsenders | ⟨senders, hsenders, he⟩
  · obtain ⟨acronym, hfirst, rfl⟩ := exists_unknown_of_mapM hsenders
    exact .inl ⟨acronym, hfirst.append_right _, rfl⟩
  have hlength : senders.length = l.sharers.length + 1 :=
    (forall₂_of_mapM_eq_ok hsenders).length_eq.symm
  have hsenders := declared_of_mapM hsenders
  rcases bind_eq_error.mp he with hrecipient | ⟨recipient, hrecipient, he⟩
  · obtain ⟨hunknown, rfl⟩ := not_declared_of_resolve hrecipient
    exact .inl ⟨l.recipient, .append_left hsenders (.head hunknown), rfl⟩
  have hrecipient := declared_iff_exists_resolve.mpr ⟨recipient, hrecipient⟩
  rcases bind_eq_error.mp he with hchain | ⟨chain, hchain, he⟩
  · obtain ⟨acronym, hfirst, rfl⟩ := exists_unknown_of_mapM hchain
    exact .inl ⟨acronym, .append_left hsenders (.tail hrecipient hfirst), rfl⟩
  · exact .inr ⟨List.forall_mem_append.mpr ⟨hsenders,
      List.forall_mem_cons.mpr ⟨hrecipient, declared_of_mapM hchain⟩⟩,
      senders, recipient, chain, hlength, he⟩

/-- Reading the dates of an invoice fails at the first that is none. -/
theorem toDate_dates_cases {l : InvoiceLine} {fault : Fault}
    {α : Type} {next : Date → Option Date → Except Fault α}
    (he : (do
      let start ← l.start.toDate
      let finish ← l.recurrence.mapM fun r : WrittenDate × WrittenDate => r.1.toDate
      next start finish) = .error fault) :
    (∃ w defect, FirstWithout WrittenDate.IsReal (Line.invoice l).dates w ∧ w.Misses defect ∧
      fault = .dateUnreal w.text defect) ∨
    (∀ w ∈ (Line.invoice l).dates, w.IsReal) ∧
      ∃ start finish, l.start.toDate = .ok start ∧
        l.recurrence.mapM (fun r => r.1.toDate) = .ok finish ∧
        next start finish = .error fault := by
  rcases bind_eq_error.mp he with hstart | ⟨start, hstart, he⟩
  · obtain ⟨defect, hmisses, rfl⟩ := WrittenDate.exists_misses_of_toDate_eq_error hstart
    exact .inl ⟨l.start, defect, .head hmisses.not_isReal, hmisses, rfl⟩
  rcases bind_eq_error.mp he with hfinish | ⟨finish, hfinish, he⟩
  · cases hr : l.recurrence with
    | none =>
      rw [hr] at hfinish
      cases hfinish
    | some r =>
      rw [hr] at hfinish
      rcases bind_eq_error.mp hfinish with hfinish | ⟨date, -, hdate⟩
      · obtain ⟨defect, hmisses, rfl⟩ := WrittenDate.exists_misses_of_toDate_eq_error hfinish
        refine .inl ⟨r.1, defect, ?_, hmisses, rfl⟩
        rw [Line.dates, hr]
        exact .tail ⟨start, WrittenDate.toDate_eq_ok_iff.mp hstart⟩ (.head hmisses.not_isReal)
      · cases hdate
  · exact .inr ⟨isReal_of_mem_dates hstart hfinish, start, finish, hstart, hfinish, he⟩

/-- Whether an invoice is shared out and whether it recurs is told by its first day. -/
theorem overshares_iff {l : InvoiceLine} {start : Date} (hstart : l.start.toDate = .ok start) :
    l.Overshares reference ↔ start ≤ reference ∧
      ¬ InRange (l.amount.toDecimal.share (l.sharers.length + 1)).toRat := by
  constructor
  · rintro ⟨start', hstart', hshare⟩
    rwa [ok_unique hstart (WrittenDate.toDate_eq_ok_iff.mpr hstart')]
  · exact fun hshare => ⟨start, WrittenDate.toDate_eq_ok_iff.mp hstart, hshare⟩

theorem stalls_iff {l : InvoiceLine} {start : Date} (hstart : l.start.toDate = .ok start) :
    l.Stalls options reference ↔ start ≤ reference ∧
      ∃ r, l.recurrence = some r ∧ ¬ r.2.LeadsOn options.legacyYears := by
  constructor
  · rintro ⟨start', r, hstart', hintime, hr⟩
    rw [ok_unique hstart (WrittenDate.toDate_eq_ok_iff.mpr hstart')]
    exact ⟨hintime, r, hr⟩
  · rintro ⟨hintime, r, hr⟩
    exact ⟨start, r, WrittenDate.toDate_eq_ok_iff.mp hstart, hintime, hr⟩

theorem failsWith_of_billed {l : InvoiceLine} {fault : Fault}
    (he : l.billed options reference (accountsBehind earlier) = .error fault) :
    (Line.invoice l).FailsWith options reference earlier fault := by
  rcases resolve_parties_cases he with
    ⟨acronym, hfirst, rfl⟩ | ⟨hparties, senders, recipient, chain, hlength, he⟩
  · exact .unknown hfirst
  rcases toDate_dates_cases he with
    ⟨w, defect, hfirst, hmisses, rfl⟩ | ⟨hdates, start, finish, hstart, hfinish, he⟩
  · exact .unreal hparties hfirst hmisses
  by_cases hlate : reference < start
  · simp only [if_pos hlate] at he
    cases he
  · simp only [if_neg hlate, hlength] at he
    rcases bind_eq_error.mp he with hshare | ⟨share, hshare, he⟩
    · obtain ⟨hover, rfl⟩ := (Decimal.failsIff_checked _).eq_error_iff.mp hshare
      exact .overshares hparties hdates ((overshares_iff hstart).mpr ⟨Date.not_lt.mp hlate, hover⟩)
    have hnot : ¬ l.Overshares reference := fun hover =>
      ((overshares_iff hstart).mp hover).2 (Decimal.checked_eq_ok_iff.mp hshare).1
    rcases bind_eq_error.mp he with hperiod | ⟨dates, -, he⟩
    · obtain ⟨r, hr, hstalls, rfl⟩ := (occurrences_eq_error_iff hfinish).mp hperiod
      exact .stalls hparties hdates hnot
        ((stalls_iff hstart).mpr ⟨Date.not_lt.mp hlate, r, hr, hstalls⟩)
    · cases he

/-- A line that asks for invoices lacks nothing, but that they may come to too much with others. -/
theorem of_billed {l : InvoiceLine} {ts : List Transaction}
    (hts : l.billed options reference (accountsBehind earlier) = .ok ts) :
    (∀ a ∈ l.parties, Declared earlier a) ∧ (∀ w ∈ (Line.invoice l).dates, w.IsReal) ∧
      ¬ l.Overshares reference ∧ ¬ l.Stalls options reference := by
  obtain ⟨senders, hsenders, hts⟩ := bind_eq_ok.mp hts
  obtain ⟨recipient, hrecipient, hts⟩ := bind_eq_ok.mp hts
  obtain ⟨chain, hchain, hts⟩ := bind_eq_ok.mp hts
  obtain ⟨start, hstart, hts⟩ := bind_eq_ok.mp hts
  obtain ⟨finish, hfinish, hts⟩ := bind_eq_ok.mp hts
  refine ⟨List.forall_mem_append.mpr ⟨declared_of_mapM hsenders, List.forall_mem_cons.mpr
    ⟨declared_iff_exists_resolve.mpr ⟨_, hrecipient⟩, declared_of_mapM hchain⟩⟩,
    isReal_of_mem_dates hstart hfinish, ?_⟩
  rw [overshares_iff hstart, stalls_iff hstart]
  by_cases hlate : reference < start
  · exact ⟨fun hover => Date.not_le.mpr hlate hover.1,
      fun hstalls => Date.not_le.mpr hlate hstalls.1⟩
  · have hlength : senders.length = l.sharers.length + 1 :=
      (forall₂_of_mapM_eq_ok hsenders).length_eq.symm
    simp only [if_neg hlate, hlength] at hts
    obtain ⟨share, hshare, hts⟩ := bind_eq_ok.mp hts
    obtain ⟨dates, hdates, -⟩ := bind_eq_ok.mp hts
    refine ⟨fun hover => hover.2 (Decimal.checked_eq_ok_iff.mp hshare).1, ?_⟩
    rintro ⟨-, r, hr, hstalls⟩
    cases hdates.symm.trans ((occurrences_eq_error_iff hfinish).mpr ⟨r, hr, hstalls, rfl⟩)

/-- A line asks for invoices if nothing is wrong with it by itself. -/
theorem exists_billed_iff {l : InvoiceLine} :
    (∃ ts, l.billed options reference (accountsBehind earlier) = .ok ts) ↔
      (∀ a ∈ l.parties, Declared earlier a) ∧ (∀ w ∈ (Line.invoice l).dates, w.IsReal) ∧
        ¬ l.Overshares reference ∧ ¬ l.Stalls options reference := by
  constructor
  · rintro ⟨ts, hts⟩
    exact of_billed hts
  · rintro ⟨hparties, hdates, hshares, hmoves⟩
    cases hbilled : l.billed options reference (accountsBehind earlier) with
    | ok ts => exact ⟨ts, rfl⟩
    | error fault =>
      cases failsWith_of_billed hbilled with
      | unknown hfirst => exact absurd hparties hfirst.not_forall
      | unreal _ hfirst _ => exact absurd hdates hfirst.not_forall
      | overshares _ _ hover => exact absurd hover hshares
      | stalls _ _ _ hstalls => exact absurd hstalls hmoves
      | overmerges _ _ _ _ hover =>
        obtain ⟨ts, hts, -⟩ := hover
        exact ⟨ts, hbilled.symm.trans hts⟩

end InvoiceLine

namespace Draft

variable {d d' : Draft}

/-! ## One line -/

/-- A draft that holds what the lines before an invoice ask for takes it if it is admissible. -/
theorem Consists.addInvoice_cases (h : d.Consists options reference earlier) (l : InvoiceLine) :
    (∃ d', d.addInvoice options reference l = .ok d' ∧
      (Line.invoice l).Admissible options reference earlier) ∨
    ∃ fault, d.addInvoice options reference l = .error fault ∧
      (Line.invoice l).FailsWith options reference earlier fault := by
  have hover {ts : List Transaction}
      (hts : l.billed options reference (accountsBehind earlier) = .ok ts) :
      l.Overmerges options reference earlier ↔
        ¬ Enterable options.mergeInvoices d.invoices ts := by
    rw [InvoiceLine.Overmerges, hts, h.invoices_eq]
    simp
  have htakes := takes_addInvoice options reference d l
  rw [h.accounts_eq] at htakes
  generalize haccepted : d.addInvoice options reference l = accepted at htakes
  generalize hbilled : l.billed options reference (accountsBehind earlier) = billed at htakes
  cases htakes with
  | error fault => exact .inr ⟨fault, rfl, InvoiceLine.failsWith_of_billed hbilled⟩
  | ok hall _ _ _ =>
    obtain ⟨hparties, hdates, hshares, hmoves⟩ := InvoiceLine.of_billed hbilled
    exact .inl ⟨_, rfl, Line.admissible_invoice_iff.mpr
      ⟨hparties, hdates, hshares, hmoves, mt (hover hbilled).mp (not_not.mpr hall)⟩⟩
  | overflow hnot =>
    obtain ⟨hparties, hdates, hshares, hmoves⟩ := InvoiceLine.of_billed hbilled
    exact .inr ⟨_, rfl, .overmerges hparties hdates hshares hmoves ((hover hbilled).mpr hnot)⟩

theorem Consists.admissible_of_addPayment (h : d.Consists options reference earlier)
    {l : PaymentLine} (hd' : d.addPayment reference l = .ok d') :
    (Line.payment l).Admissible options reference earlier := by
  obtain ⟨sender, recipient, date, hsender, hrecipient, hdate, -⟩ := addPayment_eq_ok hd'
  rw [h.accounts_eq] at hsender hrecipient
  refine ⟨⟨nofun, ?_, ?_, nofun⟩, nofun, nofun⟩
  · exact List.forall_mem_cons.mpr ⟨declared_iff_exists_resolve.mpr ⟨sender, hsender⟩,
      List.forall_mem_singleton.mpr (declared_iff_exists_resolve.mpr ⟨recipient, hrecipient⟩)⟩
  · exact List.forall_mem_singleton.mpr ⟨date, WrittenDate.toDate_eq_ok_iff.mp hdate⟩

theorem Consists.failsWith_of_addPayment (h : d.Consists options reference earlier)
    {l : PaymentLine} {fault : Fault} (he : d.addPayment reference l = .error fault) :
    (Line.payment l).FailsWith options reference earlier fault := by
  rw [Draft.addPayment, h.accounts_eq] at he
  rcases bind_eq_error.mp he with hsender | ⟨sender, hsender, he⟩
  · obtain ⟨hunknown, rfl⟩ := not_declared_of_resolve hsender
    exact .unknown (.head hunknown)
  have hsender := declared_iff_exists_resolve.mpr ⟨sender, hsender⟩
  rcases bind_eq_error.mp he with hrecipient | ⟨recipient, hrecipient, he⟩
  · obtain ⟨hunknown, rfl⟩ := not_declared_of_resolve hrecipient
    exact .unknown (.tail hsender (.head hunknown))
  have hrecipient := declared_iff_exists_resolve.mpr ⟨recipient, hrecipient⟩
  rcases bind_eq_error.mp he with hdate | ⟨date, -, he⟩
  · obtain ⟨defect, hmisses, rfl⟩ := WrittenDate.exists_misses_of_toDate_eq_error hdate
    have hparties : ∀ a ∈ (Line.payment l).parties, Declared earlier a :=
      List.forall_mem_cons.mpr ⟨hsender, List.forall_mem_singleton.mpr hrecipient⟩
    exact .unreal hparties (.head hmisses.not_isReal) hmisses
  by_cases hlate : reference < date
  · simp only [if_pos hlate] at he
    cases he
  by_cases hself : sender = recipient
  · simp only [if_neg hlate, if_pos hself] at he
    cases he
  · -- Creating the payment does not fail.
    simp only [if_neg hlate, if_neg hself, create_payment_eq hself] at he
    cases he

/-- A draft that holds what the lines before a line ask for carries it out if it is admissible,
and fails as the line does otherwise. -/
theorem Consists.carryOut_cases (h : d.Consists options reference earlier) (line : Line) :
    (∃ d', d.carryOut options reference line = .ok d' ∧
      line.Admissible options reference earlier) ∨
    ∃ fault, d.carryOut options reference line = .error fault ∧
      line.FailsWith options reference earlier fault := by
  cases line with
  | blank =>
    exact .inl ⟨d, rfl, ⟨nofun, List.forall_mem_nil _, List.forall_mem_nil _, nofun⟩, nofun, nofun⟩
  | comment =>
    exact .inl ⟨d, rfl, ⟨nofun, List.forall_mem_nil _, List.forall_mem_nil _, nofun⟩, nofun, nofun⟩
  | account acronym name =>
    cases hadd : d.accounts.add acronym name with
    | error fault =>
      refine .inr ⟨fault, ?_, ?_⟩
      · rw [Draft.carryOut, hadd]
        rfl
      · rw [h.accounts_eq] at hadd
        obtain ⟨htaken, rfl⟩ := Registry.add_eq_error rfl hadd
        rw [Ne, find?_eq_none_iff_not_declared, Classical.not_not] at htaken
        exact .taken htaken
    | ok accounts =>
      have hnew := (Registry.add_eq_ok hadd).1
      rw [h.accounts_eq, find?_eq_none_iff_not_declared] at hnew
      refine .inl ⟨{ d with accounts := accounts }, ?_,
        ⟨?_, List.forall_mem_nil _, List.forall_mem_nil _, nofun⟩, nofun, nofun⟩
      · rw [Draft.carryOut, hadd]
        rfl
      · intro _ _ heq
        cases heq
        exact hnew
  | invoice l => exact h.addInvoice_cases l
  | payment l =>
    cases hl : d.addPayment reference l with
    | error fault => exact .inr ⟨fault, hl, h.failsWith_of_addPayment hl⟩
    | ok d' => exact .inl ⟨d', hl, h.admissible_of_addPayment hl⟩

/-! ## Many lines -/

theorem Consists.addLine_cases (h : d.Consists options reference earlier) (number : Nat)
    (text : List Char) :
    (∃ d', d.addLine options reference number text = .ok d' ∧
      d'.Consists options reference (earlier ++ [text]) ∧
      Acceptable options reference earlier text) ∨
    ∃ fault, d.addLine options reference number text = .error fault ∧
      LineFault options reference earlier number text fault := by
  unfold addLine
  cases hline : Line.ofText? text with
  | none =>
    refine .inr ⟨_, rfl, .malformed fun line hspells => ?_⟩
    exact Option.some_ne_none line ((Line.ofText?_eq_some_iff.mpr hspells).symm.trans hline)
  | some line =>
    have htext := Line.ofText?_eq_some_iff.mp hline
    rcases h.carryOut_cases line with ⟨d', hd', hadmissible⟩ | ⟨fault, he, hfails⟩
    · exact .inl ⟨d', mapError_eq_ok.mpr hd', h.carryOut hline hd', line, htext, hadmissible⟩
    · exact .inr ⟨_, mapError_eq_error.mpr ⟨fault, he, rfl⟩, .failing htext hfails⟩

/-- Reading lines goes on to their end if all are acceptable, and stops at the first that is
not otherwise. -/
theorem addLines_cases (options : Options) (reference : Date) (body : List (List Char)) :
    (∃ d, ({} : Draft).addLines options reference 2 body = (d, none) ∧
      d.Consists options reference body ∧ AllAcceptable options reference body) ∨
    ∃ d fault, ({} : Draft).addLines options reference 2 body = (d, some fault) ∧
      FirstFault options reference body fault := by
  induction body using List.reverseRecOn with
  | nil => exact .inl ⟨{}, rfl, .empty, allAcceptable_nil⟩
  | append_singleton body text ih =>
    rw [addLines_append]
    rcases ih with
      ⟨d, hd, hconsists, hbody⟩ | ⟨d, fault, hd, before, text', after, rfl, hbefore, hfault⟩
    · rw [hd, Nat.add_comm 2]
      dsimp only
      rw [addLines]
      rcases hconsists.addLine_cases (body.length + 2) text with
        ⟨d', hd', hconsists', hacceptable⟩ | ⟨fault, he, hfault⟩
      · rw [hd']
        exact .inl ⟨d', rfl, hconsists', allAcceptable_concat_iff.mpr ⟨hbody, hacceptable⟩⟩
      · rw [he]
        exact .inr ⟨d, fault, rfl, body, text, [], rfl, hbody, hfault⟩
    · rw [hd]
      exact .inr ⟨d, fault, rfl, before, text', after ++ [text], by simp, hbefore, hfault⟩

end Draft

/-- Lines that are all acceptable are read to their end. -/
theorem AllAcceptable.exists_consists {body : List (List Char)}
    (h : AllAcceptable options reference body) :
    ∃ d, ({} : Draft).addLines options reference 2 body = (d, none) ∧
      d.Consists options reference body := by
  obtain ⟨d, hlines, hd, -⟩ | ⟨-, fault, -, hfault⟩ := Draft.addLines_cases options reference body
  · exact ⟨d, hlines, hd⟩
  · exact absurd h hfault.not_allAcceptable

theorem AllAcceptable.distinct {body : List (List Char)}
    (h : AllAcceptable options reference body) : (accountsBehind body).Distinct := by
  obtain ⟨d, -, hd⟩ := h.exists_consists
  exact hd.accounts_eq ▸ hd.distinct

end HouseLedger
