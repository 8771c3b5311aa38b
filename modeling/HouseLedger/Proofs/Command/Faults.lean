import HouseLedger.Proofs.Command.StatementFiles
import HouseLedger.Proofs.Ledger.Acceptance
import HouseLedger.Proofs.Report.Faults

/-!
# Faults of plans

The plan for a ledger ends with a fault if it cannot do all that it is asked for.
`Invocation.Stops` says which fault that is and why, so that it can be told from what came of
reading the ledger alone (`Plan.fault_ofFile_eq_some_iff`): there are no bytes, the bytes are no
text or no ledger, a sum is too large, an account has no statement, or an amount or a path cannot
be put out.

Faults of the ledger's lines and unknown accounts are told to the user (`Fault.IsTold`), and so
are those of the file system. A computation that comes to too much is not told, neither in a line
nor in the balance.
-/

namespace HouseLedger

open Outcome Text

/-! ## Faults that are told -/

/-- A defect of a line, an account that is not declared, or a fault of the file system. An overflow
in a line is none of them (`Fault.isTold_or_eq_overflow_atLine`). -/
inductive Fault.IsTold : Fault → Prop
  | onLine (number : ℕ) (line : String) (cause : Fault) : IsTold (.onLine number line cause)
  | lineMalformed (number : ℕ) (line : String) : IsTold (.lineMalformed number line)
  | accountUnknown (acronym : String) : IsTold (.accountUnknown acronym)
  | file (cause : FileFault) (path : String) : IsTold (.file cause path)
  | reading (cause : FileFault) : IsTold (.reading cause)

theorem Fault.IsTold.isReported {fault : Fault} (h : fault.IsTold) :
    Command.isReported fault = true := by
  cases h with
  | onLine => rfl
  | lineMalformed => rfl
  | accountUnknown => rfl
  | file => rfl
  | reading => rfl

theorem Fault.isTold_or_eq_overflow_atLine (cause : Fault) (number : ℕ) (line : String) :
    (cause.atLine number line).IsTold ∨ cause.atLine number line = .overflow := by
  cases cause with
  | overflow => exact .inr rfl
  | _ => exact .inl (.onLine ..)

/-- A file that cannot be read is told. -/
theorem Tree.isTold_of_read {t : Tree} {path : String} {fault : Fault}
    (h : t.read path = .error fault) : fault.IsTold := by
  rcases eq_of_read_eq_error h with ⟨cause, rfl⟩ | ⟨cause, rfl⟩
  · exact .file ..
  · exact .reading ..

namespace Ledger

variable {options : Options} {bytes : ByteArray}

/-- A text that is no ledger has a defect in one of its lines, or an amount there is too large. -/
theorem isTold_or_eq_overflow_of_ofString {text : String} {fault : Fault}
    (h : ofString options text = .error fault) : fault.IsTold ∨ fault = .overflow := by
  obtain ⟨lines, hcut⟩ := exists_isCut text.toList
  obtain ⟨header, body, rfl⟩ := hcut.exists_cons
  rcases (ofString_eq_error_iff hcut).mp h with
    hheader | ⟨reference, -, before, line, after, -, -, hline⟩
  · cases hheader with
    | missing _ => exact .inl (.onLine ..)
    | unreal _ _ _ => exact .inl (.onLine ..)
  · cases hline with
    | malformed _ => exact .inl (.lineMalformed ..)
    | @failing _ cause _ _ => exact cause.isTold_or_eq_overflow_atLine _ _

theorem isTold_or_eq_overflow_of_ofFile {fault : Fault} (htext : String.fromUTF8? bytes ≠ none)
    (h : ofFile options bytes = .error fault) : fault.IsTold ∨ fault = .overflow := by
  obtain ⟨text, hread⟩ := exists_ofFile_eq htext options
  exact isTold_or_eq_overflow_of_ofString (hread.symm.trans h)

end Ledger

namespace Command

/-! ## Faults of a plan -/

section

variable {α : Type} {f : α → Except Fault (List Step)} {xs : List α} {fault : Fault}

/-- The fault that ends a list of parts is that of the first part that has one. -/
theorem fault_untilFault_map : (untilFault (xs.map f)).2 = some fault ↔
    ∃ x, FirstWithout (fun x => ∃ steps, f x = .ok steps) xs x ∧ f x = .error fault := by
  induction xs with
  | nil =>
    constructor
    · intro h
      cases h
    · rintro ⟨x, ⟨⟩, -⟩
  | cons x xs ih =>
    rw [List.map_cons]
    cases hx : f x with
    | error fault' =>
      constructor
      · intro h
        cases h
        exact ⟨x, .head (by simp [hx]), hx⟩
      · rintro ⟨y, hy, hfault⟩
        cases hy with
        | head _ => exact congrArg some (Except.error.inj (hx.symm.trans hfault))
        | tail hok _ => simp [hx] at hok
    | ok steps =>
      refine Iff.trans (b := (untilFault (xs.map f)).2 = some fault) Iff.rfl (ih.trans ?_)
      constructor
      · rintro ⟨y, hy, hfault⟩
        exact ⟨y, .tail ⟨steps, hx⟩ hy, hfault⟩
      · rintro ⟨y, hy, hfault⟩
        cases hy with
        | head hno => exact absurd ⟨steps, hx⟩ hno
        | tail _ hy => exact ⟨y, hy, hfault⟩

/-- Steps between parts have no fault. -/
theorem fault_untilFault_intersperse (steps : List Step)
    (parts : List (Except Fault (List Step))) :
    (untilFault (parts.intersperse (.ok steps))).2 = (untilFault parts).2 := by
  induction parts with
  | nil => rfl
  | cons part parts ih =>
    cases parts with
    | nil => rfl
    | cons next parts =>
      rw [List.intersperse_cons_cons]
      cases part with
      | error fault => rfl
      | ok more => exact ih

end

namespace Invocation

/-- The accounts whose statements are asked for. -/
def acronyms (i : Invocation) : List String :=
  match i.task with
  | .overview => []
  | .printStatements acronyms => acronyms
  | .writeStatements acronyms => acronyms

/-- Why a statement cannot be put out. A printed statement has no path. -/
inductive Defect (i : Invocation) (s : Statement) : Fault → Prop
  | tooLong : (∃ t ∈ s.transactions, t.amount.TooLong) → Defect i s .centsTooLong
  | noPath {acronyms : List String} : i.task = .writeStatements acronyms →
      (¬ ∃ t ∈ s.transactions, t.amount.TooLong) →
      Path.holdsNull (i.pathOf s).toString = true → Defect i s .nullInPath

/-- Why the task cannot be carried out on a ledger with its balance. No statement is put out
before all of them are made. -/
inductive Stalls (i : Invocation) (l : Ledger) (b : Balance) : Fault → Prop
  | overview : i.task = .overview →
      ((∃ t ∈ l.invoices ++ l.payments, t.amount.TooLong) ∨
        ∃ e ∈ b.entries, e.balance.TooLong) → Stalls i l b .centsTooLong
  | unknown {a : String} :
      FirstWithout (fun a => ∃ s, Statement.ofAcronym l b a = .ok s) i.acronyms a →
      l.accounts.contains a = false → Stalls i l b (.accountUnknown a)
  | entry {k : ℕ} {account : Account} :
      FirstWithout (fun a => ∃ s, Statement.ofAcronym l b a = .ok s) i.acronyms account.acronym →
      l.accounts.accounts[k]? = some account → (∃ e ∈ b.entriesFor k, e.balance.TooLong) →
      Stalls i l b .centsTooLong
  | statement {statements : List Statement} {s : Statement} {fault : Fault} :
      i.acronyms.mapM (Statement.ofAcronym l b) = .ok statements →
      FirstWithout (fun s => ∀ fault, ¬ i.Defect s fault) statements s → i.Defect s fault →
      Stalls i l b fault

/-- Why a run cannot do all that it is asked for, given what came of reading the ledger. -/
inductive Stops (i : Invocation) : Except Fault ByteArray → Fault → Prop
  | unread {fault : Fault} : Stops i (.error fault) fault
  | notText {bytes : ByteArray} : String.fromUTF8? bytes = none → Stops i (.ok bytes) .notText
  | noLedger {bytes : ByteArray} {fault : Fault} : String.fromUTF8? bytes ≠ none →
      Ledger.ofFile i.options bytes = .error fault → Stops i (.ok bytes) fault
  | noBalance {bytes : ByteArray} {l : Ledger} : Ledger.ofFile i.options bytes = .ok l →
      ¬ Balance.Nettable [] (l.invoices ++ l.payments) → Stops i (.ok bytes) .overflow
  | ledger {bytes : ByteArray} {l : Ledger} {b : Balance} {fault : Fault} :
      Ledger.ofFile i.options bytes = .ok l → l.balance = .ok b → i.Stalls l b fault →
      Stops i (.ok bytes) fault

variable {i : Invocation} {l : Ledger} {b : Balance} {fault : Fault}

/-- The faults of the statements are their defects, if those of each of them are. -/
theorem fault_untilFault_iff_defect {f : Statement → Except Fault (List Step)}
    {statements : List Statement}
    (hf : ∀ s ∈ statements, ∀ fault, f s = .error fault ↔ i.Defect s fault) :
    (untilFault (statements.map f)).2 = some fault ↔
      ∃ s, FirstWithout (fun s => ∀ fault, ¬ i.Defect s fault) statements s ∧
        i.Defect s fault := by
  have hok : ∀ s ∈ statements, (∃ steps, f s = .ok steps) ↔ ∀ fault, ¬ i.Defect s fault := by
    intro s hs
    rw [exists_ok_iff]
    exact forall_congr' fun fault => not_congr (hf s hs fault)
  rw [fault_untilFault_map]
  constructor
  · rintro ⟨s, hfirst, hfault⟩
    exact ⟨s, hfirst.congr hok, (hf s hfirst.mem.1 fault).mp hfault⟩
  · rintro ⟨s, hfirst, hfault⟩
    exact ⟨s, hfirst.congr fun y hy => (hok y hy).symm, (hf s hfirst.mem.1 fault).mpr hfault⟩

variable {acronyms : List String} {acronym : String} {s : Statement}

theorem printPart_eq_error_iff (hl : l.WellFormed) (hb : l.balance = .ok b)
    (htask : i.task = .printStatements acronyms) (hs : Statement.ofAcronym l b acronym = .ok s) :
    ((Report.statement s l.accounts i.currency).map fun text => [Step.print text]) = .error fault ↔
      i.Defect s fault := by
  have hreport := hl.statement_failsIff hb hs i.currency
  rw [map_eq_error, hreport.eq_error_iff]
  constructor
  · rintro ⟨hlong, rfl⟩
    exact .tooLong hlong
  · intro h
    cases h with
    | tooLong hlong => exact ⟨hlong, rfl⟩
    | noPath hwrite => exact nomatch htask.symm.trans hwrite

theorem writePart_eq_error_iff (hl : l.WellFormed) (hb : l.balance = .ok b)
    (htask : i.task = .writeStatements acronyms) (hs : Statement.ofAcronym l b acronym = .ok s) :
    Plan.writePart l i.currency i.directory s = .error fault ↔ i.Defect s fault := by
  have hreport := hl.statement_failsIff hb hs i.currency
  unfold Plan.writePart
  dsimp only
  constructor
  · intro h
    rcases bind_eq_error.mp h with h | ⟨text, htext, h⟩
    · obtain ⟨hlong, rfl⟩ := hreport.eq_error_iff.mp h
      exact .tooLong hlong
    · split at h
      · next hnull =>
        cases h
        exact .noPath htask (hreport.exists_iff.mp ⟨text, htext⟩) hnull
      · cases h
  · intro h
    cases h with
    | tooLong hlong => exact bind_eq_error.mpr (.inl (hreport.eq_error_iff.mpr ⟨hlong, rfl⟩))
    | noPath _ hshort hnull =>
      obtain ⟨text, htext⟩ := hreport.exists_iff.mpr hshort
      rw [pathOf] at hnull
      rw [htext, bind_ok, if_pos hnull]
      rfl

theorem stalls_iff_of_overview (htask : i.task = .overview) :
    i.Stalls l b fault ↔
      ((∃ t ∈ l.invoices ++ l.payments, t.amount.TooLong) ∨ ∃ e ∈ b.entries, e.balance.TooLong) ∧
        fault = .centsTooLong := by
  -- No account is asked for, so there is none to stall at.
  have hnone : i.acronyms = [] := by rw [Invocation.acronyms, htask]
  constructor
  · intro h
    cases h with
    | overview _ hlong => exact ⟨hlong, rfl⟩
    | unknown hfirst _ =>
      rw [hnone] at hfirst
      cases hfirst
    | entry hfirst _ _ =>
      rw [hnone] at hfirst
      cases hfirst
    | statement hall hfirst _ =>
      rw [hnone] at hall
      cases hall
      cases hfirst
  · rintro ⟨hlong, rfl⟩
    exact .overview htask hlong

/-- The task of statements stalls at an account without a statement, or else at a statement that
cannot be put out. -/
theorem stalls_iff_of_statements (hl : l.accounts.Distinct) (htask : i.task ≠ .overview) :
    i.Stalls l b fault ↔ i.acronyms.mapM (Statement.ofAcronym l b) = .error fault ∨
      ∃ statements, i.acronyms.mapM (Statement.ofAcronym l b) = .ok statements ∧
        ∃ s, FirstWithout (fun s => ∀ fault, ¬ i.Defect s fault) statements s ∧
          i.Defect s fault := by
  rw [mapM_eq_error_iff]
  constructor
  · intro h
    cases h with
    | overview hoverview _ => exact absurd hoverview htask
    | unknown hfirst hunknown =>
      exact .inl ⟨_, hfirst, (Statement.ofAcronym_eq_error_iff hl).mpr (.inl ⟨hunknown, rfl⟩)⟩
    | entry hfirst haccount hlong =>
      exact .inl ⟨_, hfirst,
        (Statement.ofAcronym_eq_error_iff hl).mpr (.inr ⟨_, _, haccount, rfl, hlong, rfl⟩)⟩
    | statement hall hfirst hdefect => exact .inr ⟨_, hall, _, hfirst, hdefect⟩
  · rintro (⟨a, hfirst, hfault⟩ | ⟨statements, hall, s, hfirst, hdefect⟩)
    · rcases (Statement.ofAcronym_eq_error_iff hl).mp hfault with
        ⟨hunknown, rfl⟩ | ⟨k, account, haccount, rfl, hlong, rfl⟩
      · exact .unknown hfirst hunknown
      · exact .entry hfirst haccount hlong
    · exact .statement hall hfirst hdefect

/-- Once all statements are made, the plan has the fault of the first that cannot be put out. -/
theorem fault_ofParts_iff_stalls (hl : l.accounts.Distinct) (htask : i.task ≠ .overview)
    {statements : List Statement}
    (hall : i.acronyms.mapM (Statement.ofAcronym l b) = .ok statements)
    {f : Statement → Except Fault (List Step)}
    (hf : ∀ a s, Statement.ofAcronym l b a = .ok s → ∀ fault, f s = .error fault ↔ i.Defect s fault)
    {parts : List (Except Fault (List Step))}
    (hparts : (untilFault parts).2 = (untilFault (statements.map f)).2) (events : List Event) :
    (Plan.ofParts events parts).fault = some fault ↔ i.Stalls l b fault := by
  have hdefects : ∀ s ∈ statements, ∀ fault, f s = .error fault ↔ i.Defect s fault := by
    intro s hs
    obtain ⟨a, -, ha⟩ := mapM_eq_ok hall s hs
    exact hf a s ha
  have hfault : (Plan.ofParts events parts).fault = (untilFault parts).2 := rfl
  rw [hfault, hparts, fault_untilFault_iff_defect hdefects, stalls_iff_of_statements hl htask, hall]
  simp

theorem fault_ofTask_of_overview (hl : l.WellFormed) (hb : l.balance = .ok b)
    (htask : i.task = .overview) (events : List Event) :
    (Plan.ofTask i l b events).fault = some fault ↔ i.Stalls l b fault := by
  have hfault : (Plan.ofTask i l b events).fault = some fault ↔
      Report.overview l b i.currency = .error fault := by
    rw [← map_eq_error (f := fun text => [Step.print text]), Plan.ofTask, htask]
    dsimp only [Plan.ofParts, Plan.overviewParts]
    cases (Report.overview l b i.currency).map fun text => [Step.print text] with
    | error e => simp [untilFault]
    | ok steps => simp [untilFault]
  rw [hfault, stalls_iff_of_overview htask,
    (hl.overview_failsIff hb i.currency).eq_error_iff]

theorem acronyms_of_printStatements (htask : i.task = .printStatements acronyms) :
    i.acronyms = acronyms := by
  rw [Invocation.acronyms, htask]

theorem acronyms_of_writeStatements (htask : i.task = .writeStatements acronyms) :
    i.acronyms = acronyms := by
  rw [Invocation.acronyms, htask]

/-- No step is planned before all statements are made. -/
theorem ofTask_of_error {events : List Event}
    (h : i.acronyms.mapM (Statement.ofAcronym l b) = .error fault) :
    (Plan.ofTask i l b events).steps = [] ∧ (Plan.ofTask i l b events).fault = some fault := by
  cases htask : i.task with
  | overview =>
    rw [Invocation.acronyms, htask] at h
    cases h
  | printStatements acronyms =>
    rw [acronyms_of_printStatements htask] at h
    rw [Plan.ofTask, htask]
    dsimp only
    rw [h]
    exact ⟨rfl, rfl⟩
  | writeStatements acronyms =>
    rw [acronyms_of_writeStatements htask] at h
    rw [Plan.ofTask, htask]
    dsimp only
    rw [h]
    exact ⟨rfl, rfl⟩

/-- The plan of a task has the fault that the task stalls with. -/
theorem fault_ofTask_eq_some_iff (hl : l.WellFormed) (hb : l.balance = .ok b)
    (events : List Event) : (Plan.ofTask i l b events).fault = some fault ↔ i.Stalls l b fault := by
  by_cases hoverview : i.task = .overview
  · exact fault_ofTask_of_overview hl hb hoverview events
  · cases hall : i.acronyms.mapM (Statement.ofAcronym l b) with
    | error fault' =>
      rw [(ofTask_of_error hall).2, stalls_iff_of_statements hl.distinct hoverview, hall]
      simp
    | ok statements =>
      cases htask : i.task with
      | overview => exact absurd htask hoverview
      | printStatements acronyms =>
        have hmade := acronyms_of_printStatements htask ▸ hall
        rw [Plan.ofTask, htask]
        dsimp only
        rw [hmade]
        exact fault_ofParts_iff_stalls hl.distinct hoverview hall
          (fun a s hs fault => printPart_eq_error_iff hl hb htask hs)
          (fault_untilFault_intersperse _ _) events
      | writeStatements acronyms =>
        have hmade := acronyms_of_writeStatements htask ▸ hall
        rw [Plan.ofTask, htask]
        dsimp only
        rw [hmade]
        -- The directory comes before the statements, and making it is a step without a fault.
        exact fault_ofParts_iff_stalls hl.distinct hoverview hall
          (fun a s hs fault => writePart_eq_error_iff hl hb htask hs) rfl events

theorem stops_iff_of_error {bytes : ByteArray} {fault' : Fault}
    (hl : Ledger.ofFile i.options bytes = .error fault') :
    i.Stops (.ok bytes) fault ↔ fault' = fault := by
  constructor
  · intro h
    cases h with
    | notText htext => exact Except.error.inj (hl.symm.trans (Ledger.ofFile_of_notText htext _))
    | noLedger _ hfault => exact Except.error.inj (hl.symm.trans hfault)
    | noBalance hread _ => exact nomatch hl.symm.trans hread
    | ledger hread _ _ => exact nomatch hl.symm.trans hread
  · rintro rfl
    by_cases htext : String.fromUTF8? bytes = none
    · obtain rfl := Except.error.inj (hl.symm.trans (Ledger.ofFile_of_notText htext _))
      exact .notText htext
    · exact .noLedger htext hl

theorem stops_iff_of_ok {bytes : ByteArray} (hl : Ledger.ofFile i.options bytes = .ok l) :
    i.Stops (.ok bytes) fault ↔
      ¬ Balance.Nettable [] (l.invoices ++ l.payments) ∧ fault = .overflow ∨
        ∃ b, l.balance = .ok b ∧ i.Stalls l b fault := by
  constructor
  · intro h
    cases h with
    | notText htext => exact nomatch hl.symm.trans (Ledger.ofFile_of_notText htext _)
    | noLedger _ hfault => exact nomatch hl.symm.trans hfault
    | noBalance hread hlarge =>
      obtain rfl := ok_unique hl hread
      exact .inl ⟨hlarge, rfl⟩
    | ledger hread hbalance h =>
      obtain rfl := ok_unique hl hread
      exact .inr ⟨_, hbalance, h⟩
  · rintro (⟨hlarge, rfl⟩ | ⟨b, hb, h⟩)
    · exact .noBalance hl hlarge
    · exact .ledger hl hb h

end Invocation

/-- The plan for bytes has the fault that stops the run. -/
theorem Plan.fault_ofBytes_eq_some_iff {i : Invocation} {bytes : ByteArray} {fault : Fault} :
    (ofBytes i bytes).fault = some fault ↔ i.Stops (.ok bytes) fault := by
  cases hl : Ledger.ofFile i.options bytes with
  | error fault' => rw [(ofBytes_of_error hl).2, Option.some_inj, i.stops_iff_of_error hl]
  | ok l =>
    have hwf := Ledger.wellFormed_of_ofFile hl
    rw [i.stops_iff_of_ok hl]
    cases hb : l.balance with
    | error fault' =>
      obtain ⟨hlarge, rfl⟩ := hwf.failsIff_balance.eq_error_iff.mp hb
      rw [(ofBytes_of_noBalance hl hb).2, Option.some_inj]
      simp [hlarge, eq_comm]
    | ok b =>
      have hnettable := not_not.mp (hwf.failsIff_balance.exists_iff.mp ⟨b, hb⟩)
      obtain ⟨events, hplan⟩ := ofBytes_of_ok hl hb
      rw [hplan, Invocation.fault_ofTask_eq_some_iff hwf hb]
      simp [hnettable]

theorem Plan.fault_ofFile_eq_some_iff {i : Invocation} {found : Except Fault ByteArray}
    {fault : Fault} : (ofFile i found).fault = some fault ↔ i.Stops found fault := by
  cases found with
  | error fault' =>
    rw [ofFile, Option.some_inj]
    constructor
    · rintro rfl
      exact .unread
    · intro h
      cases h
      rfl
  | ok bytes => exact fault_ofBytes_eq_some_iff

/-- Of the faults that stop a run the user is told all but those that break it off. -/
theorem Invocation.Stops.isTold {t : Tree} {i : Invocation} {fault : Fault}
    (h : i.Stops (t.read i.ledger) fault) (hreported : isReported fault = true) :
    fault.IsTold := by
  generalize hfound : t.read i.ledger = found at h
  cases h with
  | unread => exact Tree.isTold_of_read hfound
  | notText _ => cases hreported
  | noLedger htext hfault =>
    refine (Ledger.isTold_or_eq_overflow_of_ofFile htext hfault).resolve_right ?_
    rintro rfl
    cases hreported
  | noBalance _ _ => cases hreported
  | ledger _ _ h =>
    cases h with
    | overview _ _ => cases hreported
    | unknown _ _ => exact .accountUnknown ..
    | entry _ _ _ => cases hreported
    | statement _ _ h =>
      cases h with
      | tooLong _ => cases hreported
      | noPath _ _ _ => cases hreported

end Command

end HouseLedger
