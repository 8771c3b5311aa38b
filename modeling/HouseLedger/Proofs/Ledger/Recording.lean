import HouseLedger.Ledger.Reading
import HouseLedger.Proofs.Decimal.Range
import HouseLedger.Proofs.Transaction

/-!
# Recording invoices

A transfer of an amount that is not below zero is a valid transaction between two accounts, and so
is the sum of two alike invoices, which is turned round if it is below zero
(`Draft.valid_mergeInvoices`). All that can keep the invoices of a line from being entered into a
draft is that a sum of alike ones is too large (`Draft.Enterable`); otherwise to enter them is to
record them unchecked (`Draft.enterOccurrences_cases`).

Invoices that are not alike have nothing to do with each other: where alike ones are kept or left
out together, some of the invoices are recorded as if the others were not there
(`Draft.filter_foldl_recorded`).
-/

namespace HouseLedger

open Outcome
open Decimal (InRange)

/-- The invoice that a transfer is on a day, unless it goes from an account to itself. -/
def Transfer.invoice? (note : String) (date : Date) (t : Transfer) : Option Transaction :=
  if t.sender = t.recipient then none
  else some ⟨t.sender, t.recipient, t.amount, date, note, .invoice⟩

namespace Draft

/-! ## Bills -/

/-- The transfers of a bill that is shared out among its senders. -/
def sharedOut (senders : List Nat) (recipient : Nat) (chain : List Nat) (total : Decimal) :
    List Transfer :=
  transfers senders recipient chain (total.share senders.length) total

/-- The invoices of transfers for one day. -/
def invoicesOn (note : String) (ts : List Transfer) (date : Date) : List Transaction :=
  ts.filterMap (Transfer.invoice? note date)

/-! ## Recording unchecked -/

/-- Records an invoice as `enterInvoice` does, but for the check. -/
def recordInvoice (merging : Bool) (d : Draft) (t : Transaction) : Draft :=
  match if merging then d.invoices.find? t.isAlike else none with
  | none => { d with invoices := t :: d.invoices }
  | some old =>
    { d with invoices := mergeInvoices old t :: d.invoices.eraseP t.isAlike }.log
      (.merged t.note t.date (mergedTotal old t))

/-- Records a transfer as an invoice, unless it would be from an account to itself. -/
def addTransfer (merging : Bool) (date : Date) (note : String) (d : Draft) (t : Transfer) :
    Draft :=
  if t.sender = t.recipient then d.log (.dropped .invoice t.sender date)
  else recordInvoice merging d ⟨t.sender, t.recipient, t.amount, date, note, .invoice⟩

/-- Records all transfers of an invoice for one day. -/
def addOccurrence (merging : Bool) (note : String) (transfers : List Transfer) (d : Draft)
    (date : Date) : Draft :=
  transfers.foldl (addTransfer merging date note) d

/-- The invoices, last first, after one more is recorded. -/
def recorded (merging : Bool) (ts : List Transaction) (t : Transaction) : List Transaction :=
  match if merging then ts.find? t.isAlike else none with
  | none => t :: ts
  | some old => mergeInvoices old t :: ts.eraseP t.isAlike

/-- Without merging an invoice is put in front of those that are there. -/
theorem foldl_recorded_false (ts us : List Transaction) :
    us.foldl (recorded false) ts = us.reverse ++ ts := by
  induction us generalizing ts with
  | nil => rfl
  | cons u us ih =>
    rw [List.foldl_cons, ih, List.reverse_cons, List.append_assoc]
    rfl

/-- Recording an invoice changes the invoices, and nothing else but the events. -/
theorem recordInvoice_eq (merging : Bool) (d : Draft) (t : Transaction) :
    ∃ events, recordInvoice merging d t =
      ⟨d.accounts, recorded merging d.invoices t, d.payments, events⟩ := by
  unfold recordInvoice recorded
  cases (if merging then d.invoices.find? t.isAlike else none) with
  | none => exact ⟨_, rfl⟩
  | some old => exact ⟨_, rfl⟩

/-- What two alike invoices come to is their sum or their difference. -/
theorem mergedTotal_cases (old new : Transaction) :
    mergedTotal old new = new.amount + old.amount ∨
      mergedTotal old new = new.amount - old.amount := by
  unfold mergedTotal
  split
  · exact .inl rfl
  · exact .inr rfl

/-- A merged invoice is the new one with the total for its amount, turned round if the
total is below zero. -/
theorem mergeInvoices_cases (old new : Transaction) :
    ((mergedTotal old new).isBelowZero = false ∧
        mergeInvoices old new = { new with amount := mergedTotal old new }) ∨
      (mergedTotal old new).isBelowZero = true ∧ mergeInvoices old new =
        { new with sender := new.recipient, recipient := new.sender,
                   amount := -mergedTotal old new } := by
  unfold mergeInvoices
  cases hbelow : (mergedTotal old new).isBelowZero with
  | false => exact .inl ⟨rfl, by simp [hbelow]⟩
  | true => exact .inr ⟨rfl, by simp [hbelow]⟩

/-- A merged invoice is alike to the new one. -/
theorem isAlike_mergeInvoices (old new : Transaction) :
    new.isAlike (mergeInvoices old new) = true := by
  obtain ⟨-, heq⟩ | ⟨-, heq⟩ := mergeInvoices_cases old new
  · rw [heq]
    simp [Transaction.isAlike]
  · rw [heq]
    simp [Transaction.isAlike]

theorem date_eq_of_isAlike {a b : Transaction} (h : a.isAlike b = true) : b.date = a.date := by
  simp only [Transaction.isAlike, Bool.and_eq_true, beq_iff_eq] at h
  exact h.1.1.symm

/-! ## Recording a part of the invoices -/

section

variable {p : Transaction → Bool} (hp : ∀ a b : Transaction, a.isAlike b = true → p b = p a)

include hp

/-- Invoices that are alike to one that is kept are kept themselves. -/
theorem and_isAlike_eq {t : Transaction} (ht : p t = true) :
    (fun a : Transaction => p a && t.isAlike a) = t.isAlike := by
  funext a
  cases h : t.isAlike a with
  | false => rw [Bool.and_false]
  | true => rw [hp t a h, ht, Bool.and_true]

theorem find?_filter_of_pos {t : Transaction} (ht : p t = true) (ts : List Transaction) :
    (ts.filter p).find? t.isAlike = ts.find? t.isAlike := by
  rw [List.find?_filter]
  simpa using congrArg ts.find? (and_isAlike_eq hp ht)

/-- Where alike invoices are kept or left out together, recording an invoice that is kept and
leaving out the others may change places. -/
theorem filter_recorded_of_pos {t : Transaction} (ht : p t = true) (merging : Bool)
    (ts : List Transaction) :
    (recorded merging ts t).filter p = recorded merging (ts.filter p) t := by
  have herase : (ts.filter p).eraseP t.isAlike = (ts.eraseP t.isAlike).filter p := by
    rw [List.eraseP_filter]
    simp only [Bool.and_comm (t.isAlike _), and_isAlike_eq hp ht]
  unfold recorded
  rw [find?_filter_of_pos hp ht, herase]
  cases (if merging then ts.find? t.isAlike else none) with
  | none => rw [List.filter_cons_of_pos ht]
  | some old =>
    dsimp only
    rw [List.filter_cons_of_pos ((hp _ _ (isAlike_mergeInvoices old t)).trans ht)]

/-- Recording an invoice that is left out changes nothing. -/
theorem filter_recorded_of_neg {t : Transaction} (ht : p t = false) (merging : Bool)
    (ts : List Transaction) : (recorded merging ts t).filter p = ts.filter p := by
  have herase : (ts.eraseP t.isAlike).filter p = ts.filter p := by
    induction ts with
    | nil => rfl
    | cons a ts ih =>
      by_cases halike : t.isAlike a = true
      · rw [List.eraseP_cons_of_pos halike, List.filter_cons_of_neg]
        rw [hp t a halike, ht]
        exact Bool.false_ne_true
      · rw [List.eraseP_cons_of_neg halike, List.filter_cons, List.filter_cons, ih]
  unfold recorded
  cases (if merging then ts.find? t.isAlike else none) with
  | none => rw [List.filter_cons_of_neg (by simp [ht])]
  | some old =>
    dsimp only
    rw [List.filter_cons_of_neg (by simp [hp _ _ (isAlike_mergeInvoices old t), ht]), herase]

theorem filter_foldl_recorded (merging : Bool) (ts us : List Transaction) :
    (us.foldl (recorded merging) ts).filter p =
      (us.filter p).foldl (recorded merging) (ts.filter p) := by
  induction us generalizing ts with
  | nil => rfl
  | cons u us ih =>
    rw [List.foldl_cons, ih]
    cases hu : p u with
    | true =>
      rw [filter_recorded_of_pos hp hu, List.filter_cons_of_pos hu, List.foldl_cons]
    | false =>
      rw [filter_recorded_of_neg hp hu, List.filter_cons_of_neg (by simp [hu])]

end

/-! ## Accounts -/

theorem recordInvoice_accounts (merging : Bool) (d : Draft) (t : Transaction) :
    (recordInvoice merging d t).accounts = d.accounts := by
  obtain ⟨events, heq⟩ := recordInvoice_eq merging d t
  rw [heq]

theorem addTransfer_accounts (merging : Bool) (date : Date) (note : String) (d : Draft)
    (t : Transfer) : (addTransfer merging date note d t).accounts = d.accounts := by
  unfold addTransfer
  split
  · rfl
  · exact recordInvoice_accounts ..

/-- Steps that leave the accounts alone do so in a row. -/
theorem foldl_accounts {α : Type} {f : Draft → α → Draft}
    (h : ∀ d x, (f d x).accounts = d.accounts) (xs : List α) (d : Draft) :
    (xs.foldl f d).accounts = d.accounts := by
  induction xs generalizing d with
  | nil => rfl
  | cons x xs ih => rw [List.foldl_cons, ih, h]

theorem addOccurrences_accounts (merging : Bool) (note : String) (ts : List Transfer)
    (dates : List Date) (d : Draft) :
    (dates.foldl (addOccurrence merging note ts) d).accounts = d.accounts :=
  foldl_accounts
    (fun d date => foldl_accounts (addTransfer_accounts merging date note) ts d) dates d

/-! ## Checks -/

/-- Two invoices merged are a valid transaction, in whichever direction. -/
theorem valid_mergeInvoices (old : Transaction) {t : Transaction} (h : t.sender ≠ t.recipient) :
    (mergeInvoices old t).Valid := by
  obtain ⟨hbelow, heq⟩ | ⟨hbelow, heq⟩ := mergeInvoices_cases old t
  · rw [heq]
    exact ⟨h, (Decimal.isBelowZero_eq_false_iff _).mp hbelow⟩
  · -- Turned round, it has the opposite of the total for its amount.
    rw [heq]
    exact ⟨h.symm, Decimal.toRat_neg_nonneg hbelow⟩

/-- Whether an invoice can be entered: what it comes to with an alike one is not too large. -/
def Mergeable (merging : Bool) (ts : List Transaction) (t : Transaction) : Prop :=
  ∀ old, (if merging then ts.find? t.isAlike else none) = some old →
    InRange (mergedTotal old t).toRat

/-- Whether invoices can be entered one after the other, behind others. -/
def Enterable (merging : Bool) (ts : List Transaction) : List Transaction → Prop
  | [] => True
  | u :: us => Mergeable merging ts u ∧ Enterable merging (recorded merging ts u) us

theorem enterable_append {merging : Bool} {ts us vs : List Transaction} :
    Enterable merging ts (us ++ vs) ↔
      Enterable merging ts us ∧ Enterable merging (us.foldl (recorded merging) ts) vs := by
  induction us generalizing ts with
  | nil => exact (and_iff_right trivial).symm
  | cons u us ih => rw [List.cons_append, Enterable, Enterable, ih, and_assoc, List.foldl_cons]

/-- Without merging nothing is summed up. -/
theorem enterable_false (ts us : List Transaction) : Enterable false ts us := by
  induction us generalizing ts with
  | nil => trivial
  | cons u us ih => exact ⟨nofun, ih _⟩

/-- Entering an invoice is recording it, unless a sum is too large. -/
theorem enterInvoice_cases (merging : Bool) (d : Draft) {t : Transaction} (h : t.Valid) :
    (Mergeable merging d.invoices t ∧ enterInvoice merging d t = .ok (recordInvoice merging d t)) ∨
      (¬ Mergeable merging d.invoices t ∧ enterInvoice merging d t = .error .overflow) := by
  unfold enterInvoice recordInvoice Mergeable
  cases (if merging then d.invoices.find? t.isAlike else none) with
  | none =>
    refine .inl ⟨nofun, ?_⟩
    dsimp only
    rw [Transaction.check_of_valid h]
    rfl
  | some old =>
    by_cases hrange : InRange (mergedTotal old t).toRat
    · refine .inl ⟨fun old' hold => Option.some.inj hold ▸ hrange, ?_⟩
      dsimp only
      rw [Decimal.checked_of_inRange hrange, bind_ok,
        Transaction.check_of_valid (valid_mergeInvoices old h.parties_ne)]
      rfl
    · refine .inr ⟨fun hall => hrange (hall old rfl), ?_⟩
      dsimp only
      rw [((Decimal.failsIff_checked _).eq_error_iff).mpr ⟨hrange, rfl⟩]
      rfl

section

variable {p : Transaction → Bool} (hp : ∀ a b : Transaction, a.isAlike b = true → p b = p a)

include hp

/-- Whether an invoice that is kept can be entered does not depend on those that are left out. -/
theorem mergeable_filter_iff {t : Transaction} (ht : p t = true) {merging : Bool}
    {ts : List Transaction} : Mergeable merging (ts.filter p) t ↔ Mergeable merging ts t := by
  rw [Mergeable, Mergeable, find?_filter_of_pos hp ht]

/-- Where alike invoices are kept or left out together, invoices can be entered if those that
are kept can be, and so can the others. -/
theorem enterable_filter_iff {merging : Bool} {ts us : List Transaction} :
    Enterable merging ts us ↔ Enterable merging (ts.filter p) (us.filter p) ∧
      Enterable merging (ts.filter (!p ·)) (us.filter (!p ·)) := by
  have hnot : ∀ a b : Transaction, a.isAlike b = true → (!p b) = !p a :=
    fun a b h => congrArg not (hp a b h)
  induction us generalizing ts with
  | nil => exact (and_iff_left trivial).symm
  | cons u us ih =>
    refine (and_congr_right fun _ => ih).trans ?_
    cases hu : p u with
    | true =>
      rw [filter_recorded_of_pos hp hu, filter_recorded_of_neg hnot (by simp [hu]),
        List.filter_cons_of_pos hu, List.filter_cons_of_neg (by simp [hu]), Enterable,
        mergeable_filter_iff hp hu, and_assoc]
    | false =>
      rw [filter_recorded_of_neg hp hu, filter_recorded_of_pos hnot (by simp [hu]),
        List.filter_cons_of_neg (by simp [hu]), List.filter_cons_of_pos (by simp [hu]), Enterable,
        mergeable_filter_iff hnot (by simp [hu]), and_left_comm]

end

section

variable {merging : Bool} {date : Date} {note : String}

theorem invoices_recordInvoice (d : Draft) (t : Transaction) :
    (recordInvoice merging d t).invoices = recorded merging d.invoices t := by
  obtain ⟨events, heq⟩ := recordInvoice_eq merging d t
  rw [heq]

theorem invoices_addTransfer (d : Draft) (t : Transfer) :
    (addTransfer merging date note d t).invoices =
      (t.invoice? note date).toList.foldl (recorded merging) d.invoices := by
  unfold addTransfer Transfer.invoice?
  split
  · rfl
  · exact invoices_recordInvoice d _

theorem enterTransfer_cases (d : Draft) {t : Transfer} (h : 0 ≤ t.amount.toRat) :
    (Enterable merging d.invoices (t.invoice? note date).toList ∧
        enterTransfer merging date note d t = .ok (addTransfer merging date note d t)) ∨
      (¬ Enterable merging d.invoices (t.invoice? note date).toList ∧
        enterTransfer merging date note d t = .error .overflow) := by
  unfold enterTransfer addTransfer Transfer.invoice?
  by_cases hself : t.sender = t.recipient
  · rw [if_pos hself, if_pos hself, if_pos hself]
    exact .inl ⟨trivial, rfl⟩
  · rw [if_neg hself, if_neg hself, if_neg hself, Option.toList_some, Enterable, Enterable,
      and_true]
    exact enterInvoice_cases merging d ⟨fun heq => hself (Int.ofNat_inj.mp heq), h⟩

/-- Steps in a row, each of which enters some invoices, enter the invoices of all of them. -/
theorem foldlM_enter_cases {α : Type} {f : Draft → α → Except Fault Draft} {g : Draft → α → Draft}
    {bills : α → List Transaction} {xs : List α}
    (hg : ∀ d, ∀ x ∈ xs, (g d x).invoices = (bills x).foldl (recorded merging) d.invoices)
    (hf : ∀ d, ∀ x ∈ xs, (Enterable merging d.invoices (bills x) ∧ f d x = .ok (g d x)) ∨
      (¬ Enterable merging d.invoices (bills x) ∧ f d x = .error .overflow)) (d : Draft) :
    (xs.foldl g d).invoices = (xs.flatMap bills).foldl (recorded merging) d.invoices ∧
      ((Enterable merging d.invoices (xs.flatMap bills) ∧ xs.foldlM f d = .ok (xs.foldl g d)) ∨
        (¬ Enterable merging d.invoices (xs.flatMap bills) ∧
          xs.foldlM f d = .error .overflow)) := by
  induction xs generalizing d with
  | nil => exact ⟨rfl, .inl ⟨trivial, rfl⟩⟩
  | cons x xs ih =>
    obtain ⟨hgx, hgxs⟩ : (∀ d, (g d x).invoices = (bills x).foldl (recorded merging) d.invoices) ∧
        ∀ d, ∀ y ∈ xs, (g d y).invoices = (bills y).foldl (recorded merging) d.invoices :=
      ⟨fun d => hg d x List.mem_cons_self, fun d y hy => hg d y (List.mem_cons_of_mem x hy)⟩
    obtain ⟨hinvoices, hrest⟩ := ih hgxs (fun d y hy => hf d y (List.mem_cons_of_mem x hy)) (g d x)
    rw [hgx] at hinvoices hrest
    rw [List.foldl_cons, List.foldlM_cons, List.flatMap_cons, List.foldl_append, enterable_append]
    refine ⟨hinvoices, ?_⟩
    rcases hf d x List.mem_cons_self with ⟨hx, heq⟩ | ⟨hx, heq⟩
    · rw [heq, bind_ok, and_iff_right hx]
      exact hrest
    · rw [heq]
      exact .inr ⟨fun hboth => hx hboth.1, rfl⟩

variable (merging date note) in
theorem enterOccurrence_cases {ts : List Transfer} (h : ∀ t ∈ ts, 0 ≤ t.amount.toRat)
    (d : Draft) :
    (addOccurrence merging note ts d date).invoices =
        (invoicesOn note ts date).foldl (recorded merging) d.invoices ∧
      ((Enterable merging d.invoices (invoicesOn note ts date) ∧
          enterOccurrence merging note ts d date = .ok (addOccurrence merging note ts d date)) ∨
        (¬ Enterable merging d.invoices (invoicesOn note ts date) ∧
          enterOccurrence merging note ts d date = .error .overflow)) := by
  rw [invoicesOn, List.filterMap_eq_flatMap_toList]
  exact foldlM_enter_cases (fun d t _ => invoices_addTransfer d t)
    (fun d t ht => enterTransfer_cases d (h t ht)) d

variable (merging note) in
/-- Entering the invoices of a bill for all its dates is recording them, unless a sum is too
large. -/
theorem enterOccurrences_cases {ts : List Transfer} (h : ∀ t ∈ ts, 0 ≤ t.amount.toRat)
    (dates : List Date) (d : Draft) :
    (dates.foldl (addOccurrence merging note ts) d).invoices =
        (dates.flatMap (invoicesOn note ts)).foldl (recorded merging) d.invoices ∧
      ((Enterable merging d.invoices (dates.flatMap (invoicesOn note ts)) ∧
          dates.foldlM (enterOccurrence merging note ts) d =
            .ok (dates.foldl (addOccurrence merging note ts) d)) ∨
        (¬ Enterable merging d.invoices (dates.flatMap (invoicesOn note ts)) ∧
          dates.foldlM (enterOccurrence merging note ts) d = .error .overflow)) := by
  have hdate (d : Draft) (date : Date) := enterOccurrence_cases merging date note h d
  exact foldlM_enter_cases (fun d date _ => (hdate d date).1) (fun d date _ => (hdate d date).2) d

/-- A share of an amount without a sign has none. -/
theorem amount_nonneg_of_mem_sharedOut {senders chain : List Nat} {recipient : Nat}
    {total : Decimal} (htotal : total.negative = false) {t : Transfer}
    (ht : t ∈ sharedOut senders recipient chain total) : 0 ≤ t.amount.toRat := by
  unfold sharedOut transfers at ht
  rcases List.mem_append.mp ht with ht | ht
  · obtain ⟨s, -, rfl⟩ := List.mem_map.mp ht
    refine Decimal.toRat_nonneg_of_not_negative ?_
    rw [Decimal.negative_share, htotal]
  · obtain ⟨pair, -, rfl⟩ := List.mem_map.mp ht
    exact Decimal.toRat_nonneg_of_not_negative htotal

/-- No payment of a line fails, unless it is to oneself. -/
theorem create_payment_eq {sender recipient : Nat} (h : sender ≠ recipient) {w : WrittenAmount} :
    Transaction.create .payment sender recipient w.toDecimal date note =
      .ok ⟨sender, recipient, w.toDecimal, date, note, .payment⟩ :=
  Transaction.check_of_valid (t := ⟨sender, recipient, w.toDecimal, date, note, .payment⟩)
    ⟨fun heq => h (Int.ofNat_inj.mp heq), Decimal.toRat_nonneg_of_not_negative rfl⟩

end

end Draft

end HouseLedger
