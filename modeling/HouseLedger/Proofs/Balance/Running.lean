import HouseLedger.Proofs.Balance.Store
import HouseLedger.Proofs.Decimal.Error
import HouseLedger.Proofs.Decimal.Range
import HouseLedger.Proofs.Transaction

/-!
# Running sums

What a balance stores for two accounts is the running sum of the transactions between
them, seen from the account that the first of them names first; all other transactions
are without effect on it.

* `Balance.Running b ts`: the balance `b` stores the running sums of the transactions `ts`.
* `Balance.Running.of_addAll`: so does every balance after a run.
* `Balance.failsIff_addAll`: a run fails if the opposite of an amount or one of the sums is too
  large (`Balance.Nettable`), and only then. It does not as long as all amounts together are
  below a quarter of what is too large (`Balance.nettable_of_small`).
* `Balance.Running.map_net`: the balance of two accounts seen from either of them is
  the running sum seen from it.
-/

namespace HouseLedger

namespace Transaction

/-- What the transaction adds to a balance that is seen from an account of its own. -/
def amountFrom (i : ℤ) (t : Transaction) : Decimal :=
  if t.sender = i then t.signed else t.signed.flip

theorem amountFrom_sender (t : Transaction) : t.amountFrom t.sender = t.signed :=
  if_pos rfl

theorem amountFrom_recipient {t : Transaction} (h : t.sender ≠ t.recipient) :
    t.amountFrom t.recipient = t.signed.flip :=
  if_neg h

/-- Only a payment can count with more digits than sums keep. -/
theorem isShort_amountFrom {t : Transaction} (h : t.role = .payment → t.amount.IsShort) (i : ℤ) :
    (t.amountFrom i).IsShort := by
  have hsigned : t.signed.IsShort := by
    unfold signed
    cases hrole : t.role with
    | invoice => exact Decimal.toRat_round_eq_iff.mp (by rw [Decimal.round_neg])
    | payment => exact h hrole
  unfold amountFrom
  split
  · exact hsigned
  · exact hsigned.flip

theorem toRat_amountFrom_swap {t : Transaction} {i j : ℤ} (hne : i ≠ j) (h : t.pair = s(i, j)) :
    (t.amountFrom j).toRat = -(t.amountFrom i).toRat := by
  rcases (t.pair_eq_iff i j).mp h with ⟨rfl, rfl⟩ | ⟨rfl, rfl⟩
  · rw [amountFrom_sender, amountFrom_recipient hne, Decimal.toRat_flip]
  · rw [amountFrom_sender, amountFrom_recipient hne.symm, Decimal.toRat_flip, neg_neg]

end Transaction

namespace Decimal

/-- The sum of decimals that are added one after the other, each sum being rounded. -/
def runningSum : List Decimal → Decimal
  | [] => zero
  | x :: xs => xs.foldl (· + ·) x

theorem runningSum_append {xs : List Decimal} (h : xs ≠ []) (x : Decimal) :
    runningSum (xs ++ [x]) = runningSum xs + x := by
  cases xs with
  | nil => exact absurd rfl h
  | cons y ys => simp [runningSum]

/-- From the second summand on a running sum is rounded. -/
theorem round_runningSum {xs : List Decimal} (h : 2 ≤ xs.length) :
    (runningSum xs).round = runningSum xs := by
  obtain ⟨ys, y, rfl⟩ : ∃ ys y, xs = ys ++ [y] := by
    have hne : xs ≠ [] := fun hnil => by simp [hnil] at h
    exact ⟨_, _, (List.dropLast_append_getLast hne).symm⟩
  have hne : ys ≠ [] := fun hnil => by simp [hnil] at h
  rw [runningSum_append hne, round_add]

theorem isShort_runningSum {xs : List Decimal} (h : ∀ x ∈ xs.head?, x.IsShort) :
    (runningSum xs).IsShort := by
  match xs with
  | [] => exact isShort_of_toRat_eq_zero toRat_zero
  | [x] => exact h x rfl
  | x :: y :: ys => exact toRat_round_eq_iff.mp (by rw [round_runningSum (by simp)])

/-- Summands of equal values have the same sum, with all its roundings. -/
theorem toRat_foldl_add_congr {xs ys : List Decimal}
    (h : List.Forall₂ (fun x y => x.toRat = y.toRat) xs ys) {a b : Decimal}
    (hab : a.toRat = b.toRat) : (xs.foldl (· + ·) a).toRat = (ys.foldl (· + ·) b).toRat := by
  induction h generalizing a b with
  | nil => exact hab
  | cons hxy _ ih => exact ih (toRat_add_congr hab hxy)

theorem toRat_runningSum_congr {xs ys : List Decimal}
    (h : List.Forall₂ (fun x y => x.toRat = y.toRat) xs ys) :
    (runningSum xs).toRat = (runningSum ys).toRat := by
  cases h with
  | nil => rfl
  | cons hxy hrest => exact toRat_foldl_add_congr hrest hxy

/-- Opposite summands have the opposite sum, with all its roundings. -/
theorem toRat_runningSum_opposite {α : Type} {f g : α → Decimal} {xs : List α}
    (h : ∀ x ∈ xs, (g x).toRat = -(f x).toRat) :
    (runningSum (xs.map g)).toRat = -(runningSum (xs.map f)).toRat := by
  have hfold : ∀ (ys : List α) (a b : Decimal), (∀ y ∈ ys, (g y).toRat = -(f y).toRat) →
      b.toRat = -a.toRat →
      ((ys.map g).foldl (· + ·) b).toRat = -((ys.map f).foldl (· + ·) a).toRat := by
    intro ys
    induction ys with
    | nil => exact fun a b _ hab => hab
    | cons y ys ih =>
      intro a b hys hab
      obtain ⟨hy, hys⟩ := List.forall_mem_cons.mp hys
      exact ih (a + f y) (b + g y) hys (toRat_add_opposite hab hy)
  cases xs with
  | nil => simp [runningSum]
  | cons x xs =>
    obtain ⟨hx, hxs⟩ := List.forall_mem_cons.mp h
    exact hfold xs (f x) (g x) hxs hx

/-- A running sum is at most twice as large as all its summands together. -/
theorem abs_toRat_runningSum_le (xs : List Decimal) :
    |(runningSum xs).toRat| ≤ 2 * (xs.map fun x => |x.toRat|).sum := by
  induction xs using List.reverseRecOn with
  | nil => simp [runningSum]
  | append_singleton xs x ih =>
    rw [List.map_append, List.sum_append, List.map_singleton, List.sum_singleton]
    match xs with
    | [] =>
      rw [show runningSum ([] ++ [x]) = x from rfl, List.map_nil, List.sum_nil, zero_add]
      linarith [abs_nonneg x.toRat]
    | [y] => simpa [runningSum] using abs_toRat_add_le y x
    | y :: z :: ys =>
      -- A sum of two or more is short, so that only what is added to it counts twice.
      have hround : (runningSum (y :: z :: ys)).round = runningSum (y :: z :: ys) :=
        round_runningSum (by simp)
      have hstep := abs_toRat_add_le_of_isShort
        (toRat_round_eq_iff.mp (congrArg toRat hround)) x
      rw [runningSum_append (List.cons_ne_nil _ _)]
      linarith

end Decimal

namespace Balance

open Decimal (runningSum InRange)

/-! ## The transactions of a pair -/

/-- The transactions between two accounts, in either direction. -/
def between (ts : List Transaction) (i j : ℤ) : List Transaction :=
  ts.filter fun t => t.pair = s(i, j)

theorem between_swap (ts : List Transaction) (i j : ℤ) : between ts j i = between ts i j := by
  simp only [between, Sym2.eq_swap]

theorem pair_of_mem_between {ts : List Transaction} {i j : ℤ} {t : Transaction}
    (h : t ∈ between ts i j) : t.pair = s(i, j) :=
  of_decide_eq_true (List.mem_filter.mp h).2

theorem between_append (ts us : List Transaction) (i j : ℤ) :
    between (ts ++ us) i j = between ts i j ++ between us i j :=
  List.filter_append ..

theorem between_of_pair_eq {t : Transaction} {i j : ℤ} (h : t.pair = s(i, j)) :
    between [t] i j = [t] := by
  simp [between, h]

theorem between_of_pair_ne {t : Transaction} {i j : ℤ} (h : t.pair ≠ s(i, j)) :
    between [t] i j = [] := by
  simp [between, h]

theorem between_eq_nil_iff {ts : List Transaction} {i j : ℤ} :
    between ts i j = [] ↔ s(i, j) ∉ ts.map Transaction.pair := by
  simp [between, List.filter_eq_nil_iff]

/-- The running sum of the transactions between two accounts, seen from the first. -/
def summed (ts : List Transaction) (i j : ℤ) : Decimal :=
  runningSum ((between ts i j).map (·.amountFrom i))

theorem summed_of_between_eq_nil {ts : List Transaction} {i j : ℤ} (h : between ts i j = []) :
    summed ts i j = .zero := by
  rw [summed, h]
  rfl

/-- Seen from the other side a sum is the opposite. -/
theorem toRat_summed_swap (ts : List Transaction) {i j : ℤ} (hne : i ≠ j) :
    (summed ts j i).toRat = -(summed ts i j).toRat := by
  rw [summed, summed, between_swap]
  exact Decimal.toRat_runningSum_opposite fun t ht =>
    Transaction.toRat_amountFrom_swap hne (pair_of_mem_between ht)

/-- A sum is as large from either side. -/
theorem inRange_summed_iff {i j k l : ℤ} (hne : i ≠ j) (h : s(k, l) = s(i, j))
    (ts : List Transaction) :
    InRange (summed ts k l).toRat ↔ InRange (summed ts i j).toRat := by
  rcases Sym2.eq_iff.mp h with ⟨rfl, rfl⟩ | ⟨rfl, rfl⟩
  · rfl
  · rw [toRat_summed_swap ts hne, Decimal.inRange_neg]

/-! ## Stored sums -/

/-- The entry is what the transactions of its pair sum up to, in the direction of the first
of them. -/
def Sums (ts : List Transaction) (e : Entry) : Prop :=
  ((between ts e.sender e.recipient).head?.map (·.sender)) = some e.sender ∧
    e.balance = summed ts e.sender e.recipient

/-- Every pair that has transactions is stored with their running sum. -/
structure Running (b : Balance) (ts : List Transaction) : Prop where
  wf : b.WellFormed
  sums : ∀ e ∈ b.entries, Sums ts e
  seen_iff : ∀ p, p ∈ b.entries.map Entry.pair ↔ p ∈ ts.map Transaction.pair

theorem Running.empty : Running empty [] :=
  ⟨.empty, by simp [Balance.empty], by simp [Balance.empty]⟩

/-- A transaction between other accounts does not matter to an entry. -/
theorem Sums.append_of_pair_ne {ts : List Transaction} {e : Entry} (h : Sums ts e)
    {t : Transaction} (hne : t.pair ≠ s(e.sender, e.recipient)) : Sums (ts ++ [t]) e := by
  rw [Sums, summed, between_append, between_of_pair_ne hne, List.append_nil]
  exact h

/-- An entry with one more transaction of its pair. -/
theorem Sums.append {ts : List Transaction} {e : Entry} (h : Sums ts e) {t : Transaction}
    (hpair : t.pair = e.pair) :
    Sums (ts ++ [t]) { e with balance := e.balance + t.amountFrom e.sender } := by
  obtain ⟨hhead, hbalance⟩ := h
  have hne : between ts e.sender e.recipient ≠ [] := by
    intro hnil
    rw [hnil] at hhead
    cases hhead
  rw [Sums, summed]
  dsimp only
  rw [between_append, between_of_pair_eq hpair]
  constructor
  · rw [List.head?_append_of_ne_nil _ hne, hhead]
  · rw [List.map_append, List.map_singleton, Decimal.runningSum_append (by simpa using hne),
      hbalance, summed]

/-- The only transaction of its pair is stored as it counts. -/
theorem Sums.balance_of_singleton {ts : List Transaction} {e : Entry} (h : Sums ts e)
    {t : Transaction} (honly : between ts e.sender e.recipient = [t]) :
    e.balance = t.signed := by
  obtain ⟨hhead, hbalance⟩ := h
  rw [summed, honly] at hbalance
  rw [honly] at hhead
  have hsender : t.sender = e.sender := Option.some.inj hhead
  rw [hbalance, ← hsender, ← t.amountFrom_sender]
  rfl

/-- A stored sum is rounded, unless it is the amount of the only transaction of its pair, and
that a payment. -/
theorem Sums.round_eq_or {ts : List Transaction} {e : Entry} (h : Sums ts e) :
    e.balance.round = e.balance ∨
      ∃ t, between ts e.sender e.recipient = [t] ∧ t.role = .payment ∧ e.balance = t.amount := by
  match hts : between ts e.sender e.recipient with
  | [] =>
    have hhead := h.1
    rw [hts] at hhead
    cases hhead
  | [t] =>
    have hamount := h.balance_of_singleton hts
    cases hrole : t.role with
    | invoice =>
      rw [hamount, Transaction.signed, hrole]
      exact .inl (Decimal.round_neg _)
    | payment =>
      rw [Transaction.signed, hrole] at hamount
      exact .inr ⟨t, rfl, hrole, hamount⟩
  | t :: u :: us =>
    rw [h.2, summed, hts]
    exact .inl (Decimal.round_runningSum (by simp))

theorem Running.replace {b : Balance} {ts : List Transaction} (h : Running b ts) {e : Entry}
    (he : e ∈ b.entries) {t : Transaction} (hpair : t.pair = e.pair) :
    Running (b.replace { e with balance := e.balance + t.amountFrom e.sender }) (ts ++ [t]) := by
  refine ⟨h.wf.replace (h.wf.proper e he), ?_, ?_⟩
  · intro y hy
    rcases mem_replace hy with rfl | ⟨hmem, hother⟩
    · exact (h.sums e he).append hpair
    · -- An entry that was not replaced is of another pair.
      refine (h.sums y hmem).append_of_pair_ne fun hsame => ?_
      have heq : y = e := h.wf.eq_of_pair_eq hmem he (hsame.symm.trans hpair)
      exact hother ⟨by rw [heq], by rw [heq]⟩
  · intro p
    have hold : t.pair ∈ ts.map Transaction.pair :=
      (h.seen_iff t.pair).mp (hpair ▸ List.mem_map_of_mem he)
    rw [map_pair_replace, h.seen_iff, List.map_append, List.mem_append, List.map_singleton,
      List.mem_singleton]
    exact ⟨.inl, fun hp => hp.elim id (fun heq => heq ▸ hold)⟩

/-- A first entry for the pair of a transaction. -/
theorem Running.append {b : Balance} {ts : List Transaction} (h : Running b ts) {t : Transaction}
    (hne : t.sender ≠ t.recipient) (hnew : t.pair ∉ b.entries.map Entry.pair) :
    Running ⟨b.entries ++ [⟨t.sender, t.recipient, t.signed⟩]⟩ (ts ++ [t]) := by
  refine ⟨h.wf.append hne hnew, ?_, ?_⟩
  · intro y hy
    rcases List.mem_append.mp hy with hmem | hy
    · exact (h.sums y hmem).append_of_pair_ne fun hsame =>
        hnew (hsame ▸ List.mem_map_of_mem (f := Entry.pair) hmem)
    · rw [List.mem_singleton.mp hy, Sums, summed, between_append, between_of_pair_eq rfl,
        between_eq_nil_iff.mpr (mt (h.seen_iff t.pair).mpr hnew)]
      exact ⟨rfl, t.amountFrom_sender.symm⟩
  · intro p
    rw [List.map_append, List.mem_append, h.seen_iff, List.map_append, List.mem_append,
      List.map_singleton, List.map_singleton]
    rfl

/-! ## Sums that are too large -/

/-- Whether a transaction can be booked after others: neither the opposite of its amount, where
it takes that, nor the new sum of its pair is too large. -/
structure Bookable (ts : List Transaction) (t : Transaction) : Prop where
  signed : t.role = .invoice → InRange t.signed.toRat
  summed : t.pair ∈ ts.map Transaction.pair →
    InRange (summed (ts ++ [t]) t.sender t.recipient).toRat

/-- Whether transactions can be booked one after the other, behind others. -/
def Nettable (ts : List Transaction) : List Transaction → Prop
  | [] => True
  | u :: us => Bookable ts u ∧ Nettable (ts ++ [u]) us

theorem nettable_append {ts us vs : List Transaction} :
    Nettable ts (us ++ vs) ↔ Nettable ts us ∧ Nettable (ts ++ us) vs := by
  induction us generalizing ts with
  | nil =>
    rw [List.append_nil]
    exact (and_iff_right trivial).symm
  | cons u us ih =>
    rw [List.cons_append, Nettable, Nettable, ih, and_assoc, List.append_cons ts u us]

theorem Nettable.bookable {ts us : List Transaction} (h : Nettable ts us) {u : Transaction}
    (hu : u ∈ us) : ∃ vs, Bookable vs u := by
  induction us generalizing ts with
  | nil => exact absurd hu List.not_mem_nil
  | cons v us ih =>
    rcases List.mem_cons.mp hu with rfl | hu
    · exact ⟨ts, h.1⟩
    · exact ih h.2 hu

/-- The sum of two or more transactions of a pair was computed, so that it is in range. -/
theorem inRange_summed {ts : List Transaction} (h : Nettable [] ts) {i j : ℤ} (hne : i ≠ j)
    (hlength : 2 ≤ (between ts i j).length) : InRange (summed ts i j).toRat := by
  induction ts using List.reverseRecOn with
  | nil => exact nomatch hlength
  | append_singleton ts t ih =>
    obtain ⟨hts, hlast, -⟩ := nettable_append.mp h
    by_cases hpair : t.pair = s(i, j)
    · have hseen : t.pair ∈ ts.map Transaction.pair := by
        rw [between_append, between_of_pair_eq hpair, List.length_append] at hlength
        by_contra hnew
        rw [between_eq_nil_iff.mpr (hpair ▸ hnew)] at hlength
        exact absurd hlength (Nat.lt_irrefl 1)
      exact (inRange_summed_iff hne hpair _).mp (hlast.summed hseen)
    · have hsame : between (ts ++ [t]) i j = between ts i j := by
        rw [between_append, between_of_pair_ne hpair, List.append_nil]
      rw [summed, hsame]
      exact ih hts (hsame ▸ hlength)

/-- Of payments nothing is computed before they are booked. -/
theorem failsIff_signedAmount (t : Transaction) :
    Outcome.FailsIff .overflow (¬ (t.role = .invoice → InRange t.signed.toRat)) t.signedAmount := by
  unfold Transaction.signedAmount
  cases t.role with
  | invoice => exact (Decimal.failsIff_checked t.signed).of_iff (by simp)
  | payment => exact .ok _ (by simp)

theorem signed_of_signedAmount {t : Transaction} {x : Decimal} (h : t.signedAmount = .ok x) :
    x = t.signed := by
  unfold Transaction.signedAmount at h
  cases hrole : t.role with
  | invoice =>
    rw [hrole] at h
    exact (Decimal.checked_eq_ok_iff.mp h).2.symm
  | payment =>
    rw [hrole] at h
    exact (Except.ok.inj h).symm

/-! ## Runs -/

/-- Booking one more transaction on an entry of its pair. -/
theorem Running.replace_cases {b : Balance} {ts : List Transaction} (h : Running b ts) {e : Entry}
    (he : e ∈ b.entries) {t : Transaction} (hpair : t.pair = e.pair)
    (hsigned : t.signedAmount = .ok t.signed)
    (hadd : b.apply t.sender t.recipient t.signed =
      (e.balance + t.amountFrom e.sender).checked.map fun total =>
        ({ e with balance := total }, b.replace { e with balance := total })) :
    (Bookable ts t ∧ ∃ e b', b.add t = .ok (e, b') ∧ Running b' (ts ++ [t])) ∨
      (¬ Bookable ts t ∧ b.add t = .error .overflow) := by
  have hbalance : e.balance + t.amountFrom e.sender = summed (ts ++ [t]) e.sender e.recipient :=
    ((h.sums e he).append hpair).2
  have hadded : b.add t = b.apply t.sender t.recipient t.signed := by
    rw [add, hsigned]
    rfl
  -- The sum is as large seen from the entry as seen from the transaction.
  have hrange : InRange (summed (ts ++ [t]) t.sender t.recipient).toRat ↔
      InRange (e.balance + t.amountFrom e.sender).toRat :=
    hbalance ▸ inRange_summed_iff (h.wf.proper e he) hpair _
  have hseen : t.pair ∈ ts.map Transaction.pair :=
    (h.seen_iff t.pair).mp (hpair ▸ List.mem_map_of_mem he)
  by_cases hin : InRange (e.balance + t.amountFrom e.sender).toRat
  · rw [Decimal.checked_of_inRange hin] at hadd
    refine .inl ⟨⟨?_, fun _ => hrange.mpr hin⟩, _, _, hadded.trans hadd, h.replace he hpair⟩
    by_contra hlarge
    exact (failsIff_signedAmount t).exists_iff.mp ⟨_, hsigned⟩ hlarge
  · refine .inr ⟨fun hbookable => hin (hrange.mp (hbookable.summed hseen)), ?_⟩
    rw [hadded, hadd, Outcome.map_eq_error, (Decimal.failsIff_checked _).eq_error_iff]
    exact ⟨hin, rfl⟩

/-- Booking one more transaction. -/
theorem Running.add_cases {b : Balance} {ts : List Transaction} (h : Running b ts)
    {t : Transaction} (hne : t.sender ≠ t.recipient) :
    (Bookable ts t ∧ ∃ e b', b.add t = .ok (e, b') ∧ Running b' (ts ++ [t])) ∨
      (¬ Bookable ts t ∧ b.add t = .error .overflow) := by
  cases hsigned : t.signedAmount with
  | error fault =>
    obtain ⟨hlarge, rfl⟩ := (failsIff_signedAmount t).eq_error_iff.mp hsigned
    refine .inr ⟨fun hbookable => hlarge hbookable.signed, ?_⟩
    rw [add, hsigned]
    rfl
  | ok x =>
    obtain rfl := signed_of_signedAmount hsigned
    rcases b.apply_cases hne t.signed with
      ⟨e, hfind, heq⟩ | ⟨e, -, hfind, heq⟩ | ⟨hij, hji, heq⟩
    · -- The entry has the orientation of the transaction.
      obtain ⟨hmem, hs, hr⟩ := mem_of_find? hfind
      refine h.replace_cases hmem (by rw [Transaction.pair, Entry.pair, hs, hr]) hsigned ?_
      rw [hs, t.amountFrom_sender, heq, hs]
    · -- The entry is seen from the other side, where the amount counts the other way.
      obtain ⟨hmem, hs, hr⟩ := mem_of_find? hfind
      refine h.replace_cases hmem (by rw [Transaction.pair, Entry.pair, hs, hr, Sym2.eq_swap])
        hsigned ?_
      rw [hs, Transaction.amountFrom_recipient hne, ← Decimal.sub_eq_add_flip, heq, hs]
    · have hnew := pair_notMem_of_find? hij hji
      refine .inl ⟨⟨?_, fun hseen => absurd ((h.seen_iff _).mpr hseen) hnew⟩,
        ⟨t.sender, t.recipient, t.signed⟩, _, ?_, h.append hne hnew⟩
      · by_contra hlarge
        exact (failsIff_signedAmount t).exists_iff.mp ⟨_, hsigned⟩ hlarge
      · rw [add, hsigned]
        exact heq

/-- Booking a list of transactions. -/
theorem Running.addAll_cases {ts us : List Transaction} {b : Balance} (h : Running b ts)
    (hne : ∀ u ∈ us, u.sender ≠ u.recipient) :
    (Nettable ts us ∧ ∃ b', b.addAll us = .ok b' ∧ Running b' (ts ++ us)) ∨
      (¬ Nettable ts us ∧ b.addAll us = .error .overflow) := by
  induction us generalizing ts b with
  | nil => exact .inl ⟨trivial, b, rfl, by rwa [List.append_nil]⟩
  | cons u us ih =>
    obtain ⟨hu, hus⟩ := List.forall_mem_cons.mp hne
    rw [addAll_cons, Nettable, List.append_cons ts u us]
    rcases h.add_cases hu with ⟨hbookable, e, b₁, hadd, hnext⟩ | ⟨hlarge, hadd⟩
    · rw [hadd]
      rcases ih hnext hus with ⟨hrest, hall⟩ | ⟨hrest, hall⟩
      · exact .inl ⟨⟨hbookable, hrest⟩, hall⟩
      · exact .inr ⟨fun hboth => hrest hboth.2, hall⟩
    · rw [hadd]
      exact .inr ⟨fun hboth => hlarge hboth.1, rfl⟩

section

variable {b : Balance} {ts : List Transaction} (hne : ∀ t ∈ ts, t.sender ≠ t.recipient)
include hne

/-- A run fails where an opposite or a sum is too large, and only there. -/
theorem failsIff_addAll :
    Outcome.FailsIff .overflow (¬ Nettable [] ts) (empty.addAll ts) := by
  rcases Running.empty.addAll_cases hne with ⟨hnettable, b, hall, -⟩ | ⟨hlarge, hall⟩
  · rw [hall]
    exact .ok b (not_not.mpr hnettable)
  · rw [hall]
    exact .error hlarge

theorem exists_addAll_iff : (∃ b, empty.addAll ts = .ok b) ↔ Nettable [] ts :=
  (failsIff_addAll hne).exists_iff.trans not_not

/-- What a run leaves are the running sums of its transactions. -/
theorem Running.of_addAll (hall : Balance.empty.addAll ts = .ok b) : Running b ts := by
  rcases Running.empty.addAll_cases hne with ⟨-, b', hall', hend⟩ | ⟨-, hall'⟩
  · rwa [Outcome.ok_unique hall hall']
  · exact nomatch hall.symm.trans hall'

end

/-! ## Sums that are small enough -/

theorem abs_toRat_signed_le (t : Transaction) : |t.signed.toRat| ≤ 2 * |t.amount.toRat| := by
  unfold Transaction.signed
  cases t.role with
  | invoice =>
    rw [Decimal.toRat_neg, abs_neg]
    exact Decimal.abs_toRat_round_le t.amount
  | payment => linarith [abs_nonneg t.amount.toRat]

theorem abs_toRat_amountFrom_le (t : Transaction) (i : ℤ) :
    |(t.amountFrom i).toRat| ≤ 2 * |t.amount.toRat| := by
  unfold Transaction.amountFrom
  split
  · exact abs_toRat_signed_le t
  · rw [Decimal.toRat_flip, abs_neg]
    exact abs_toRat_signed_le t

/-- What the transactions between two accounts add up to, each counted twice, is at most four
times as large as all amounts. -/
theorem sum_amountFrom_le (ts : List Transaction) (i j : ℤ) :
    2 * (((between ts i j).map (·.amountFrom i)).map fun x => |x.toRat|).sum ≤
      4 * (ts.map fun t => |t.amount.toRat|).sum := by
  have hbetween : ((between ts i j).map fun t => |t.amount.toRat|).sum ≤
      (ts.map fun t => |t.amount.toRat|).sum := by
    refine List.Sublist.sum_le_sum (List.filter_sublist.map _) fun v hv => ?_
    obtain ⟨t, -, rfl⟩ := List.mem_map.mp hv
    exact abs_nonneg _
  have hfrom : ((between ts i j).map fun t => |(t.amountFrom i).toRat|).sum ≤
      2 * ((between ts i j).map fun t => |t.amount.toRat|).sum := by
    rw [← List.sum_map_mul_left]
    exact List.sum_le_sum fun t _ => abs_toRat_amountFrom_le t i
  rw [List.map_map]
  change 2 * ((between ts i j).map fun t => |(t.amountFrom i).toRat|).sum ≤ _
  linarith

theorem abs_toRat_summed_le (ts : List Transaction) (i j : ℤ) :
    |(summed ts i j).toRat| ≤ 4 * (ts.map fun t => |t.amount.toRat|).sum :=
  (Decimal.abs_toRat_runningSum_le _).trans (sum_amountFrom_le ts i j)

theorem sum_abs_amounts_nonneg (ts : List Transaction) :
    0 ≤ (ts.map fun t => |t.amount.toRat|).sum := by
  refine List.sum_nonneg fun v hv => ?_
  obtain ⟨t, -, rfl⟩ := List.mem_map.mp hv
  exact abs_nonneg _

/-- Small amounts can be booked one after the other. -/
theorem nettable_of_small {ts us : List Transaction}
    (h : 4 * ((ts ++ us).map fun t => |t.amount.toRat|).sum < Decimal.bound) : Nettable ts us := by
  induction us generalizing ts with
  | nil => trivial
  | cons u us ih =>
    rw [List.append_cons] at h
    have hfirst : 4 * ((ts ++ [u]).map fun t => |t.amount.toRat|).sum < Decimal.bound := by
      rw [List.map_append, List.sum_append] at h
      linarith [sum_abs_amounts_nonneg us]
    refine ⟨⟨fun _ => (abs_toRat_signed_le u).trans_lt ?_, fun _ =>
      (abs_toRat_summed_le _ _ _).trans_lt hfirst⟩, ih h⟩
    rw [List.map_append, List.sum_append, List.map_singleton, List.sum_singleton] at hfirst
    linarith [sum_abs_amounts_nonneg ts, abs_nonneg u.amount.toRat]

/-! ## Seen from one account -/

theorem Running.net_self {b : Balance} {ts : List Transaction} (h : Running b ts) (i : ℤ) :
    b.net i i = .ok .zero := by
  have hnone : b.find? i i = none :=
    find?_eq_none_iff.mpr fun e he hi => h.wf.proper e he (hi.1.trans hi.2.symm)
  rw [net, hnone]

/-- The running sum of the transactions of two accounts, seen from the first; seen against
the direction of the first of them it is rounded once more, which may make it too large. -/
theorem Running.map_net {b : Balance} {ts : List Transaction} (h : Running b ts) {i j : ℤ}
    (hne : i ≠ j) :
    (b.net i j).map Decimal.toRat =
      if (between ts i j).head?.map (·.sender) = some j then
        (summed ts i j).round.checked.map Decimal.toRat
      else .ok (summed ts i j).toRat := by
  unfold net
  cases hsame : b.find? i j with
  | some e =>
    obtain ⟨hmem, rfl, rfl⟩ := mem_of_find? hsame
    obtain ⟨hhead, hbalance⟩ := h.sums e hmem
    rw [hhead, if_neg (by simpa using hne)]
    exact congrArg (fun x => Except.ok (Decimal.toRat x)) hbalance
  | none =>
    cases hturned : b.find? j i with
    | some e =>
      obtain ⟨hmem, rfl, rfl⟩ := mem_of_find? hturned
      obtain ⟨hhead, hbalance⟩ := h.sums e hmem
      rw [between_swap] at hhead
      rw [hhead, if_pos rfl]
      dsimp only
      refine Decimal.map_toRat_checked_congr ?_
      rw [Decimal.toRat_neg, ← Decimal.toRat_flip, ← Decimal.round_flip]
      apply Decimal.toRat_round_congr
      rw [Decimal.toRat_flip, hbalance, toRat_summed_swap _ hne, neg_neg]
    | none =>
      have hnil : between ts i j = [] :=
        between_eq_nil_iff.mpr (mt (h.seen_iff _).mpr (pair_notMem_of_find? hsame hturned))
      rw [hnil, summed_of_between_eq_nil hnil]
      rfl

/-- A balance whose rounded sum is in range can be seen from either side, as the sum or rounded. -/
theorem Running.exists_net {b : Balance} {ts : List Transaction} (h : Running b ts) {i j : ℤ}
    (hne : i ≠ j) (hrange : InRange (summed ts i j).round.toRat) :
    ∃ x, b.net i j = .ok x ∧
      (x.toRat = (summed ts i j).toRat ∨ x.toRat = (summed ts i j).round.toRat) := by
  have hnet := h.map_net hne
  rw [Decimal.checked_of_inRange hrange] at hnet
  split at hnet
  · obtain ⟨x, hx, hvalue⟩ := Outcome.map_eq_ok.mp hnet
    exact ⟨x, hx, .inr hvalue⟩
  · obtain ⟨x, hx, hvalue⟩ := Outcome.map_eq_ok.mp hnet
    exact ⟨x, hx, .inl hvalue⟩

/-- Only a single payment can be changed by rounding the sum of two accounts. -/
theorem toRat_round_summed_or (ts : List Transaction) (i j : ℤ) :
    (summed ts i j).round.toRat = (summed ts i j).toRat ∨
      ∃ t, between ts i j = [t] ∧ t.role = .payment := by
  unfold summed
  match hts : between ts i j with
  | [] =>
    have hshort := Decimal.isShort_of_toRat_eq_zero Decimal.toRat_zero
    exact .inl (Decimal.toRat_round_eq_iff.mpr hshort)
  | [t] =>
    cases hrole : t.role with
    | invoice =>
      refine .inl (Decimal.toRat_round_eq_iff.mpr (Transaction.isShort_amountFrom ?_ i))
      exact fun hpayment => nomatch hrole.symm.trans hpayment
    | payment => exact .inr ⟨t, rfl, hrole⟩
  | t :: u :: rest => exact .inl (congrArg Decimal.toRat (Decimal.round_runningSum (by simp)))

/-- A sum of two accounts is short, unless it is a single payment that is not. -/
theorem isShort_summed {ts : List Transaction} {i j : ℤ}
    (h : ∀ t ∈ (between ts i j).head?, t.role = .payment → t.amount.IsShort) :
    (summed ts i j).IsShort := by
  refine Decimal.isShort_runningSum fun x hx => ?_
  rw [List.head?_map, Option.mem_def, Option.map_eq_some_iff] at hx
  obtain ⟨t, ht, rfl⟩ := hx
  exact Transaction.isShort_amountFrom (h t ht) i

/-- A short sum that is in range is the same from either side. -/
theorem Running.map_net_of_isShort {b : Balance} {ts : List Transaction} (h : Running b ts)
    {i j : ℤ} (hne : i ≠ j) (hshort : (summed ts i j).IsShort)
    (hrange : InRange (summed ts i j).toRat) :
    (b.net i j).map Decimal.toRat = .ok (summed ts i j).toRat := by
  have hround := Decimal.toRat_round_eq_iff.mpr hshort
  have hturned : (summed ts i j).round.checked.map Decimal.toRat = .ok (summed ts i j).toRat := by
    rw [Decimal.checked_of_inRange (hround.symm ▸ hrange), ← hround]
    rfl
  rw [h.map_net hne, hturned, ite_self]

/-- A sum of two or more transactions is the same from either side. -/
theorem Running.map_net_of_two {b : Balance} {ts : List Transaction} (h : Running b ts)
    (hnettable : Nettable [] ts) {i j : ℤ} (hne : i ≠ j) (hlength : 2 ≤ (between ts i j).length) :
    (b.net i j).map Decimal.toRat = .ok (summed ts i j).toRat := by
  refine h.map_net_of_isShort hne ?_ (inRange_summed hnettable hne hlength)
  exact Decimal.toRat_round_eq_iff.mp
    (congrArg Decimal.toRat (Decimal.round_runningSum (by rwa [List.length_map])))

/-- The day of a few transactions. -/
def septemberFirst : Date := ⟨2025, 9, 1, by decide, by decide, by decide⟩

end Balance

end HouseLedger
