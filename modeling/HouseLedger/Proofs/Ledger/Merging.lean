import HouseLedger.Proofs.Balance.Order
import HouseLedger.Proofs.Ledger.Contents

/-!
# Merged invoices

The same lines are read with and without merging. Merging has no say in what a line asks for, so
that the one reading ends with the invoices of the other merged one after the other
(`Ledger.eq_merged`), unless a sum of two is too large (`Ledger.failsIff_merging`).

A merged invoice counts for what the two counted for together, unless their total had to be rounded
(`Draft.contribution_mergeInvoices`). So the merged invoices condense those that they are made of
(`Draft.Condenses`), and both readings end with the same balance of every two accounts
(`Ledger.ofString_merging`). Entries may well differ in their order and orientation: a pair can be
seen first in another place, and in the other direction.

It takes amounts that are too large to be added, or finer than what is computed, for merging to
make a difference (`Ledger.merging_differs`).
-/

namespace HouseLedger

open Outcome Text
open Decimal (HasPlaces Fits InRange precision finestPlace)
open Transaction (ExactTotals)

namespace Transaction

/-! ## Directions -/

/-- How the balance of two accounts counts what goes from a sender to a recipient. -/
def heading (sender recipient i j : ℤ) : ℚ :=
  if sender = i ∧ recipient = j then 1 else if sender = j ∧ recipient = i then -1 else 0

theorem heading_swap {sender recipient : ℤ} (hne : sender ≠ recipient) (i j : ℤ) :
    heading recipient sender i j = -heading sender recipient i j := by
  unfold heading
  by_cases hsame : sender = i ∧ recipient = j
  · have hother : ¬ (recipient = i ∧ sender = j) := fun h => hne (hsame.1.trans h.1.symm)
    rw [if_pos hsame, if_neg hother, if_pos hsame.symm]
  · by_cases hturned : sender = j ∧ recipient = i
    · rw [if_neg hsame, if_pos hturned, if_pos hturned.symm, neg_neg]
    · rw [if_neg hsame, if_neg hturned, if_neg (mt And.symm hturned),
        if_neg (mt And.symm hsame), neg_zero]

theorem contribution_of_invoice {t : Transaction} (h : t.role = .invoice) (i j : ℤ) :
    t.contribution i j = -(heading t.sender t.recipient i j * t.amount.toRat) := by
  unfold contribution heading
  rw [signedValue, h]
  split
  · rw [one_mul]
  · split
    · rw [neg_one_mul]
    · rw [zero_mul, neg_zero]

/-- Of two alike transactions one goes the way of the other, or the way back. -/
theorem parties_of_isAlike {t old : Transaction} (h : t.isAlike old = true) :
    old.sender = t.sender ∧ old.recipient = t.recipient ∨
      old.sender = t.recipient ∧ old.recipient = t.sender := by
  simp only [isAlike, Bool.and_eq_true, Bool.or_eq_true, beq_iff_eq] at h
  rcases h.2 with ⟨hs, hr⟩ | ⟨hs, hr⟩
  · exact .inl ⟨hs.symm, hr.symm⟩
  · exact .inr ⟨hr.symm, hs.symm⟩

theorem pair_eq_of_isAlike {t old : Transaction} (h : t.isAlike old = true) :
    old.pair = t.pair :=
  (old.pair_eq_iff _ _).mpr (parties_of_isAlike h)

/-! ## Exact totals -/

theorem ExactTotals.of_cons {f : ℕ} {t : Transaction} {ts : List Transaction}
    (h : ExactTotals f (t :: ts)) (ht : t.Valid) : ExactTotals f ts := by
  refine ⟨(List.forall_mem_cons.mp h.places).2, lt_of_le_of_lt ?_ h.small⟩
  rw [List.map_cons, List.sum_cons]
  linarith [ht.amount_nonneg]

/-- What takes no more places and no more in total is exact as well. -/
theorem ExactTotals.of_append_left {f : ℕ} {ts us vs : List Transaction}
    (h : ExactTotals f (us ++ vs)) (hplaces : ∀ t ∈ ts, HasPlaces f t.amount.toRat)
    (hsum : (ts.map (·.amount.toRat)).sum ≤ (us.map (·.amount.toRat)).sum) :
    ExactTotals f (ts ++ vs) := by
  constructor
  · intro t ht
    rcases List.mem_append.mp ht with ht | ht
    · exact hplaces t ht
    · exact h.places t (List.mem_append_right us ht)
  · have hsmall := h.small
    rw [List.map_append, List.sum_append] at hsmall ⊢
    linarith

end Transaction

namespace Draft

open Transaction (heading)

/-! ## Two invoices -/

section

variable {f : ℕ} (hf : finestPlace ≤ -(f : ℤ)) {old new : Transaction}
include hf

/-- The total of two alike invoices counts the old one with the sign of its direction. -/
theorem exists_toRat_mergedTotal (hnew : new.Valid) (hold : old.Valid)
    (halike : new.isAlike old = true) (h : ExactTotals f [new, old]) :
    ∃ sign : ℚ, (mergedTotal old new).toRat = new.amount.toRat + sign * old.amount.toRat ∧
      Fits f (new.amount.toRat + sign * old.amount.toRat) ∧
      |new.amount.toRat + sign * old.amount.toRat| ≤ new.amount.toRat + old.amount.toRat ∧
      ∀ i j, heading old.sender old.recipient i j =
        sign * heading new.sender new.recipient i j := by
  have hplaces : HasPlaces f new.amount.toRat ∧ HasPlaces f old.amount.toRat := by
    simpa using h.places
  have hsmall : new.amount.toRat + old.amount.toRat < 10 ^ ((precision : ℤ) - f) := by
    simpa using h.small
  have hnonneg := hnew.amount_nonneg
  have hnonneg' := hold.amount_nonneg
  rcases Transaction.parties_of_isAlike halike with ⟨hs, hr⟩ | ⟨hs, hr⟩
  · have habs : |new.amount.toRat + 1 * old.amount.toRat| ≤
        new.amount.toRat + old.amount.toRat := abs_le.mpr ⟨by linarith, by linarith⟩
    have hfits : Fits f (new.amount.toRat + 1 * old.amount.toRat) :=
      ⟨by rw [one_mul]; exact hplaces.1.add hplaces.2, habs.trans_lt hsmall⟩
    refine ⟨1, ?_, hfits, habs, fun i j => by rw [hs, hr, one_mul]⟩
    rw [one_mul] at hfits ⊢
    rw [mergedTotal, if_pos hs, Decimal.toRat_add_of_fits hf hfits]
  · have hne : old.sender ≠ new.sender := fun heq => hnew.parties_ne (heq.symm.trans hs)
    have habs : |new.amount.toRat + -1 * old.amount.toRat| ≤
        new.amount.toRat + old.amount.toRat := abs_le.mpr ⟨by linarith, by linarith⟩
    have hfits : Fits f (new.amount.toRat + -1 * old.amount.toRat) :=
      ⟨by rw [neg_one_mul]; exact hplaces.1.add hplaces.2.neg, habs.trans_lt hsmall⟩
    refine ⟨-1, ?_, hfits, habs, fun i j => ?_⟩
    · rw [neg_one_mul, ← sub_eq_add_neg] at hfits ⊢
      rw [mergedTotal, if_neg hne, Decimal.toRat_sub_of_fits hf hfits]
    · rw [hs, hr, Transaction.heading_swap hnew.parties_ne, neg_one_mul]

/-- Two alike invoices whose total is exact count merged for what they counted for before, and
the merged amount is at most their sum. -/
theorem contribution_mergeInvoices (hnew : new.role = .invoice ∧ new.Valid)
    (hold : old.role = .invoice ∧ old.Valid) (halike : new.isAlike old = true)
    (h : ExactTotals f [new, old]) :
    HasPlaces f (mergeInvoices old new).amount.toRat ∧
      (mergeInvoices old new).amount.toRat ≤ new.amount.toRat + old.amount.toRat ∧
      ∀ i j, (mergeInvoices old new).contribution i j =
        new.contribution i j + old.contribution i j := by
  obtain ⟨sign, hsign, hfits, habs, hheading⟩ :=
    exists_toRat_mergedTotal hf hnew.2 hold.2 halike h
  have hrole := (role_mergeInvoices old new).trans hnew.1
  have hcontribution (i j : ℤ) : new.contribution i j + old.contribution i j =
      -(heading new.sender new.recipient i j *
        (new.amount.toRat + sign * old.amount.toRat)) := by
    rw [Transaction.contribution_of_invoice hnew.1, Transaction.contribution_of_invoice hold.1,
      hheading]
    ring
  rw [← hsign] at hfits habs hcontribution
  obtain ⟨-, heq⟩ | ⟨-, heq⟩ := mergeInvoices_cases old new
  · rw [heq] at hrole ⊢
    refine ⟨hfits.places, (le_abs_self _).trans habs, fun i j => ?_⟩
    rw [hcontribution, Transaction.contribution_of_invoice hrole]
  · -- Turned round, both the direction and the amount have the other sign.
    rw [heq] at hrole ⊢
    have hopposite := (hfits.isShort hf).toRat_neg
    refine ⟨?_, ?_, fun i j => ?_⟩
    · rw [hopposite]
      exact hfits.places.neg
    · rw [hopposite]
      exact (neg_le_abs _).trans habs
    · rw [hcontribution, Transaction.contribution_of_invoice hrole, hopposite,
        Transaction.heading_swap hnew.2.parties_ne]
      ring

/-- Two alike invoices whose total is exact can be merged. -/
theorem inRange_mergedTotal (hnew : new.Valid) (hold : old.Valid)
    (halike : new.isAlike old = true) (h : ExactTotals f [new, old]) :
    InRange (mergedTotal old new).toRat := by
  obtain ⟨sign, hsign, -, habs, -⟩ := exists_toRat_mergedTotal hf hnew hold halike h
  have hsmall := h.four_mul_sum_lt
  have hnonneg := hnew.amount_nonneg
  have hnonneg' := hold.amount_nonneg
  simp only [List.map_cons, List.map_nil, List.sum_cons, List.sum_nil] at hsmall
  rw [InRange, hsign]
  linarith

end

/-! ## Two lists of invoices -/

/-- The invoices `ms` come to the same balance of every two accounts as the invoices `us`, with no
more places and no more in total. -/
structure SameTotals (f : ℕ) (ms us : List Transaction) : Prop where
  places : ∀ t ∈ ms, HasPlaces f t.amount.toRat
  sum_le : (ms.map (·.amount.toRat)).sum ≤ (us.map (·.amount.toRat)).sum
  tally_eq : ∀ i j, Balance.tally ms i j = Balance.tally us i j

/-- The invoices `ms` are what merging makes of the invoices `us`: between the same accounts,
and, unless a total had to be rounded, with the same balance of every two of them. -/
structure Condenses (ms us : List Transaction) : Prop where
  invoices : ∀ t ∈ ms, t.role = .invoice ∧ t.Valid
  seen_iff : ∀ p, p ∈ ms.map Transaction.pair ↔ p ∈ us.map Transaction.pair
  exact : ∀ f : ℕ, finestPlace ≤ -(f : ℤ) → ExactTotals f us → SameTotals f ms us

theorem Condenses.nil : Condenses [] [] :=
  ⟨List.forall_mem_nil _, fun _ => Iff.rfl,
    fun _ _ _ => ⟨List.forall_mem_nil _, le_rfl, fun _ _ => rfl⟩⟩

variable {ms us : List Transaction} {t : Transaction}

/-- An invoice that is recorded as it is. -/
theorem Condenses.cons (h : Condenses ms us) (ht : t.role = .invoice ∧ t.Valid) :
    Condenses (t :: ms) (t :: us) where
  invoices := List.forall_mem_cons.mpr ⟨ht, h.invoices⟩
  seen_iff p := by rw [List.map_cons, List.map_cons, List.mem_cons, List.mem_cons, h.seen_iff]
  exact f hf hus := by
    have hsame := h.exact f hf (hus.of_cons ht.2)
    refine ⟨List.forall_mem_cons.mpr ⟨hus.places t List.mem_cons_self, hsame.places⟩, ?_,
      fun i j => ?_⟩
    · rw [List.map_cons, List.map_cons, List.sum_cons, List.sum_cons]
      exact add_le_add_right hsame.sum_le _
    · rw [Balance.tally_cons, Balance.tally_cons, hsame.tally_eq]

theorem SameTotals.exactTotals {f : ℕ} (h : SameTotals f ms us) (hus : ExactTotals f us) :
    ExactTotals f ms :=
  ⟨h.places, h.sum_le.trans_lt hus.small⟩

/-- What is found stands in front of all others but for the order. -/
theorem perm_of_find? {α : Type} {p : α → Bool} {xs : List α} {x : α}
    (h : xs.find? p = some x) : xs.Perm (x :: xs.eraseP p) := by
  obtain ⟨hx, as, bs, rfl, has⟩ := List.find?_eq_some_iff_append.mp h
  rw [List.eraseP_append_right _ (by simpa using has), List.eraseP_cons_of_pos hx]
  exact List.perm_middle

/-- An invoice and the one that it is merged with have an exact total where all have. -/
theorem Condenses.exactTotals_pair (h : Condenses ms us) (ht : t.role = .invoice ∧ t.Valid)
    {f : ℕ} (hf : finestPlace ≤ -(f : ℤ)) (hus : ExactTotals f (t :: us)) {old : Transaction}
    (hfind : ms.find? t.isAlike = some old) :
    ExactTotals f ([t, old] ++ ms.eraseP t.isAlike) ∧ ExactTotals f [t, old] := by
  have hall := Balance.exactTotals_perm ((perm_of_find? hfind).cons t)
    (((h.cons ht).exact f hf hus).exactTotals hus)
  exact ⟨hall, hall.of_append fun u hu => (h.invoices u (List.mem_of_mem_eraseP hu)).2⟩

/-- Where all totals are exact, none is too large for merging. -/
theorem Condenses.mergeable (h : Condenses ms us) (ht : t.role = .invoice ∧ t.Valid)
    {f : ℕ} (hf : finestPlace ≤ -(f : ℤ)) (hus : ExactTotals f (t :: us)) :
    Mergeable true ms t := by
  intro old hfind
  exact inRange_mergedTotal hf ht.2 (h.invoices old (List.mem_of_find?_eq_some hfind)).2
    (List.find?_some hfind) (h.exactTotals_pair ht hf hus hfind).2

/-- An invoice that is merged with one recorded before. -/
theorem Condenses.merge (h : Condenses ms us) (ht : t.role = .invoice ∧ t.Valid)
    {old : Transaction} (hfind : ms.find? t.isAlike = some old) :
    Condenses (mergeInvoices old t :: ms.eraseP t.isAlike) (t :: us) := by
  have hold := h.invoices old (List.mem_of_find?_eq_some hfind)
  have halike : t.isAlike old = true := List.find?_some hfind
  have hperm := (perm_of_find? hfind).cons t
  have hcons := h.cons ht
  constructor
  · exact List.forall_mem_cons.mpr ⟨⟨(role_mergeInvoices old t).trans ht.1,
      valid_mergeInvoices old ht.2.parties_ne⟩,
      fun u hu => h.invoices u (List.mem_of_mem_eraseP hu)⟩
  · intro p
    rw [← hcons.seen_iff, (hperm.map Transaction.pair).mem_iff]
    simp only [List.map_cons, List.mem_cons, pair_mergeInvoices,
      Transaction.pair_eq_of_isAlike halike]
    tauto
  · intro f hf hus
    have hsame := hcons.exact f hf hus
    obtain ⟨hall, hpair⟩ := h.exactTotals_pair ht hf hus hfind
    obtain ⟨hplaces, hle, hcontribution⟩ := contribution_mergeInvoices hf ht hold halike hpair
    refine ⟨List.forall_mem_cons.mpr ⟨hplaces, fun u hu =>
      hall.places u (List.mem_append_right _ hu)⟩, ?_, fun i j => ?_⟩
    · have hsum := hsame.sum_le
      rw [(hperm.map fun u : Transaction => u.amount.toRat).sum_eq] at hsum
      simp only [List.map_cons, List.sum_cons] at hsum ⊢
      linarith
    · rw [← hsame.tally_eq, Balance.tally_perm hperm, Balance.tally_cons, Balance.tally_cons,
        Balance.tally_cons, hcontribution, add_assoc]

/-- Recording one more invoice, merged in the one list and as it is in the other. -/
theorem Condenses.recorded (h : Condenses ms us) (ht : t.role = .invoice ∧ t.Valid) :
    Condenses (recorded true ms t) (recorded false us t) := by
  have hplain : Draft.recorded false us t = t :: us := rfl
  rw [hplain]
  unfold Draft.recorded
  rw [if_pos rfl]
  cases hfind : ms.find? t.isAlike with
  | none => exact h.cons ht
  | some old => exact h.merge ht hfind

theorem Condenses.reverse (h : Condenses ms us) : Condenses ms.reverse us.reverse where
  invoices t ht := h.invoices t (List.mem_reverse.mp ht)
  seen_iff p := by simpa using h.seen_iff p
  exact f hf hus := by
    have hsame := h.exact f hf (Balance.exactTotals_perm us.reverse_perm hus)
    refine ⟨fun t ht => hsame.places t (List.mem_reverse.mp ht), by simpa using hsame.sum_le,
      fun i j => ?_⟩
    rw [Balance.tally_perm ms.reverse_perm, Balance.tally_perm us.reverse_perm, hsame.tally_eq]

theorem Condenses.foldl_recorded {ts : List Transaction} (h : Condenses ms us)
    (hts : ∀ t ∈ ts, t.role = .invoice ∧ t.Valid) :
    Condenses (ts.foldl (Draft.recorded true) ms) (ts.foldl (Draft.recorded false) us) := by
  induction ts generalizing ms us with
  | nil => exact h
  | cons t ts ih =>
    obtain ⟨ht, hts⟩ := List.forall_mem_cons.mp hts
    exact ih (h.recorded ht) hts

theorem Condenses.enterable {ts : List Transaction} (h : Condenses ms us)
    (hts : ∀ t ∈ ts, t.role = .invoice ∧ t.Valid) (hus : ∀ u ∈ us, u.Valid) {f : ℕ}
    (hf : finestPlace ≤ -(f : ℤ)) (hexact : ExactTotals f (us ++ ts)) :
    Enterable true ms ts := by
  induction ts generalizing ms us with
  | nil => trivial
  | cons t ts ih =>
    obtain ⟨ht, hts⟩ := List.forall_mem_cons.mp hts
    have hmoved : ExactTotals f (t :: us ++ ts) :=
      Balance.exactTotals_perm List.perm_middle hexact
    exact ⟨h.mergeable ht hf (hmoved.of_append fun u hu => (hts u hu).2),
      ih (h.recorded ht) hts (List.forall_mem_cons.mpr ⟨ht.2, hus⟩) hmoved⟩

/-! ## Merged lists -/

/-- The invoices, merged one after the other. -/
def merged (ts : List Transaction) : List Transaction := (ts.foldl (recorded true) []).reverse

variable {ts : List Transaction}

/-- Merged invoices condense those that they are made of. -/
theorem condenses_merged (h : ∀ t ∈ ts, t.role = .invoice ∧ t.Valid) :
    Condenses (merged ts) ts := by
  have hcondenses := (Condenses.nil.foldl_recorded h).reverse
  rwa [foldl_recorded_false, List.append_nil, List.reverse_reverse] at hcondenses

/-- As long as no total has to be rounded, all invoices can be merged. -/
theorem enterable_of_exactTotals (h : ∀ t ∈ ts, t.role = .invoice ∧ t.Valid) {f : ℕ}
    (hf : finestPlace ≤ -(f : ℤ)) (hexact : ExactTotals f ts) : Enterable true [] ts :=
  Condenses.nil.enterable h (List.forall_mem_nil _) hf hexact

/-! ## Two balances -/

variable {ps : List Transaction} {b b' : Balance}

/-- Netting either list of invoices, and then the same payments, opens entries for the same
pairs. -/
theorem Condenses.mem_pairs_iff (h : Condenses ms us) (hb : Balance.Running b (ms ++ ps))
    (hb' : Balance.Running b' (us ++ ps)) (p : Sym2 ℤ) :
    p ∈ b.entries.map Entry.pair ↔ p ∈ b'.entries.map Entry.pair := by
  rw [hb.seen_iff, hb'.seen_iff, List.map_append, List.map_append, List.mem_append,
    List.mem_append, h.seen_iff]

/-- And it gives every two accounts the same balance, if no total has to be rounded. -/
theorem SameTotals.exists_balances {f : ℕ} (h : SameTotals f ms us) (hf : finestPlace ≤ -(f : ℤ))
    (hms : ∀ t ∈ ms ++ ps, t.Valid) (hus : ∀ t ∈ us ++ ps, t.Valid)
    (hexact : ExactTotals f (us ++ ps)) :
    ∃ b b', Balance.empty.addAll (ms ++ ps) = .ok b ∧ Balance.empty.addAll (us ++ ps) = .ok b' ∧
      ∀ i j, ∃ x x', b.net i j = .ok x ∧ b'.net i j = .ok x' ∧ x.toRat = x'.toRat := by
  have hne : ∀ t ∈ ms ++ ps, t.sender ≠ t.recipient := fun t ht => (hms t ht).parties_ne
  have hne' : ∀ t ∈ us ++ ps, t.sender ≠ t.recipient := fun t ht => (hus t ht).parties_ne
  have hmerged : ExactTotals f (ms ++ ps) := hexact.of_append_left h.places h.sum_le
  obtain ⟨b, hall⟩ :=
    (Balance.exists_addAll_iff hne).mpr (Balance.nettable_of_exactTotals hmerged hms)
  obtain ⟨b', hall'⟩ :=
    (Balance.exists_addAll_iff hne').mpr (Balance.nettable_of_exactTotals hexact hus)
  have hb := Balance.Running.of_addAll hne hall
  have hb' := Balance.Running.of_addAll hne' hall'
  refine ⟨b, b', hall, hall', fun i j => ?_⟩
  by_cases hij : i = j
  · subst hij
    exact ⟨_, _, hb.net_self i, hb'.net_self i, rfl⟩
  · obtain ⟨x, hx, hvalue⟩ := map_eq_ok.mp
      (hb.map_net_eq_tally hf hms hij (Balance.exactTotals_between hmerged hms i j))
    obtain ⟨x', hx', hvalue'⟩ := map_eq_ok.mp
      (hb'.map_net_eq_tally hf hus hij (Balance.exactTotals_between hexact hus i j))
    refine ⟨x, x', hx, hx', ?_⟩
    rw [hvalue, hvalue', Balance.tally_append, Balance.tally_append, h.tally_eq]

end Draft

/-! ## Two readings -/

variable {options : Options} {reference : Date} {earlier body : List (List Char)}

/-- Merging has a say only in what alike invoices come to. -/
theorem Line.Admissible.of_merging {merging : Bool} {line : Line}
    (h : line.Admissible { options with mergeInvoices := merging } reference earlier) :
    line.Admissible { options with mergeInvoices := false } reference earlier where
  fresh := h.fresh
  declared := h.declared
  real := h.real
  moving := h.moving
  sharable := h.sharable
  mergeable := by
    rintro l - ⟨ts, -, hnot⟩
    exact hnot (Draft.enterable_false _ ts)

theorem AllAcceptable.of_merging {merging : Bool}
    (h : AllAcceptable { options with mergeInvoices := merging } reference body) :
    AllAcceptable { options with mergeInvoices := false } reference body := by
  intro before text after hbody
  obtain ⟨line, htext, hline⟩ := h before text after hbody
  exact ⟨line, htext, hline.of_merging⟩

/-- A line that is fine without merging fails with it only by a sum that is too large. -/
theorem Line.FailsWith.overmerges_of_merging {line : Line} {fault : Fault}
    (h : line.FailsWith { options with mergeInvoices := true } reference earlier fault)
    (hplain : line.Admissible { options with mergeInvoices := false } reference earlier) :
    fault = .overflow ∧ ∃ l, line = .invoice l ∧
      l.Overmerges { options with mergeInvoices := true } reference earlier := by
  cases h with
  | taken htaken => exact absurd htaken (hplain.fresh _ _ rfl)
  | unknown hfirst => exact absurd hplain.declared hfirst.not_forall
  | unreal _ hfirst _ => exact absurd hplain.real hfirst.not_forall
  | overshares _ _ hover => exact absurd hover (hplain.sharable _ rfl)
  | stalls _ _ _ hstalls => exact absurd hstalls (hplain.moving _ rfl)
  | overmerges _ _ _ _ hover => exact ⟨rfl, _, rfl, hover⟩

namespace Ledger

variable {text : String} {l l' : Ledger}

theorem exists_unmerged {merging : Bool}
    (h : ofString { options with mergeInvoices := merging } text = .ok l) :
    ∃ l', ofString { options with mergeInvoices := false } text = .ok l' := by
  obtain ⟨lines, hcut⟩ := exists_isCut text.toList
  obtain ⟨header, body, rfl⟩ := hcut.exists_cons
  obtain ⟨reference, hheader, hbody⟩ := (exists_ledger_iff hcut).mp ⟨l, h⟩
  exact (exists_ledger_iff hcut).mpr ⟨reference, hheader, hbody.of_merging⟩

/-- Without merging a ledger has the invoices that its lines ask for. -/
theorem invoices_written (options : Options) :
    (written { options with mergeInvoices := false } reference body).invoices =
      body.flatMap (invoicesOf options reference ⟨declared body, true⟩) := by
  rw [written, Draft.foldl_recorded_false, List.append_nil, List.reverse_reverse]
  rfl

/-- The invoices with merging are those without, merged one after the other. -/
theorem eq_merged (options : Options)
    (h : ofString { options with mergeInvoices := true } text = .ok l)
    (h' : ofString { options with mergeInvoices := false } text = .ok l') :
    l = { l' with invoices := Draft.merged l'.invoices } := by
  obtain ⟨lines, hcut⟩ := exists_isCut text.toList
  obtain ⟨header, body, rfl⟩ := hcut.exists_cons
  rw [ofString_eq_ofLines_of_isCut _ hcut] at h h'
  obtain ⟨reference, hheader, -, rfl⟩ := ofLines_eq_ok_iff_written.mp h
  obtain ⟨reference', hheader', -, rfl⟩ := ofLines_eq_ok_iff_written.mp h'
  obtain rfl : reference = reference' := hheader.unique hheader'
  rw [invoices_written options]
  rfl

/-- A text that is a ledger without merging is one with it, unless two alike invoices come to
too much. -/
theorem failsIff_merging (options : Options)
    (h' : ofString { options with mergeInvoices := false } text = .ok l') :
    FailsIff .overflow (¬ Draft.Enterable true [] l'.invoices)
      (ofString { options with mergeInvoices := true } text) := by
  obtain ⟨lines, hcut⟩ := exists_isCut text.toList
  obtain ⟨header, body, rfl⟩ := hcut.exists_cons
  rw [ofString_eq_ofLines_of_isCut _ hcut] at h' ⊢
  obtain ⟨reference, hheader, hplain, rfl⟩ := ofLines_eq_ok_iff_written.mp h'
  rw [invoices_written options]
  have hdistinct : (⟨declared body, true⟩ : Registry).Distinct := hplain.distinct
  have hread : readHeader { options with mergeInvoices := true } header = .ok reference :=
    readHeader_eq_ok_iff.mpr hheader
  rw [ofLines, hread]
  dsimp only
  obtain ⟨d, hlines, hd, -⟩ | ⟨d, fault, hlines, before, text, after, rfl, hbefore, hfault⟩ :=
    Draft.addLines_cases { options with mergeInvoices := true } reference body
  · rw [hlines]
    exact .ok _ (not_not.mpr (hd.enterable _ hdistinct (hd.accounts_eq ▸ List.prefix_refl _)))
  · rw [hlines]
    -- The line that fails is fine without merging.
    obtain ⟨line, htext, hline⟩ := hplain before text after rfl
    cases hfault with
    | malformed hno => exact absurd htext (hno line)
    | failing htext' hfails =>
      rw [htext'.unique htext] at hfails
      obtain ⟨rfl, l, rfl, hover⟩ := hfails.overmerges_of_merging hline
      have hkept : declared before <+: declared (before ++ text :: after) := by
        rw [declared, declared, List.flatMap_append]
        exact List.prefix_append _ _
      exact .error (hover.not_enterable hbefore htext hdistinct hkept after)

/-- A text is a ledger with merging exactly if it is one without. Both have the same accounts
and payments, and netting opens entries for the same pairs. As long as no total has to be
rounded, every two accounts have the same balance. -/
theorem ofString_merging (options : Options) (text : String) :
    ((∃ l, ofString { options with mergeInvoices := true } text = .ok l) →
      ∃ l', ofString { options with mergeInvoices := false } text = .ok l') ∧
    ∀ l', ofString { options with mergeInvoices := false } text = .ok l' →
      FailsIff .overflow (¬ Draft.Enterable true [] l'.invoices)
        (ofString { options with mergeInvoices := true } text) ∧
      (∀ l, ofString { options with mergeInvoices := true } text = .ok l →
        l.referenceDate = l'.referenceDate ∧ l.accounts = l'.accounts ∧
        l.payments = l'.payments ∧
        ∀ b b', l.balance = .ok b → l'.balance = .ok b' →
          ∀ p, p ∈ b.entries.map Entry.pair ↔ p ∈ b'.entries.map Entry.pair) ∧
      ∀ f ≤ 1000026, ExactTotals f (l'.invoices ++ l'.payments) →
        ∃ l b b', ofString { options with mergeInvoices := true } text = .ok l ∧
          l.balance = .ok b ∧ l'.balance = .ok b' ∧
          ∀ i j, ∃ x x', b.net i j = .ok x ∧ b'.net i j = .ok x' ∧ x.toRat = x'.toRat := by
  refine ⟨fun ⟨l, h⟩ => exists_unmerged h, fun l' h' => ?_⟩
  have hrecorded := wellFormed_of_ofString h'
  have hinvoices : ∀ t ∈ l'.invoices, t.role = .invoice ∧ t.Valid := fun t ht =>
    ⟨(hrecorded.invoices t ht).role_eq, (hrecorded.invoices t ht).valid⟩
  have hcondenses := Draft.condenses_merged hinvoices
  refine ⟨failsIff_merging options h', fun l h => ?_, fun f hf hexact => ?_⟩
  · obtain rfl := eq_merged options h h'
    refine ⟨rfl, rfl, rfl, fun b b' hb hb' => ?_⟩
    exact hcondenses.mem_pairs_iff ((wellFormed_of_ofString h).running hb) (hrecorded.running hb')
  · have hplace := Decimal.finestPlace_le_neg hf
    have hus : ExactTotals f l'.invoices := hexact.of_append fun t ht =>
      hrecorded.valid t (List.mem_append_right _ ht)
    obtain ⟨l, h⟩ := (failsIff_merging options h').exists_iff.mpr
      (not_not.mpr (Draft.enterable_of_exactTotals hinvoices hplace hus))
    obtain rfl := eq_merged options h h'
    obtain ⟨b, b', hb, hb', hnet⟩ := (hcondenses.exact f hplace hus).exists_balances hplace
      (wellFormed_of_ofString h).valid hrecorded.valid hexact
    exact ⟨_, b, b', h, hb, hb', hnet⟩

/-- Two bills for tea that go in opposite directions, and a payment. -/
def teaText : String :=
  "accounting_date 1.2.2024\naccount AA Anna\naccount BB Bert\n" ++
    "invoice AA -> BB 3.00 5.1.2024 tea\ninvoice BB -> AA 5.00 5.1.2024 tea\n" ++
    "payment AA -> BB 1.00 6.1.2024 tea\n"

/-- Merged, the bills are one of the second direction. -/
theorem ofString_merging_tea :
    ∃ l l' b b', ofString { mergeInvoices := true } teaText = .ok l ∧ ofString {} teaText = .ok l' ∧
      l.balance = .ok b ∧ l'.balance = .ok b' ∧
      ExactTotals 2 (l'.invoices ++ l'.payments) ∧
      b.entries.map (fun e => (e.sender, e.recipient)) = [(1, 0)] ∧
      b'.entries.map (fun e => (e.sender, e.recipient)) = [(0, 1)] ∧
      ∃ x x', b.net 0 1 = .ok x ∧ b'.net 0 1 = .ok x' ∧ x.toRat = x'.toRat := by
  have hmerged : (ofString { mergeInvoices := true } teaText).toOption.bind (fun l =>
      l.balance.toOption.map fun b => b.entries.map (fun e => (e.sender, e.recipient))) =
        some [(1, 0)] := by
    decide +kernel
  have hplain : (ofString {} teaText).toOption.bind (fun l => l.balance.toOption.map fun b =>
      ((l.invoices ++ l.payments).map (·.amount),
        b.entries.map (fun e => (e.sender, e.recipient)))) =
        some ([⟨false, 300, -2⟩, ⟨false, 500, -2⟩, ⟨false, 100, -2⟩], [(0, 1)]) := by
    decide +kernel
  obtain ⟨l, hl, hmap⟩ := Option.bind_eq_some_iff.mp hmerged
  obtain ⟨b, hb, hentries⟩ := Option.map_eq_some_iff.mp hmap
  obtain ⟨l', hl', hmap'⟩ := Option.bind_eq_some_iff.mp hplain
  obtain ⟨b', hb', hpair⟩ := Option.map_eq_some_iff.mp hmap'
  obtain ⟨hamounts, hentries'⟩ := Prod.mk.inj hpair
  rw [toOption_eq_some] at hl hb hl' hb'
  have hexact : ExactTotals 2 (l'.invoices ++ l'.payments) := by
    rw [Transaction.exactTotals_iff, hamounts]
    simp only [List.forall_mem_cons, HasPlaces]
    refine ⟨⟨⟨300, ?_⟩, ⟨500, ?_⟩, ⟨100, ?_⟩, by simp⟩, ?_⟩ <;>
      norm_num [Decimal.toRat, Decimal.signed, precision]
  obtain ⟨m, c, c', hm, hc, hc', hnet⟩ :=
    ((ofString_merging {} teaText).2 l' hl').2.2 2 (by norm_num) hexact
  obtain rfl := ok_unique hl hm
  obtain rfl := ok_unique hb hc
  obtain rfl := ok_unique hb' hc'
  exact ⟨l, l', b, b', hl, hl', hb, hb', hexact, hentries, hentries', hnet 0 1⟩

/-! ### Amounts that cannot be merged exactly -/

/-- A bill that Anna passes on to Bert: what she owes herself is left out. -/
def relayLine (w : WrittenAmount) : InvoiceLine :=
  ⟨"AA", [], "AA", ["BB"], w, ⟨['1'], ['2'], "2024".toList⟩, none, "rent"⟩

/-- The invoice of the bill. -/
def relayed (w : WrittenAmount) : Transaction :=
  ⟨0, 1, w.toDecimal, februaryFirst, "rent", .invoice⟩

/-- The bill two times. -/
def relayLines (w : WrittenAmount) : List (List Char) :=
  friends ++ [spaced (relayLine w).words] ++ [spaced (relayLine w).words]

def relayText (w : WrittenAmount) : String :=
  String.ofList (withBreaks (februaryHeader :: relayLines w))

section

variable {w : WrittenAmount}

theorem spells_relayLine (hw : w.IsProper) :
    (Line.invoice (relayLine w)).Spells (spaced (relayLine w).words) ∧
      '\n' ∉ spaced (relayLine w).words := by
  have hline : (Line.invoice (relayLine ⟨['1'], ['0']⟩)).Spells
      "invoice AA -> AA -> BB 1.0 1.2.2024 rent".toList :=
    Line.ofText?_eq_some_iff.mp (by decide +kernel)
  exact ⟨InvoiceLine.spells_amount hline hw,
    InvoiceLine.feed_notMem_amount (l := relayLine ⟨['1'], ['0']⟩) hline (by decide) hw⟩

theorem isCut_relayText (hw : w.IsProper) :
    IsCut (relayText w).toList (februaryHeader :: relayLines w) := by
  rw [relayText, String.toList_ofList]
  refine isCut_withBreaks (List.forall_mem_cons.mpr ⟨by decide, ?_⟩)
  rw [relayLines, List.forall_mem_append, List.forall_mem_append, List.forall_mem_singleton]
  exact ⟨⟨by decide, (spells_relayLine hw).2⟩, (spells_relayLine hw).2⟩

theorem billed_relayLine (hshare : InRange (w.toDecimal.share 1).toRat) {r : Registry}
    (hanna : r.resolve "AA" = .ok 0) (hbert : r.resolve "BB" = .ok 1) :
    (relayLine w).billed {} februaryFirst r = .ok [relayed w] := by
  have hsenders : ["AA"].mapM r.resolve = .ok [0] := by simp [hanna]
  have hchain : ["BB"].mapM r.resolve = .ok [1] := by simp [hbert]
  have hstart : WrittenDate.toDate ⟨['1'], ['2'], "2024".toList⟩ = .ok februaryFirst := by decide
  have honce : Recurrence.occurrences februaryFirst none none februaryFirst =
      .ok [februaryFirst] := by decide
  unfold InvoiceLine.billed relayLine
  dsimp only
  rw [hsenders, bind_ok, hanna, bind_ok, hchain, bind_ok, hstart, bind_ok, Option.mapM_none,
    pure_eq, bind_ok, if_neg (Date.not_lt.mpr (Nat.le_refl _)), List.length_singleton,
    Decimal.checked_of_inRange hshare, bind_ok, Option.map_none, honce, bind_ok]
  rfl

/-- The bill declares no account, and asks for its invoice and for no payment. -/
theorem ofText?_relayLine (hw : w.IsProper) :
    Line.ofText? (spaced (relayLine w).words) = some (.invoice (relayLine w)) :=
  Line.ofText?_eq_some_iff.mpr (spells_relayLine hw).1

theorem accountsOf_relayLine (hw : w.IsProper) : accountsOf (spaced (relayLine w).words) = [] := by
  rw [accountsOf, ofText?_relayLine hw]
  rfl

theorem declared_friends : declared friends = [⟨"AA", "Anna"⟩, ⟨"BB", "Bert"⟩] := by
  decide +kernel

theorem acceptable_relayLine (hw : w.IsProper) (hshare : InRange (w.toDecimal.share 1).toRat)
    {earlier : List (List Char)} (h : declared earlier = [⟨"AA", "Anna"⟩, ⟨"BB", "Bert"⟩]) :
    Acceptable {} februaryFirst earlier (spaced (relayLine w).words) := by
  have hbilled : (relayLine w).billed {} februaryFirst (accountsBehind earlier) =
      .ok [relayed w] := by
    rw [accountsBehind, h]
    exact billed_relayLine hshare rfl rfl
  obtain ⟨hparties, hdates, hshares, hmoves⟩ := InvoiceLine.exists_billed_iff.mp ⟨_, hbilled⟩
  refine ⟨_, (spells_relayLine hw).1, Line.admissible_invoice_iff.mpr
    ⟨hparties, hdates, hshares, hmoves, ?_⟩⟩
  rintro ⟨ts, -, hnot⟩
  exact hnot (Draft.enterable_false _ ts)

/-- Without merging both bills are recorded. -/
theorem exists_ofString_relayText (hw : w.IsProper)
    (hshare : InRange (w.toDecimal.share 1).toRat) :
    ∃ l, ofString {} (relayText w) = .ok l ∧ l.invoices = [relayed w, relayed w] ∧
      l.payments = [] := by
  have honce : declared (friends ++ [spaced (relayLine w).words]) = declared friends := by
    rw [declared, List.flatMap_append, List.flatMap_singleton, accountsOf_relayLine hw,
      List.append_nil, declared]
  have htwice : declared (relayLines w) = declared friends := by
    rw [relayLines, declared, List.flatMap_append, List.flatMap_singleton,
      accountsOf_relayLine hw, List.append_nil, ← declared, honce]
  have hall : AllAcceptable {} februaryFirst (relayLines w) := by
    rw [relayLines, allAcceptable_concat_iff, allAcceptable_concat_iff]
    exact ⟨⟨allAcceptable_friends, acceptable_relayLine hw hshare declared_friends⟩,
      acceptable_relayLine hw hshare (honce.trans declared_friends)⟩
  refine ⟨written {} februaryFirst (relayLines w), ?_, ?_, ?_⟩
  · rw [ofString_eq_ofLines_of_isCut _ (isCut_relayText hw)]
    exact ofLines_eq_ok_iff_written.mpr ⟨_, isHeader_february, hall, rfl⟩
  · have hinvoices : invoicesOf {} februaryFirst ⟨[⟨"AA", "Anna"⟩, ⟨"BB", "Bert"⟩], true⟩
        (spaced (relayLine w).words) = [relayed w] := by
      rw [invoicesOf, ofText?_relayLine hw, Option.map_some, Option.getD_some, Line.invoices,
        billed_relayLine hshare rfl rfl]
      rfl
    have hfriends : friends.flatMap (invoicesOf {} februaryFirst
        ⟨[⟨"AA", "Anna"⟩, ⟨"BB", "Bert"⟩], true⟩) = [] := by decide +kernel
    refine (invoices_written {}).trans ?_
    rw [htwice, declared_friends, relayLines, List.flatMap_append, List.flatMap_append,
      List.flatMap_singleton, hinvoices, hfriends]
    rfl
  · have hpayments (r : Registry) :
        paymentsOf februaryFirst r (spaced (relayLine w).words) = [] := by
      rw [paymentsOf, ofText?_relayLine hw]
      rfl
    have hfriends : friends.flatMap (paymentsOf februaryFirst
        ⟨[⟨"AA", "Anna"⟩, ⟨"BB", "Bert"⟩], true⟩) = [] := by decide +kernel
    rw [written]
    dsimp only
    rw [htwice, declared_friends, relayLines, List.flatMap_append, List.flatMap_append,
      List.flatMap_singleton, hpayments, hfriends]
    rfl

end

/-- A transaction of four units below the finest place. -/
def dust : Transaction := ⟨0, 1, ⟨false, 4, -1000027⟩, februaryFirst, "rent", .invoice⟩

theorem toRat_dust : dust.amount.toRat = 4 * 10 ^ (-1000027 : ℤ) :=
  Decimal.toRat_of_not_negative rfl

theorem exactTotals_dust : ExactTotals 1000027 [dust, dust] := by
  refine ⟨fun t ht => ?_, ?_⟩
  · obtain rfl : t = dust := by simpa using ht
    exact ⟨4, by rw [toRat_dust]; rfl⟩
  · have hsum : ([dust, dust].map (·.amount.toRat)).sum = 8 * 10 ^ (-1000027 : ℤ) := by
      rw [List.map_cons, List.map_singleton, List.sum_cons, List.sum_singleton, toRat_dust]
      ring
    calc ([dust, dust].map (·.amount.toRat)).sum
        = 8 * 10 ^ (-1000027 : ℤ) := hsum
      _ < 10 * 10 ^ (-1000027 : ℤ) :=
        mul_lt_mul_of_pos_right (by norm_num) (Decimal.ten_zpow_pos _)
      _ = 10 ^ (1 + -1000027 : ℤ) := by rw [Decimal.ten_zpow_add, zpow_one]
      _ ≤ 10 ^ ((precision : ℤ) - (1000027 : ℕ)) := zpow_le_zpow_right₀ (by norm_num) (by decide)

/-- Two such bills can be read with and without merging. -/
theorem exists_merging_dust :
    ∃ l l', ofString { mergeInvoices := true } (relayText (.tiny 1000026 '4')) = .ok l ∧
      ofString {} (relayText (.tiny 1000026 '4')) = .ok l' ∧ l'.invoices = [dust, dust] ∧
      l'.payments = [] := by
  have hproper := WrittenAmount.isProper_tiny 1000026 '4' rfl
  have hamount : (WrittenAmount.tiny 1000026 '4').toDecimal = ⟨false, 4, -1000027⟩ := by
    rw [WrittenAmount.toDecimal_tiny]
    rfl
  generalize WrittenAmount.tiny 1000026 '4' = w at hproper hamount ⊢
  have hshare : InRange (w.toDecimal.share 1).toRat := by
    rw [hamount, ← Decimal.isTooLarge_eq_false_iff]
    decide
  obtain ⟨l', hl', hinvoices, hpayments⟩ := exists_ofString_relayText hproper hshare
  have hdust : relayed w = dust := by rw [relayed, hamount, dust]
  rw [hdust] at hinvoices
  have henterable : Draft.Enterable true [] l'.invoices := by
    rw [hinvoices]
    refine ⟨nofun, fun old hold => ?_, trivial⟩
    obtain rfl := Option.some.inj hold
    rw [← Decimal.isTooLarge_eq_false_iff]
    decide
  obtain ⟨l, hl⟩ := (failsIff_merging {} hl').exists_iff.mpr (not_not.mpr henterable)
  exact ⟨l, l', hl, hl', hinvoices, hpayments⟩

/-- Two alike bills that are only just in range can be read, but not merged. Two that are finer than
any computed decimal come to one unit of the finest place if they are merged, and to nothing
otherwise. -/
theorem merging_differs :
    (∃ l', ofString {} (relayText (.vast 999999 '9')) = .ok l' ∧
      ofString { mergeInvoices := true } (relayText (.vast 999999 '9')) = .error .overflow) ∧
    ∃ l l' b b' x x', ofString { mergeInvoices := true } (relayText (.tiny 1000026 '4')) = .ok l ∧
      ofString {} (relayText (.tiny 1000026 '4')) = .ok l' ∧
      ExactTotals 1000027 (l'.invoices ++ l'.payments) ∧
      l.balance = .ok b ∧ l'.balance = .ok b' ∧
      b.net 0 1 = .ok x ∧ b'.net 0 1 = .ok x' ∧ x.toRat ≠ x'.toRat := by
  constructor
  · have hproper := WrittenAmount.isProper_vast 999999 '9' rfl
    have hshort := WrittenAmount.isShort_vast 999999 '9' rfl
    have hrange := WrittenAmount.inRange_vast 999999 '9' rfl (by decide)
    have hsum := WrittenAmount.not_inRange_add_vast (n := 999999) (by decide)
    generalize WrittenAmount.vast 999999 '9' = w at hproper hshort hrange hsum ⊢
    have hshare : InRange (w.toDecimal.share 1).toRat := by
      rwa [Decimal.toRat_share_one, Decimal.toRat_round_of_isShort hshort]
    obtain ⟨l', hl', hinvoices, -⟩ := exists_ofString_relayText hproper hshare
    refine ⟨l', hl', (failsIff_merging {} hl').eq_error_iff.mpr ⟨?_, rfl⟩⟩
    rw [hinvoices]
    rintro ⟨-, hlast, -⟩
    have htotal : Draft.mergedTotal (relayed w) (relayed w) = w.toDecimal + w.toDecimal :=
      if_pos rfl
    exact hsum (htotal ▸ hlast (relayed w) rfl)
  · obtain ⟨l, l', hl, hl', hinvoices, hpayments⟩ := exists_merging_dust
    obtain rfl := eq_merged {} hl hl'
    have hmerged : (Balance.ofTransactions (Draft.merged [dust, dust]) []).toOption =
        some ⟨[⟨0, 1, ⟨true, 1, -1000026⟩⟩]⟩ := by decide
    have hplain : (Balance.ofTransactions [dust, dust] []).toOption =
        some ⟨[⟨0, 1, ⟨true, 0, -1000026⟩⟩]⟩ := by decide
    rw [toOption_eq_some, ← hinvoices, ← hpayments] at hmerged hplain
    refine ⟨_, l', _, _, _, _, hl, hl', ?_, hmerged, hplain, rfl, rfl, ?_⟩
    · rw [hinvoices, hpayments, List.append_nil]
      exact exactTotals_dust
    · exact ne_of_lt ((Decimal.lt_iff_toRat_lt _ _).mp (by decide))

end Ledger

end HouseLedger
