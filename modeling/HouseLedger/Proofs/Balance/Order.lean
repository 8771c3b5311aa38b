import HouseLedger.Proofs.Balance.Netting
import Mathlib.Data.List.Permutation

/-!
# The order of transactions

Of the order in which transactions are booked the balance of two accounts depends on that
of their own transactions only, and on this only by what is rounded: it is the same in every
order for at most two transactions, and where all sums are exact (`Balance.net_perm`). Three
transactions of which one is a share of a bill are enough to see the order
(`Balance.exists_net_ne_of_perm`).

An order may also lead to a sum that is too large where another does not. None does as long as
all amounts together are below a quarter of what is too large.
-/

namespace HouseLedger

open Transaction (ExactTotals)

namespace Balance

variable {ts us : List Transaction} {i j : ℤ}

theorem between_perm (h : ts.Perm us) (i j : ℤ) : (between ts i j).Perm (between us i j) :=
  h.filter _

theorem tally_perm (h : ts.Perm us) (i j : ℤ) : tally ts i j = tally us i j :=
  (h.map _).sum_eq

theorem exactTotals_perm {f : ℕ} (h : ts.Perm us) (hexact : ExactTotals f ts) :
    ExactTotals f us :=
  ⟨fun t ht => hexact.places t (h.mem_iff.mpr ht),
    (h.map (·.amount.toRat)).sum_eq ▸ hexact.small⟩

/-- At most two transactions of two accounts are netted alike in every order. -/
theorem map_net_perm_of_length_le {b b' : Balance} (h : Running b ts) (h' : Running b' us)
    (hts : Nettable [] ts) (hus : Nettable [] us) (hne : i ≠ j)
    (hperm : (between ts i j).Perm (between us i j)) (hlength : (between ts i j).length ≤ 2) :
    (b.net i j).map Decimal.toRat = (b'.net i j).map Decimal.toRat := by
  have hsame (heq : between us i j = between ts i j) :
      (b.net i j).map Decimal.toRat = (b'.net i j).map Decimal.toRat := by
    rw [h.map_net hne, h'.map_net hne, summed, summed, heq]
  rcases hbetween : between ts i j with _ | ⟨t, _ | ⟨u, rest⟩⟩
  · exact hsame (hbetween ▸ (hbetween ▸ hperm).nil_eq.symm)
  · exact hsame (hbetween ▸ List.perm_singleton.mp (hbetween ▸ hperm).symm)
  · obtain rfl : rest = [] := by
      rw [hbetween, List.length_cons, List.length_cons] at hlength
      exact List.length_eq_zero_iff.mp (by omega)
    rcases List.pair_perm.mp (hbetween ▸ hperm) with hbetween' | hbetween'
    · exact hsame (hbetween'.trans hbetween.symm)
    · rw [h.map_net_of_two hts hne (hbetween ▸ le_rfl),
        h'.map_net_of_two hus hne (hbetween' ▸ le_rfl), summed, summed, hbetween, hbetween']
      exact congrArg Except.ok (Decimal.toRat_add_comm _ _)

/-- Transactions may be booked in any order. An order fails only where it comes to a number that is
too large, and none does if all amounts together are below a quarter of that. Each order opens
entries for the same pairs, and two accounts have the same balance after each of them if they have
at most two transactions, or if none of their sums has to be rounded. -/
theorem net_perm (hperm : ts.Perm us) (hvalid : ∀ t ∈ ts, t.Valid) :
    Outcome.FailsIff .overflow (¬ Nettable [] ts) (empty.addAll ts) ∧
      Outcome.FailsIff .overflow (¬ Nettable [] us) (empty.addAll us) ∧
      (4 * (ts.map (·.amount.toRat)).sum < Decimal.bound →
        (∃ b, empty.addAll ts = .ok b) ∧ ∃ b', empty.addAll us = .ok b') ∧
      ∀ b b', empty.addAll ts = .ok b → empty.addAll us = .ok b' →
        (∀ p, p ∈ b.entries.map Entry.pair ↔ p ∈ b'.entries.map Entry.pair) ∧
        ∀ i j, (between ts i j).length ≤ 2 ∨ (∃ f ≤ 1000026, ExactTotals f (between ts i j)) →
          (b.net i j).map Decimal.toRat = (b'.net i j).map Decimal.toRat := by
  have hvalid' : ∀ t ∈ us, t.Valid := fun t ht => hvalid t (hperm.mem_iff.mpr ht)
  have hne : ∀ t ∈ ts, t.sender ≠ t.recipient := fun t ht => (hvalid t ht).parties_ne
  have hne' : ∀ t ∈ us, t.sender ≠ t.recipient := fun t ht => (hvalid' t ht).parties_ne
  refine ⟨failsIff_addAll hne, failsIff_addAll hne', fun hsmall => ?_, fun b b' hall hall' => ?_⟩
  · have hsmall' := hsmall
    rw [(hperm.map (·.amount.toRat)).sum_eq] at hsmall'
    rw [← Transaction.sum_abs_amounts hvalid] at hsmall
    rw [← Transaction.sum_abs_amounts hvalid'] at hsmall'
    exact ⟨(exists_addAll_iff hne).mpr (nettable_of_small hsmall),
      (exists_addAll_iff hne').mpr (nettable_of_small hsmall')⟩
  · have h := Running.of_addAll hne hall
    have h' := Running.of_addAll hne' hall'
    refine ⟨fun p => by rw [h.seen_iff, h'.seen_iff, (hperm.map Transaction.pair).mem_iff],
      fun i j hcase => ?_⟩
    by_cases hij : i = j
    · rw [hij, h.net_self, h'.net_self]
    · rcases hcase with hlength | ⟨f, hf, hexact⟩
      · exact map_net_perm_of_length_le h h' ((exists_addAll_iff hne).mp ⟨b, hall⟩)
          ((exists_addAll_iff hne').mp ⟨b', hall'⟩) hij (between_perm hperm i j) hlength
      · have hplace := Decimal.finestPlace_le_neg hf
        rw [h.map_net_eq_tally hplace hvalid hij hexact,
          h'.map_net_eq_tally hplace hvalid' hij (exactTotals_perm (between_perm hperm i j) hexact),
          tally_perm hperm]

/-- A share of a bill and a sofa, which are rounded when they are added, and three amounts of
two other accounts, which are not. -/
def sharedTransactions : List Transaction :=
  [⟨0, 1, (Decimal.mk false 1000 (-2)).share 3, septemberFirst, "rent", .invoice⟩,
    ⟨0, 2, ⟨false, 100, -2⟩, septemberFirst, "milk", .invoice⟩,
    ⟨2, 0, ⟨false, 25, -1⟩, septemberFirst, "bread", .invoice⟩,
    ⟨0, 1, ⟨false, 10000, -2⟩, septemberFirst, "sofa", .invoice⟩,
    ⟨0, 2, ⟨false, 3000, -3⟩, septemberFirst, "milk", .payment⟩]

theorem net_perm_shared :
    sharedTransactions.Perm sharedTransactions.reverse ∧ (∀ t ∈ sharedTransactions, t.Valid) ∧
      (between sharedTransactions 0 1).length ≤ 2 ∧
      ExactTotals 3 (between sharedTransactions 0 2) ∧
      4 * (sharedTransactions.map (·.amount.toRat)).sum < Decimal.bound ∧
      ∃ b b', empty.addAll sharedTransactions = .ok b ∧
        empty.addAll sharedTransactions.reverse = .ok b' ∧
        (b.net 0 1).map Decimal.toRat = (b'.net 0 1).map Decimal.toRat ∧
        (b.net 0 2).map Decimal.toRat = (b'.net 0 2).map Decimal.toRat := by
  have hvalid : ∀ t ∈ sharedTransactions, t.Valid := by
    simp only [sharedTransactions, List.forall_mem_cons]
    exact ⟨⟨by decide, Decimal.toRat_nonneg_of_not_negative (by decide)⟩,
      ⟨by decide, Decimal.toRat_nonneg_of_not_negative rfl⟩,
      ⟨by decide, Decimal.toRat_nonneg_of_not_negative rfl⟩,
      ⟨by decide, Decimal.toRat_nonneg_of_not_negative rfl⟩,
      ⟨by decide, Decimal.toRat_nonneg_of_not_negative rfl⟩, by simp⟩
  have hperm : sharedTransactions.Perm sharedTransactions.reverse :=
    (List.reverse_perm sharedTransactions).symm
  have hlength : (between sharedTransactions 0 1).length ≤ 2 := by decide
  have hexact : ExactTotals 3 (between sharedTransactions 0 2) := by
    have hbetween : between sharedTransactions 0 2 =
        [⟨0, 2, ⟨false, 100, -2⟩, septemberFirst, "milk", .invoice⟩,
          ⟨2, 0, ⟨false, 25, -1⟩, septemberFirst, "bread", .invoice⟩,
          ⟨0, 2, ⟨false, 3000, -3⟩, septemberFirst, "milk", .payment⟩] := by decide
    rw [hbetween]
    constructor
    · simp only [List.forall_mem_cons, Decimal.HasPlaces]
      refine ⟨⟨1000, ?_⟩, ⟨2500, ?_⟩, ⟨3000, ?_⟩, by simp⟩ <;>
        norm_num [Decimal.toRat, Decimal.signed]
    · norm_num [Decimal.toRat, Decimal.signed, Decimal.precision]
  have hsmall : 4 * (sharedTransactions.map (·.amount.toRat)).sum < Decimal.bound := by
    have hshare : (Decimal.mk false 1000 (-2)).share 3 =
        ⟨false, 3333333333333333333333333333, -27⟩ := by decide
    refine lt_of_le_of_lt ?_ Decimal.ten_pow_lt_bound
    norm_num [sharedTransactions, hshare, Decimal.toRat, Decimal.signed]
  obtain ⟨-, -, hruns, hnets⟩ := net_perm hperm hvalid
  obtain ⟨⟨b, hall⟩, b', hall'⟩ := hruns hsmall
  obtain ⟨-, hnet⟩ := hnets b b' hall hall'
  exact ⟨hperm, hvalid, hlength, hexact, hsmall, b, b', hall, hall', hnet 0 1 (.inl hlength),
    hnet 0 2 (.inr ⟨3, by norm_num, hexact⟩)⟩

/-- A share of a bill, and a sofa that is bought and brought back. -/
def sofaTransactions : List Transaction :=
  [⟨0, 1, (Decimal.mk false 1000 (-2)).share 3, septemberFirst, "rent", .invoice⟩,
    ⟨0, 1, ⟨false, 10000, -2⟩, septemberFirst, "sofa", .invoice⟩,
    ⟨1, 0, ⟨false, 10000, -2⟩, septemberFirst, "sofa back", .invoice⟩]

/-- Added to the price of the sofa, the share loses two of its digits. -/
theorem exists_net_ne_of_perm :
    ∃ us b b' x x', sofaTransactions.Perm us ∧ (∀ t ∈ sofaTransactions, t.Valid) ∧
      empty.addAll sofaTransactions = .ok b ∧ empty.addAll us = .ok b' ∧
      b.net 0 1 = .ok x ∧ b'.net 0 1 = .ok x' ∧ x.toRat ≠ x'.toRat := by
  have hvalid : ∀ t ∈ sofaTransactions, t.Valid := by
    simp only [sofaTransactions, List.forall_mem_cons]
    exact ⟨⟨by decide, Decimal.toRat_nonneg_of_not_negative (by decide)⟩,
      ⟨by decide, Decimal.toRat_nonneg_of_not_negative rfl⟩,
      ⟨by decide, Decimal.toRat_nonneg_of_not_negative rfl⟩, by simp⟩
  have hfirst : (empty.addAll sofaTransactions).toOption =
      some ⟨[⟨0, 1, ⟨true, 33333333333333333333333333, -25⟩⟩]⟩ := by decide +kernel
  have hlast : (empty.addAll (sofaTransactions.rotate 1)).toOption =
      some ⟨[⟨0, 1, ⟨true, 3333333333333333333333333333, -27⟩⟩]⟩ := by decide +kernel
  refine ⟨sofaTransactions.rotate 1, _, _, _, _, (List.rotate_perm _ 1).symm, hvalid,
    Outcome.toOption_eq_some.mp hfirst, Outcome.toOption_eq_some.mp hlast, rfl, rfl, ne_of_gt ?_⟩
  rw [← Decimal.lt_iff_toRat_lt]
  decide

end Balance

end HouseLedger
