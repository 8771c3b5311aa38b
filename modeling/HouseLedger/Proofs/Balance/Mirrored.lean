import HouseLedger.Proofs.Balance.Netting
import HouseLedger.Proofs.Related

/-!
# Mirror images of transactions

An invoice from one account to another weighs as much as a payment the other way round. So a
transaction can be told from the side of its recipient, as its mirror image
(`Transaction.mirror`), and any number of transactions may be replaced by theirs: after each of
them all balances are the same, with every rounding (`Balance.net_mirrored`). An entry may then be
stored the other way round, where it is subtracted from instead of added to.

The amounts have to be short and in range. Another one is rounded where it is an invoice, or too
large to be booked, and is not where it is a payment that opens an entry
(`Balance.exists_net_ne_of_mirrored`).
-/

namespace HouseLedger

/-- What a transaction is from the other side. -/
def Role.opposite : Role → Role
  | invoice => payment
  | payment => invoice

namespace Transaction

/-- The transaction as its recipient would tell it. -/
def mirror (t : Transaction) : Transaction :=
  { t with sender := t.recipient, recipient := t.sender, role := t.role.opposite }

theorem pair_mirror (t : Transaction) : t.mirror.pair = t.pair := Sym2.eq_swap

variable {t u : Transaction} {i j : ℤ}

theorem toRat_signed_mirror (h : t.amount.IsShort) :
    t.mirror.signed.toRat = -t.signed.toRat := by
  unfold signed mirror Role.opposite
  cases t.role with
  | invoice => exact (neg_eq_iff_eq_neg.mpr h.toRat_neg).symm
  | payment => exact h.toRat_neg

/-- A short amount in range is in range under either sign, seen from either account. -/
theorem inRange_amountFrom (hshort : t.amount.IsShort) (hrange : Decimal.InRange t.amount.toRat) :
    Decimal.InRange t.signed.toRat ∧ Decimal.InRange (t.amountFrom i).toRat := by
  have hsigned : Decimal.InRange t.signed.toRat := by
    unfold signed
    cases t.role with
    | invoice => rwa [hshort.toRat_neg, Decimal.inRange_neg]
    | payment => exact hrange
  refine ⟨hsigned, ?_⟩
  unfold amountFrom
  split
  · exact hsigned
  · rwa [Decimal.toRat_flip, Decimal.inRange_neg]

/-- Seen from either account, a transaction and its mirror image count alike. -/
theorem toRat_amountFrom_mirror (hne : i ≠ j) (hpair : t.pair = s(i, j)) (h : t.amount.IsShort) :
    (t.mirror.amountFrom i).toRat = (t.amountFrom i).toRat := by
  rcases (t.pair_eq_iff i j).mp hpair with ⟨rfl, rfl⟩ | ⟨rfl, rfl⟩
  · rw [t.amountFrom_sender, ← neg_eq_iff_eq_neg.mpr (toRat_signed_mirror h),
      ← Decimal.toRat_flip]
    exact congrArg Decimal.toRat (t.mirror.amountFrom_recipient hne.symm)
  · rw [t.amountFrom_recipient hne.symm, Decimal.toRat_flip, ← toRat_signed_mirror h]
    exact congrArg Decimal.toRat t.mirror.amountFrom_sender

/-- The transaction itself, or its mirror image. -/
def IsToldBy (t u : Transaction) : Prop := u = t ∨ u = t.mirror

theorem IsToldBy.pair_eq (h : IsToldBy t u) : u.pair = t.pair := by
  rcases h with rfl | rfl
  · rfl
  · exact t.pair_mirror

theorem IsToldBy.amount_eq (h : IsToldBy t u) : u.amount = t.amount := by
  rcases h with rfl | rfl
  · rfl
  · rfl

theorem IsToldBy.parties_ne (h : IsToldBy t u) (hne : t.sender ≠ t.recipient) :
    u.sender ≠ u.recipient := by
  rcases h with rfl | rfl
  · exact hne
  · exact hne.symm

theorem IsToldBy.toRat_amountFrom (h : IsToldBy t u) (hne : i ≠ j) (hpair : t.pair = s(i, j))
    (hshort : t.amount.IsShort) : (t.amountFrom i).toRat = (u.amountFrom i).toRat := by
  rcases h with rfl | rfl
  · rfl
  · exact (toRat_amountFrom_mirror hne hpair hshort).symm

end Transaction

namespace Balance

open Decimal (runningSum InRange)
open Transaction (IsToldBy)

variable {ts us : List Transaction} {i j : ℤ}

theorem exists_told (h : List.Forall₂ IsToldBy ts us) {u : Transaction} (hu : u ∈ us) :
    ∃ t ∈ ts, IsToldBy t u :=
  exists_of_forall₂ h.flip hu

/-- Mirror images have the running sums of what they are images of, since rounding does not see
signs. -/
theorem toRat_summed_told (h : List.Forall₂ IsToldBy ts us)
    (hshort : ∀ t ∈ ts, t.amount.IsShort) (hne : i ≠ j) :
    (summed ts i j).toRat = (summed us i j).toRat := by
  have hbetween : List.Forall₂ IsToldBy (between ts i j) (between us i j) :=
    forall₂_filter h fun t u htu => by rw [htu.pair_eq]
  have hknown : ∀ t ∈ between ts i j, t.pair = s(i, j) ∧ t.amount.IsShort := fun t ht =>
    ⟨pair_of_mem_between ht, hshort t (List.mem_of_mem_filter ht)⟩
  refine Decimal.toRat_runningSum_congr ?_
  rw [List.forall₂_map_left_iff, List.forall₂_map_right_iff]
  exact ((List.forall₂_and_left _ _).mpr ⟨hknown, hbetween⟩).imp
    fun t u htu => htu.2.toRat_amountFrom hne htu.1.1 htu.1.2

/-- The pairs that have transactions are those that their images have. -/
theorem map_pair_told (h : List.Forall₂ IsToldBy ts us) :
    us.map Transaction.pair = ts.map Transaction.pair := by
  induction h with
  | nil => rfl
  | cons htu _ ih => rw [List.map_cons, List.map_cons, htu.pair_eq, ih]

section

/-- What amounts have to be like for their mirror images to count as they do. -/
def Plain (ts : List Transaction) : Prop :=
  ∀ t ∈ ts, t.amount.IsShort ∧ InRange t.amount.toRat

variable (h : List.Forall₂ IsToldBy ts us)
include h

theorem Plain.told (hplain : Plain ts) : Plain us := by
  intro u hu
  obtain ⟨t, ht, htu⟩ := exists_told h hu
  exact htu.amount_eq ▸ hplain t ht

/-- Whether transactions can be booked does not depend on who tells them. -/
theorem nettable_told (hvalid : ∀ t ∈ ts, t.Valid) (hplain : Plain ts) {ts₀ us₀ : List Transaction}
    (h₀ : List.Forall₂ IsToldBy ts₀ us₀) (hplain₀ : Plain ts₀) :
    Nettable ts₀ ts ↔ Nettable us₀ us := by
  induction h generalizing ts₀ us₀ with
  | nil => rfl
  | @cons t u ts us htu h ih =>
    obtain ⟨ht, hts⟩ := List.forall_mem_cons.mp hvalid
    obtain ⟨⟨hshort, hrange⟩, hrest⟩ := List.forall_mem_cons.mp hplain
    have h₁ : List.Forall₂ IsToldBy (ts₀ ++ [t]) (us₀ ++ [u]) :=
      List.rel_append h₀ (.cons htu .nil)
    have hplain₁ : Plain (ts₀ ++ [t]) :=
      List.forall_mem_append.mpr ⟨hplain₀, List.forall_mem_singleton.mpr ⟨hshort, hrange⟩⟩
    have hsigned (v : Transaction) (hv : IsToldBy t v) : InRange v.signed.toRat :=
      (Transaction.inRange_amountFrom (i := v.sender) (hv.amount_eq ▸ hshort)
        (hv.amount_eq ▸ hrange)).1
    have hsum : InRange (summed (ts₀ ++ [t]) t.sender t.recipient).toRat ↔
        InRange (summed (us₀ ++ [u]) u.sender u.recipient).toRat := by
      rw [inRange_summed_iff ht.parties_ne htu.pair_eq,
        toRat_summed_told h₁ (fun v hv => (hplain₁ v hv).1) ht.parties_ne]
    have hbookable : Bookable ts₀ t ↔ Bookable us₀ u := by
      have hseen : u.pair ∈ us₀.map Transaction.pair ↔ t.pair ∈ ts₀.map Transaction.pair := by
        rw [map_pair_told h₀, htu.pair_eq]
      exact ⟨fun hb => ⟨fun _ => hsigned u htu, fun hu => hsum.mp (hb.summed (hseen.mp hu))⟩,
        fun hb => ⟨fun _ => hsigned t (.inl rfl), fun ht => hsum.mpr (hb.summed (hseen.mpr ht))⟩⟩
    rw [Nettable, Nettable, hbookable, ih hts hrest h₁ hplain₁]

end

/-- A sum of short amounts in range that could be computed is short and in range. -/
theorem Plain.summed (hplain : Plain ts) (hnettable : Nettable [] ts) (hne : i ≠ j) :
    (summed ts i j).IsShort ∧ InRange (summed ts i j).toRat := by
  refine ⟨isShort_summed fun t ht _ =>
    (hplain t (List.mem_of_mem_filter (List.mem_of_mem_head? ht))).1, ?_⟩
  match hts : between ts i j with
  | [] =>
    rw [summed_of_between_eq_nil hts, Decimal.toRat_zero]
    exact Decimal.inRange_zero
  | [t] =>
    have ht : t ∈ between ts i j := hts ▸ List.mem_singleton_self t
    obtain ⟨hshort, hrange⟩ := hplain t (List.mem_of_mem_filter ht)
    rw [Balance.summed, hts]
    exact (Transaction.inRange_amountFrom hshort hrange).2
  | t :: u :: rest => exact inRange_summed hnettable hne (by rw [hts]; simp)

/-- Two balances that store running sums of short amounts, and of mirror images of them, net
alike. -/
theorem Running.net_told {b b' : Balance} (hb : Running b ts) (hb' : Running b' us)
    (h : List.Forall₂ IsToldBy ts us) (hts : Nettable [] ts) (hus : Nettable [] us)
    (hplain : Plain ts) (i j : ℤ) :
    ∃ x x', b.net i j = .ok x ∧ b'.net i j = .ok x' ∧ x.toRat = x'.toRat := by
  by_cases hne : i = j
  · subst hne
    exact ⟨_, _, hb.net_self i, hb'.net_self i, rfl⟩
  · obtain ⟨hshort, hrange⟩ := hplain.summed hts hne
    obtain ⟨hshort', hrange'⟩ := (hplain.told h).summed hus hne
    obtain ⟨x, hx, hvalue⟩ := Outcome.map_eq_ok.mp (hb.map_net_of_isShort hne hshort hrange)
    obtain ⟨x', hx', hvalue'⟩ := Outcome.map_eq_ok.mp (hb'.map_net_of_isShort hne hshort' hrange')
    exact ⟨x, x', hx, hx',
      by rw [hvalue, hvalue', toRat_summed_told h (fun t ht => (hplain t ht).1) hne]⟩

/-- Transactions of short amounts in range may be replaced by their mirror images, each or some of
them. At every point of the two runs both have come to a sum that is too large, or the entries are
of the same pairs, and two accounts have the same balance. -/
theorem net_mirrored (h : List.Forall₂ IsToldBy ts us) (hvalid : ∀ t ∈ ts, t.Valid)
    (hplain : Plain ts) (n : ℕ) :
    (empty.addAll (ts.take n) = .error .overflow ∧ empty.addAll (us.take n) = .error .overflow) ∨
      ∃ b b', empty.addAll (ts.take n) = .ok b ∧ empty.addAll (us.take n) = .ok b' ∧
        (∀ p, p ∈ b.entries.map Entry.pair ↔ p ∈ b'.entries.map Entry.pair) ∧
        ∀ i j, ∃ x x', b.net i j = .ok x ∧ b'.net i j = .ok x' ∧ x.toRat = x'.toRat := by
  have hn := List.forall₂_take n h
  have hvalidn : ∀ t ∈ ts.take n, t.Valid := fun t ht => hvalid t (List.mem_of_mem_take ht)
  have hplainn : Plain (ts.take n) := fun t ht => hplain t (List.mem_of_mem_take ht)
  have hne : ∀ t ∈ ts.take n, t.sender ≠ t.recipient := fun t ht => (hvalidn t ht).parties_ne
  have hne' : ∀ u ∈ us.take n, u.sender ≠ u.recipient := fun u hu => by
    obtain ⟨t, ht, htu⟩ := exists_told hn hu
    exact htu.parties_ne (hne t ht)
  have hiff := nettable_told hn hvalidn hplainn .nil (fun t ht => nomatch ht)
  by_cases hts : Nettable [] (ts.take n)
  · have hus := hiff.mp hts
    obtain ⟨b, hall⟩ := (exists_addAll_iff hne).mpr hts
    obtain ⟨b', hall'⟩ := (exists_addAll_iff hne').mpr hus
    have hb := Running.of_addAll hne hall
    have hb' := Running.of_addAll hne' hall'
    refine .inr ⟨b, b', hall, hall', fun p => ?_, hb.net_told hb' hn hts hus hplainn⟩
    rw [hb.seen_iff, hb'.seen_iff, map_pair_told hn]
  · exact .inl ⟨(failsIff_addAll hne).eq_error_iff.mpr ⟨hts, rfl⟩,
      (failsIff_addAll hne').eq_error_iff.mpr ⟨mt hiff.mpr hts, rfl⟩⟩

/-- A share of the rent, which has as many digits as sums keep, a sofa and a part payment. -/
def rentTransactions : List Transaction :=
  [⟨0, 1, (Decimal.mk false 1000 (-2)).share 3, septemberFirst, "rent", .invoice⟩,
    ⟨0, 1, ⟨false, 10000, -2⟩, septemberFirst, "sofa", .invoice⟩,
    ⟨0, 1, ⟨false, 25, -1⟩, septemberFirst, "rent", .payment⟩]

/-- The share and the part payment told from the side of the landlord. -/
def rentToldTwice : List Transaction :=
  (rentTransactions.modify 0 Transaction.mirror).modify 2 Transaction.mirror

theorem net_mirrored_rent :
    List.Forall₂ IsToldBy rentTransactions rentToldTwice ∧ (∀ t ∈ rentTransactions, t.Valid) ∧
      Plain rentTransactions ∧
      ∃ b b' x', empty.addAll (rentTransactions.take 3) = .ok b ∧
        empty.addAll (rentToldTwice.take 3) = .ok b' ∧
        b.net 0 1 = .ok ⟨true, 1008333333333333333333333333, -25⟩ ∧ b'.net 0 1 = .ok x' ∧
        x'.toRat = -1008333333333333333333333333 / 10 ^ 25 := by
  have htold : List.Forall₂ IsToldBy rentTransactions rentToldTwice :=
    .cons (.inr rfl) (.cons (.inl rfl) (.cons (.inr rfl) .nil))
  have hvalid : ∀ t ∈ rentTransactions, t.Valid := by
    simp only [rentTransactions, List.forall_mem_cons]
    exact ⟨⟨by decide, Decimal.toRat_nonneg_of_not_negative (by decide)⟩,
      ⟨by decide, Decimal.toRat_nonneg_of_not_negative rfl⟩,
      ⟨by decide, Decimal.toRat_nonneg_of_not_negative rfl⟩, by simp⟩
  have hplain : Plain rentTransactions := by
    simp only [Plain, rentTransactions, List.forall_mem_cons, ← Decimal.isTooLarge_eq_false_iff]
    exact ⟨⟨Decimal.isShort_of_surplus_eq_zero (by decide), by decide⟩,
      ⟨Decimal.isShort_of_surplus_eq_zero (by decide), by decide⟩,
      ⟨Decimal.isShort_of_surplus_eq_zero (by decide), by decide⟩, by simp⟩
  have hrun : (empty.addAll (rentTransactions.take 3)).toOption =
      some ⟨[⟨0, 1, ⟨true, 1008333333333333333333333333, -25⟩⟩]⟩ := by decide +kernel
  have hall := Outcome.toOption_eq_some.mp hrun
  rcases net_mirrored htold hvalid hplain 3 with ⟨hover, -⟩ | ⟨b, b', hb, hb', -, hnet⟩
  · exact nomatch hover.symm.trans hall
  · obtain ⟨x, x', hx, hx', hvalue⟩ := hnet 0 1
    obtain rfl := Outcome.ok_unique hb hall
    obtain rfl := Outcome.ok_unique hx rfl
    refine ⟨htold, hvalid, hplain, _, b', x', hall, hb', rfl, hx', hvalue.symm.trans ?_⟩
    norm_num [Decimal.toRat, Decimal.signed]

/-- A bill below the finest place is rounded to nothing, and the payment that is its mirror image
is not. -/
theorem exists_net_ne_of_mirrored :
    ∃ us b b' x x', List.Forall₂ IsToldBy tinyInvoice us ∧ (∀ t ∈ tinyInvoice, t.Valid) ∧
      (∀ t ∈ tinyInvoice, Decimal.digitCount t.amount.coefficient ≤ 28) ∧
      empty.addAll tinyInvoice = .ok b ∧ empty.addAll us = .ok b' ∧
      b.net 1 0 = .ok x ∧ b'.net 1 0 = .ok x' ∧ x.toRat ≠ x'.toRat := by
  have hmirror : (empty.addAll (tinyInvoice.map Transaction.mirror)).toOption =
      some ⟨[⟨1, 0, ⟨false, 1, -1000031⟩⟩]⟩ := by decide
  refine ⟨tinyInvoice.map Transaction.mirror, _, _, ⟨false, 0, -1000026⟩, ⟨false, 1, -1000031⟩,
    .cons (.inr rfl) .nil, valid_tinyInvoice, by decide, addAll_tinyInvoice,
    Outcome.toOption_eq_some.mp hmirror, rfl, rfl, ?_⟩
  rw [(Decimal.toRat_eq_zero_iff _).mpr rfl, ne_comm, Ne, Decimal.toRat_eq_zero_iff]
  decide

end Balance

end HouseLedger
