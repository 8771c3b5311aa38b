import HouseLedger.Proofs.Balance.Netting
import HouseLedger.Proofs.Decimal.Error

/-!
# Rounding errors of balances

Amounts of any length are rounded when they are negated and whenever they are summed, so the
balance of two accounts may be off their tally. The error of a run and the size of its partial
sums bound each other: a step is off by half a unit for the amount and by another half for the
sum as long as the partial sums stay below `10 ^ m`, and they stay there if there is room for the
errors of all steps on top of all amounts (`Balance.RoomFor`).

With that, the balance of two accounts is off by one unit for each transaction at most, the unit
being `10 ^ (m - precision)` (`abs_net_ofTransactions_sub_tally_le`). The unit must not be below the
finest place, where more is dropped than that (`exists_unit_lt_abs_net_sub_tally`), and `10 ^ m` not
be above what can be computed.
-/

namespace HouseLedger

open Decimal (InRange finestPlace precision runningSum)

namespace Balance

/-- The last digit that is kept of a value of at most `10 ^ m`. -/
def unit (m : ℤ) : ℚ := 10 ^ (m - precision)

theorem unit_pos (m : ℤ) : 0 < unit m := Decimal.ten_zpow_pos _

/-- All amounts together, with a unit for each of them, are at most `10 ^ m`. -/
def RoomFor (m : ℤ) (ts : List Transaction) : Prop :=
  (ts.map (·.amount.toRat)).sum + ts.length * unit m ≤ 10 ^ m

theorem RoomFor.of_sublist {m : ℤ} {ts us : List Transaction} (h : RoomFor m us)
    (hsub : ts.Sublist us) (hvalid : ∀ t ∈ us, t.Valid) : RoomFor m ts := by
  have hsum := Transaction.sum_amounts_le_of_sublist hsub hvalid
  have hlength : (ts.length : ℚ) * unit m ≤ us.length * unit m :=
    mul_le_mul_of_nonneg_right (by exact_mod_cast hsub.length_le) (unit_pos m).le
  rw [RoomFor] at h ⊢
  linarith

theorem RoomFor.sum_add_le {m : ℤ} {ts : List Transaction} (h : RoomFor m ts) (hnil : ts ≠ []) :
    (ts.map (·.amount.toRat)).sum + unit m ≤ 10 ^ m := by
  have hlength : (1 : ℚ) ≤ ts.length := by exact_mod_cast List.length_pos_of_ne_nil hnil
  have hunits := le_mul_of_one_le_left (unit_pos m).le hlength
  rw [RoomFor] at h
  linarith

section

variable {m : ℤ} (hplace : finestPlace ≤ m - precision)
include hplace

theorem abs_toRat_round_sub_le_unit {x : Decimal} (h : |x.toRat| ≤ 10 ^ m) :
    |x.round.toRat - x.toRat| ≤ unit m / 2 := by
  have hround := Decimal.abs_toRat_round_sub_le h
  rwa [max_eq_left hplace] at hround

/-! ## Single amounts -/

theorem abs_toRat_signed_sub_le {t : Transaction} (hvalid : t.Valid)
    (h : t.amount.toRat ≤ 10 ^ m) : |t.signed.toRat - t.signedValue| ≤ unit m / 2 := by
  unfold Transaction.signed Transaction.signedValue
  cases t.role with
  | invoice =>
    rw [Decimal.toRat_neg, neg_sub_neg, abs_sub_comm]
    exact abs_toRat_round_sub_le_unit hplace (by rwa [abs_of_nonneg hvalid.amount_nonneg])
  | payment =>
    rw [sub_self, abs_zero]
    linarith [unit_pos m]

theorem abs_toRat_amountFrom_sub_le {t : Transaction} {i j : ℤ} (hne : i ≠ j)
    (hpair : t.pair = s(i, j)) (hvalid : t.Valid) (h : t.amount.toRat ≤ 10 ^ m) :
    |(t.amountFrom i).toRat - t.contribution i j| ≤ unit m / 2 := by
  have hsigned := abs_toRat_signed_sub_le hplace hvalid h
  rcases (t.pair_eq_iff i j).mp hpair with ⟨rfl, rfl⟩ | ⟨rfl, rfl⟩
  · rwa [t.amountFrom_sender, t.contribution_self]
  · rwa [Transaction.amountFrom_recipient hne.symm, t.contribution_swap hne.symm,
      t.contribution_self, Decimal.toRat_flip, neg_sub_neg, abs_sub_comm]

/-! ## Partial sums -/

/-- Adding an amount to a partial sum: the errors of both add up with that of the rounding. -/
theorem abs_toRat_add_sub_le {s x : Decimal} {v w ε : ℚ}
    (hs : |s.toRat - v| + unit m / 2 ≤ ε) (hx : |x.toRat - w| ≤ unit m / 2)
    (hroom : |v + w| + ε ≤ 10 ^ m) :
    |(s + x).toRat - (v + w)| + unit m / 2 ≤ ε + unit m := by
  have herror : |s.toRat + x.toRat - (v + w)| ≤ ε := by
    rw [add_sub_add_comm]
    linarith [abs_add_le (s.toRat - v) (x.toRat - w)]
  have hlarge : |s.toRat + x.toRat| ≤ 10 ^ m := by
    linarith [abs_sub_abs_le_abs_sub (s.toRat + x.toRat) (v + w)]
  have hround : |(s + x).toRat - (s.toRat + x.toRat)| ≤ unit m / 2 := by
    rw [Decimal.add_eq_round, ← Decimal.toRat_exactSum]
    exact abs_toRat_round_sub_le_unit hplace (by rwa [Decimal.toRat_exactSum])
  linarith [abs_sub_le (s + x).toRat (s.toRat + x.toRat) (v + w)]

/-- A running sum keeps half a unit free of its unit for each transaction. -/
theorem abs_toRat_runningSum_sub_tally_le {ts : List Transaction} {i j : ℤ} (hne : i ≠ j)
    (hpairs : ∀ t ∈ ts, t.pair = s(i, j)) (hvalid : ∀ t ∈ ts, t.Valid) (hroom : RoomFor m ts)
    (hnil : ts ≠ []) :
    |(runningSum (ts.map (·.amountFrom i))).toRat - tally ts i j| + unit m / 2 ≤
      ts.length * unit m := by
  induction ts using List.reverseRecOn with
  | nil => exact absurd rfl hnil
  | append_singleton ts t ih =>
    have hunit := unit_pos m
    have hlast : t ∈ ts ++ [t] := by simp
    have hinit : ∀ u ∈ ts, u ∈ ts ++ [t] := fun u hu => List.mem_append_left _ hu
    have htally := abs_tally_le hvalid i j
    have hsmall : t.amount.toRat ≤ 10 ^ m := by
      linarith [Transaction.amount_le_sum hvalid hlast, hroom.sum_add_le hnil]
    have hamount :=
      abs_toRat_amountFrom_sub_le hplace hne (hpairs t hlast) (hvalid t hlast) hsmall
    rw [RoomFor] at hroom
    rw [List.map_append, List.map_singleton]
    rcases List.eq_nil_or_concat ts with rfl | ⟨us, u, rfl⟩
    · -- The first amount is taken as it is.
      simp only [List.nil_append, List.map_nil, tally_cons, tally_nil, add_zero,
        List.length_singleton, Nat.cast_one, one_mul]
      rw [show runningSum [t.amountFrom i] = t.amountFrom i from rfl]
      linarith
    · have hsum := ih (fun v hv => hpairs v (hinit v hv)) (fun v hv => hvalid v (hinit v hv))
        (RoomFor.of_sublist hroom (List.sublist_append_left _ _) hvalid) (by simp)
      rw [List.length_append, List.length_singleton] at hroom ⊢
      rw [tally_append, tally_cons, tally_nil, add_zero] at htally ⊢
      rw [Decimal.runningSum_append (by simp)]
      push_cast at hroom ⊢
      rw [add_mul, one_mul] at hroom ⊢
      exact abs_toRat_add_sub_le hplace hsum hamount (by linarith)

/-- So does the sum of two accounts that have transactions. -/
theorem abs_toRat_summed_sub_tally_le {ts : List Transaction} (hvalid : ∀ t ∈ ts, t.Valid)
    {i j : ℤ} (hne : i ≠ j) (hroom : RoomFor m (between ts i j)) (hnil : between ts i j ≠ []) :
    |(summed ts i j).toRat - tally ts i j| + unit m / 2 ≤ (between ts i j).length * unit m := by
  rw [summed, ← tally_between]
  exact abs_toRat_runningSum_sub_tally_le hplace hne (fun t ht => pair_of_mem_between ht)
    (fun t ht => hvalid t (List.mem_of_mem_filter ht)) hroom hnil

/-- It stays half a unit below the bound. -/
theorem abs_toRat_summed_add_le {ts : List Transaction} (hvalid : ∀ t ∈ ts, t.Valid)
    {i j : ℤ} (hne : i ≠ j) (hroom : RoomFor m (between ts i j)) (hnil : between ts i j ≠ []) :
    |(summed ts i j).toRat| + unit m / 2 ≤ 10 ^ m := by
  have hsum := abs_toRat_summed_sub_tally_le hplace hvalid hne hroom hnil
  have hvalid' : ∀ t ∈ between ts i j, t.Valid := fun t ht => hvalid t (List.mem_of_mem_filter ht)
  have htally := abs_tally_le hvalid' i j
  rw [tally_between] at htally
  rw [RoomFor] at hroom
  linarith [abs_sub_abs_le_abs_sub (summed ts i j).toRat (tally ts i j)]

/-! ## Balances of two accounts -/

variable (hlarge : (10 : ℚ) ^ m ≤ Decimal.bound)
include hlarge

/-- With room for the errors no sum is too large. -/
theorem nettable_of_roomFor {ts us : List Transaction} (hvalid : ∀ t ∈ ts ++ us, t.Valid)
    (hroom : RoomFor m (ts ++ us)) : Nettable ts us := by
  have hunit := unit_pos m
  induction us generalizing ts with
  | nil => trivial
  | cons u us ih =>
    rw [List.append_cons] at hvalid hroom
    have hinit : ∀ t ∈ ts ++ [u], t.Valid := fun t ht => hvalid t (List.mem_append_left us ht)
    have hu : u ∈ ts ++ [u] := List.mem_append_right ts (List.mem_singleton_self u)
    have hinitial : RoomFor m (ts ++ [u]) :=
      hroom.of_sublist (List.sublist_append_left _ us) hvalid
    refine ⟨⟨fun _ => ?_, fun _ => ?_⟩, ih hvalid hroom⟩
    · have hamount := (Transaction.amount_le_sum hinit hu).trans
        (le_sub_iff_add_le.mpr (hinitial.sum_add_le (List.ne_nil_of_mem hu)))
      have hsigned := abs_toRat_signed_sub_le hplace (hinit u hu) (by linarith)
      rw [InRange]
      linarith [abs_sub_abs_le_abs_sub u.signed.toRat u.signedValue,
        Transaction.abs_signedValue (hinit u hu)]
    · have hmem : u ∈ between (ts ++ [u]) u.sender u.recipient :=
        List.mem_filter.mpr ⟨hu, decide_eq_true rfl⟩
      have hsum := abs_toRat_summed_add_le hplace hinit (hinit u hu).parties_ne
        (hinitial.of_sublist List.filter_sublist hinit) (List.ne_nil_of_mem hmem)
      rw [InRange]
      linarith

/-- Rounded once more, a sum is still below the bound. -/
theorem inRange_round_summed {ts : List Transaction} (hvalid : ∀ t ∈ ts, t.Valid) {i j : ℤ}
    (hne : i ≠ j) (hroom : RoomFor m (between ts i j)) (hnil : between ts i j ≠ []) :
    InRange (summed ts i j).round.toRat := by
  have hunit := unit_pos m
  have hsum := abs_toRat_summed_add_le hplace hvalid hne hroom hnil
  rw [InRange]
  rcases toRat_round_summed_or ts i j with hround | ⟨t, hts, hrole⟩
  · rw [hround]
    linarith
  · -- A single payment is not rounded before, and has a whole unit free.
    have ht : t ∈ ts := List.mem_of_mem_filter (hts ▸ List.mem_singleton_self t)
    have habs : |(summed ts i j).toRat| = t.amount.toRat := by
      rw [summed, hts]
      change |(t.amountFrom i).toRat| = _
      unfold Transaction.amountFrom Transaction.signed
      rw [hrole]
      split
      · exact abs_of_nonneg (hvalid t ht).amount_nonneg
      · rw [Decimal.toRat_flip, abs_neg, abs_of_nonneg (hvalid t ht).amount_nonneg]
    have hfree := hroom.sum_add_le hnil
    rw [hts, List.map_singleton, List.sum_singleton] at hfree
    linarith [abs_toRat_round_sub_le_unit hplace (x := summed ts i j) (by linarith),
      abs_sub_abs_le_abs_sub (summed ts i j).round.toRat (summed ts i j).toRat]

/-- The balance of two accounts is off by a unit for each of their transactions at most. -/
theorem Running.abs_net_sub_tally_le {b : Balance} {ts : List Transaction} (h : Running b ts)
    (hvalid : ∀ t ∈ ts, t.Valid) {i j : ℤ} (hne : i ≠ j) (hroom : RoomFor m (between ts i j)) :
    ∃ x, b.net i j = .ok x ∧
      |x.toRat - tally ts i j| ≤ (between ts i j).length * unit m := by
  rcases eq_or_ne (between ts i j) [] with hnil | hnil
  · have hzero : (summed ts i j).round.toRat = 0 := by
      rw [summed_of_between_eq_nil hnil, ← Decimal.toRat_zero]
      exact Decimal.toRat_round_of_isShort (Decimal.isShort_of_toRat_eq_zero Decimal.toRat_zero)
    obtain ⟨x, hx, hvalue⟩ := h.exists_net hne (hzero ▸ Decimal.inRange_zero)
    rw [hzero, summed_of_between_eq_nil hnil, Decimal.toRat_zero, or_self] at hvalue
    refine ⟨x, hx, ?_⟩
    rw [hvalue, ← tally_between, hnil]
    simp
  · have hsum := abs_toRat_summed_sub_tally_le hplace hvalid hne hroom hnil
    have hbelow := abs_toRat_summed_add_le hplace hvalid hne hroom hnil
    obtain ⟨x, hx, hvalue⟩ :=
      h.exists_net hne (inRange_round_summed hplace hlarge hvalid hne hroom hnil)
    refine ⟨x, hx, ?_⟩
    rcases hvalue with hvalue | hvalue
    · rw [hvalue]
      linarith [unit_pos m]
    · -- The half unit that is left is for the last rounding.
      rw [hvalue]
      linarith [abs_sub_le (summed ts i j).round.toRat (summed ts i j).toRat (tally ts i j),
        abs_toRat_round_sub_le_unit hplace (x := summed ts i j) (by linarith [unit_pos m])]

end

/-- However long the amounts of some invoices and payments are: with a unit of room for each of
them, netting gives every two accounts the exact sum of what they sent each other, each with its
sign, but for a unit for each of the transactions. -/
theorem abs_net_ofTransactions_sub_tally_le {m : ℤ} (hm : -999998 ≤ m ∧ m ≤ 1000000)
    {invoices payments : List Transaction} (hvalid : ∀ t ∈ invoices ++ payments, t.Valid)
    (hroom : ((invoices ++ payments).map (·.amount.toRat)).sum +
      (invoices ++ payments).length * 10 ^ (m - 28) ≤ (10 : ℚ) ^ m) :
    ∃ b, ofTransactions invoices payments = .ok b ∧ ∀ i j : ℤ, ∃ x, b.net i j = .ok x ∧
      |x.toRat - tally (invoices ++ payments) i j| ≤
        (invoices ++ payments).length * 10 ^ (m - 28) := by
  set ts := invoices ++ payments with hts
  have hplace : finestPlace ≤ m - precision := by
    rw [finestPlace, precision]
    omega
  have hlarge : (10 : ℚ) ^ m ≤ Decimal.bound :=
    zpow_le_zpow_right₀ (by norm_num) (by rw [Decimal.largestPower]; omega)
  have hunits : 0 ≤ ts.length * unit m := mul_nonneg (Nat.cast_nonneg _) (unit_pos m).le
  have hparties : ∀ t ∈ ts, t.sender ≠ t.recipient := fun t ht => (hvalid t ht).parties_ne
  obtain ⟨b, hall⟩ := (exists_addAll_iff hparties).mpr
    (nettable_of_roomFor hplace hlarge hvalid hroom)
  have hrunning := Running.of_addAll hparties hall
  refine ⟨b, hall, fun i j => ?_⟩
  rcases eq_or_ne i j with rfl | hne
  · refine ⟨_, hrunning.net_self i, ?_⟩
    rw [tally_self hvalid, Decimal.toRat_zero, sub_zero, abs_zero]
    exact hunits
  · have hbetween : (between ts i j).Sublist ts := List.filter_sublist
    obtain ⟨x, hx, herror⟩ := hrunning.abs_net_sub_tally_le hplace hlarge hvalid hne
      (RoomFor.of_sublist hroom hbetween hvalid)
    refine ⟨x, hx, herror.trans ?_⟩
    exact mul_le_mul_of_nonneg_right (by exact_mod_cast hbetween.length_le) (unit_pos m).le

/-- A third, written with more digits than are kept. -/
def longThird : Decimal := ⟨false, 33333333333333333333333333333333, -32⟩

/-- A bill for a third. -/
def thirdInvoice : List Transaction := [⟨0, 1, longThird, septemberFirst, "rent", .invoice⟩]

/-- A third paid in the other direction. -/
def thirdPayment : List Transaction := [⟨1, 0, longThird, septemberFirst, "rent", .payment⟩]

theorem abs_net_ofTransactions_thirds :
    (∀ t ∈ thirdInvoice ++ thirdPayment, t.Valid) ∧
      ((thirdInvoice ++ thirdPayment).map (·.amount.toRat)).sum +
        (thirdInvoice ++ thirdPayment).length * 10 ^ ((0 : ℤ) - 28) ≤ (10 : ℚ) ^ (0 : ℤ) ∧
      ∃ b x, ofTransactions thirdInvoice thirdPayment = .ok b ∧ b.net 0 1 = .ok x ∧
        |x.toRat - -2 * longThird.toRat| ≤ 2 / 10 ^ 28 := by
  have hvalid : ∀ t ∈ thirdInvoice ++ thirdPayment, t.Valid := by
    simp only [thirdInvoice, thirdPayment, List.singleton_append, List.forall_mem_cons]
    exact ⟨⟨by decide, Decimal.toRat_nonneg_of_not_negative rfl⟩,
      ⟨by decide, Decimal.toRat_nonneg_of_not_negative rfl⟩, by simp⟩
  have hroom : ((thirdInvoice ++ thirdPayment).map (·.amount.toRat)).sum +
      (thirdInvoice ++ thirdPayment).length * 10 ^ ((0 : ℤ) - 28) ≤ (10 : ℚ) ^ (0 : ℤ) := by
    norm_num [thirdInvoice, thirdPayment, longThird, Decimal.toRat, Decimal.signed]
  obtain ⟨b, hb, hnet⟩ := abs_net_ofTransactions_sub_tally_le (by norm_num) hvalid hroom
  have htally : tally (thirdInvoice ++ thirdPayment) 0 1 = -2 * longThird.toRat := by
    simp only [thirdInvoice, thirdPayment, List.singleton_append, tally_cons, tally_nil,
      Transaction.contribution, Transaction.signedValue]
    norm_num
    ring
  obtain ⟨x, hx, herror⟩ := hnet 0 1
  refine ⟨hvalid, hroom, b, x, hb, hx, ?_⟩
  rw [← htally]
  refine herror.trans (le_of_eq ?_)
  norm_num [thirdInvoice, thirdPayment]

/-- Of a bill below the finest place more is dropped than a unit of its size. -/
theorem exists_unit_lt_abs_net_sub_tally :
    (∀ t ∈ tinyInvoice, t.Valid) ∧
      (tinyInvoice.map (·.amount.toRat)).sum + tinyInvoice.length * 10 ^ ((-1000030 : ℤ) - 28) ≤
        (10 : ℚ) ^ (-1000030 : ℤ) ∧
      ∃ b x, ofTransactions tinyInvoice [] = .ok b ∧ b.net 0 1 = .ok x ∧
        tinyInvoice.length * 10 ^ ((-1000030 : ℤ) - 28) < |x.toRat - tally tinyInvoice 0 1| := by
  have hsmall : (10 : ℚ) ^ ((-1000030 : ℤ) - 28) < 10 ^ (-1000031 : ℤ) :=
    zpow_lt_zpow_right₀ (by norm_num) (by norm_num)
  have hten : (10 : ℚ) ^ (-1000030 : ℤ) = 10 ^ (1 : ℤ) * 10 ^ (-1000031 : ℤ) :=
    (congrArg ((10 : ℚ) ^ ·) (by norm_num : (-1000030 : ℤ) = 1 + -1000031)).trans
      (Decimal.ten_zpow_add ..)
  have hpos := Decimal.ten_zpow_pos (-1000031)
  refine ⟨valid_tinyInvoice, ?_, _, _, addAll_tinyInvoice, rfl, ?_⟩
  · rw [tinyInvoice, List.map_singleton, List.sum_singleton, List.length_singleton, Nat.cast_one,
      one_mul, toRat_tinyAmount, hten]
    linarith
  · have htally : tally tinyInvoice 0 1 = -10 ^ (-1000031 : ℤ) := by
      rw [tinyInvoice, tally_cons, tally_nil, add_zero, Transaction.contribution, if_pos ⟨rfl, rfl⟩,
        ← toRat_tinyAmount]
      rfl
    rw [htally, (Decimal.toRat_eq_zero_iff _).mpr rfl, zero_sub, neg_neg, abs_of_pos hpos]
    rw [tinyInvoice, List.length_singleton, Nat.cast_one, one_mul]
    exact hsmall

end Balance

end HouseLedger
