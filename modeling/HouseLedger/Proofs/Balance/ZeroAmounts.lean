import HouseLedger.Proofs.Balance.Netting

/-!
# Transactions of no amount

A transaction of no amount adds a zero to the balance of its pair. That rounds the balance to
`Decimal.precision` digits, and does nothing else. All balances but one kind are rounded anyway:
a payment that opens an entry is stored with all its digits, however many these are and however
far behind the point. So of transactions with zero amounts put in anywhere (`Inserts`) two accounts
have the balance that they have without (`Balance.net_inserted`), unless the first transaction
between them is a payment that is not short, and a zero comes before the second; then that payment
is rounded.

The pair of a payment of thirty digits and nothing else shows it
(`Balance.exists_net_ne_of_inserted`).
-/

namespace HouseLedger

/-! ## Insertions -/

/-- The second list is the first one with elements of a kind put in anywhere. -/
inductive Inserts {α : Type} (P : α → Prop) : List α → List α → Prop
  | nil : Inserts P [] []
  | keep (x : α) {xs ys : List α} : Inserts P xs ys → Inserts P (x :: xs) (x :: ys)
  | insert {y : α} {xs ys : List α} : P y → Inserts P xs ys → Inserts P xs (y :: ys)

namespace Inserts

variable {α β : Type} {P : α → Prop} {xs ys : List α}

theorem filter (h : Inserts P xs ys) (p : α → Bool) : Inserts P (xs.filter p) (ys.filter p) := by
  induction h with
  | nil => exact .nil
  | keep x _ ih =>
    cases hx : p x with
    | true => simpa [hx] using ih.keep x
    | false => simpa [hx] using ih
  | @insert y _ _ hy _ ih =>
    cases hp : p y with
    | true => simpa [hp] using ih.insert hy
    | false => simpa [hp] using ih

theorem map {Q : β → Prop} {f : α → β} (h : Inserts P xs ys) (hPQ : ∀ x, P x → Q (f x)) :
    Inserts Q (xs.map f) (ys.map f) := by
  induction h with
  | nil => exact .nil
  | keep x _ ih => exact ih.keep (f x)
  | insert hy _ ih => exact ih.insert (hPQ _ hy)

theorem mem_or (h : Inserts P xs ys) {y : α} (hy : y ∈ ys) : y ∈ xs ∨ P y := by
  induction h with
  | nil => exact .inl hy
  | keep x _ ih =>
    rcases List.mem_cons.mp hy with rfl | hy
    · exact .inl List.mem_cons_self
    · exact (ih hy).imp_left (List.mem_cons_of_mem x)
  | insert hP _ ih =>
    rcases List.mem_cons.mp hy with rfl | hy
    · exact .inr hP
    · exact ih hy

theorem length_le (h : Inserts P xs ys) : xs.length ≤ ys.length := by
  induction h with
  | nil => exact le_rfl
  | keep x _ ih => exact Nat.succ_le_succ ih
  | insert _ _ ih => exact ih.trans (Nat.le_succ _)

theorem eq_or_length_lt (h : Inserts P xs ys) : ys = xs ∨ xs.length < ys.length := by
  induction h with
  | nil => exact .inl rfl
  | keep x _ ih => exact ih.imp (congrArg (x :: ·)) Nat.succ_lt_succ
  | insert _ h _ => exact .inr (Nat.lt_succ_of_le h.length_le)

/-- What begins with another element has something put in there. -/
theorem length_lt_of_head_ne {x y : α} (h : Inserts P (x :: xs) (y :: ys)) (hne : x ≠ y) :
    xs.length < ys.length := by
  cases h with
  | keep _ _ => exact absurd rfl hne
  | insert _ h => exact h.length_le

end Inserts

namespace Decimal

/-! ## Sums -/

variable {xs ys : List Decimal}

/-- Once a sum is short, zeros that are added to it do not matter. -/
theorem toRat_foldl_add_inserted (h : Inserts (fun z : Decimal => z.toRat = 0) xs ys)
    {a b : Decimal} (hab : b.toRat = a.toRat) (hshort : a.IsShort) :
    (ys.foldl (· + ·) b).toRat = (xs.foldl (· + ·) a).toRat := by
  induction h generalizing a b with
  | nil => exact hab
  | keep x _ ih => exact ih (toRat_add_congr hab rfl) (isShort_add a x)
  | insert hz _ ih =>
    refine ih ?_ hshort
    rw [toRat_add_of_eq_zero _ hz, toRat_round_congr hab, toRat_round_eq_iff.mpr hshort]

/-- Only the value that a sum begins with matters. -/
theorem toRat_foldl_add_start (xs : List Decimal) {a b : Decimal} (hab : a.toRat = b.toRat) :
    (xs.foldl (· + ·) a).toRat = (xs.foldl (· + ·) b).toRat :=
  toRat_foldl_add_congr (List.forall₂_same.mpr fun _ _ => rfl) hab

/-- A zero in front of a sum, or behind its first summand, rounds that summand. -/
theorem toRat_runningSum_inserted {α : Type} {P : α → Prop} {f : α → Decimal}
    (hP : ∀ z, P z → (f z).toRat = 0) {xs ys : List α} (h : Inserts P xs ys) :
    ys = xs ∨
      (runningSum (xs.map f)).IsShort ∧
        (runningSum (ys.map f)).toRat = (runningSum (xs.map f)).toRat ∨
      ∃ x rest z more, xs = x :: rest ∧ ¬ (f x).IsShort ∧ P z ∧
        (ys = z :: more ∨ ys = x :: z :: more) ∧
        (runningSum (ys.map f)).toRat = (runningSum ((f x).round :: rest.map f)).toRat := by
  have hmap {xs ys : List α} (h : Inserts P xs ys) :
      Inserts (fun z : Decimal => z.toRat = 0) (xs.map f) (ys.map f) := h.map hP
  cases h with
  | nil => exact .inl rfl
  | @keep x rest _ h =>
    by_cases hshort : (f x).IsShort
    · refine .inr (.inl ⟨isShort_runningSum ?_, toRat_foldl_add_inserted (hmap h) rfl hshort⟩)
      simpa using hshort
    · cases h with
      | nil => exact .inl rfl
      | @keep y _ _ h =>
        refine .inr (.inl ⟨toRat_round_eq_iff.mp ?_,
          toRat_foldl_add_inserted (hmap h) rfl (isShort_add _ _)⟩)
        rw [round_runningSum (by simp)]
      | @insert z _ more hz h =>
        exact .inr (.inr ⟨x, rest, z, more, rfl, hshort, hz, .inr rfl,
          toRat_foldl_add_inserted (hmap h) (toRat_add_of_eq_zero _ (hP z hz)) (isShort_round _)⟩)
  | @insert z _ more hz h =>
    -- The sum begins with a zero, to which the first summand is added.
    have hzero : (f z).toRat = zero.toRat := (hP z hz).trans toRat_zero.symm
    have hshort : zero.IsShort := isShort_of_toRat_eq_zero toRat_zero
    have hsum : (runningSum ((z :: more).map f)).toRat = ((xs.map f).foldl (· + ·) zero).toRat :=
      toRat_foldl_add_inserted (hmap h) hzero hshort
    match xs with
    | [] => exact .inr (.inl ⟨hshort, hsum⟩)
    | x :: rest =>
      have hround : (zero + f x).toRat = (f x).round.toRat := by
        rw [toRat_add_comm, toRat_add_of_eq_zero _ toRat_zero]
      have hsum' : (runningSum ((z :: more).map f)).toRat =
          (runningSum ((f x).round :: rest.map f)).toRat := by
        rw [hsum, List.map_cons, List.foldl_cons, toRat_foldl_add_start _ hround, runningSum]
      by_cases hx : (f x).IsShort
      · refine .inr (.inl ⟨isShort_runningSum (by simpa using hx), ?_⟩)
        rw [hsum', List.map_cons, runningSum, runningSum,
          toRat_foldl_add_start _ (toRat_round_eq_iff.mpr hx)]
      · exact .inr (.inr ⟨x, rest, z, more, rfl, hx, hz, .inl rfl, hsum'⟩)

end Decimal

/-! ## Balances -/

/-- A transaction of no amount, however that is written. -/
def Transaction.IsVoid (t : Transaction) : Prop := t.Valid ∧ t.amount.toRat = 0

theorem Transaction.IsVoid.toRat_amountFrom {t : Transaction} (h : t.IsVoid) (i : ℤ) :
    (t.amountFrom i).toRat = 0 := by
  have hsigned : t.signed.toRat = 0 := by
    have hshort : t.amount.IsShort := Decimal.isShort_of_toRat_eq_zero h.2
    unfold signed
    cases t.role with
    | invoice => rw [hshort.toRat_neg, h.2, neg_zero]
    | payment => exact h.2
  unfold amountFrom
  split
  · exact hsigned
  · rw [Decimal.toRat_flip, hsigned, neg_zero]

namespace Balance

open Decimal (runningSum InRange)
open Transaction (IsVoid)

variable {ts us : List Transaction}

/-- Voids add nothing to the amounts. -/
theorem sum_amounts_inserted (h : Inserts IsVoid ts us) :
    (us.map (·.amount.toRat)).sum = (ts.map (·.amount.toRat)).sum := by
  induction h with
  | nil => rfl
  | keep t _ ih => rw [List.map_cons, List.sum_cons, ih, List.map_cons, List.sum_cons]
  | insert hz _ ih => rw [List.map_cons, List.sum_cons, hz.2, ih, zero_add]

/-- Of the transactions between two accounts the first is a payment that is not short, and with
others put in a void one comes before the second. -/
structure Shortens (ts us : List Transaction) (i j : ℤ) (t : Transaction)
    (rest : List Transaction) : Prop where
  between_eq : between ts i j = t :: rest
  role_eq : t.role = .payment
  not_isShort : ¬ t.amount.IsShort
  exists_void : ∃ z more, z.IsVoid ∧ (between us i j = z :: more ∨ between us i j = t :: z :: more)

/-- Where voids do not matter to a sum that is short, they do not matter to its balance. A sum that
has a void more was computed, so that it is in range. -/
theorem Running.map_net_inserted_of_isShort {b b' : Balance} (hb : Running b ts)
    (hb' : Running b' us) (hus : Nettable [] us) {i j : ℤ} (hne : i ≠ j)
    (h : Inserts IsVoid (between ts i j) (between us i j)) (hshort : (summed ts i j).IsShort)
    (hsum : (summed us i j).toRat = (summed ts i j).toRat) :
    (b'.net i j).map Decimal.toRat = (b.net i j).map Decimal.toRat := by
  rcases h.eq_or_length_lt with heq | hlength
  · rw [hb.map_net hne, hb'.map_net hne, summed, summed, heq]
  · have hrange : InRange (summed ts i j).toRat := by
      rcases Nat.eq_zero_or_pos (between ts i j).length with hnone | hsome
      · rw [summed_of_between_eq_nil (List.length_eq_zero_iff.mp hnone), Decimal.toRat_zero]
        exact Decimal.inRange_zero
      · exact hsum ▸ inRange_summed hus hne (by omega)
    have hshort' := (Decimal.isShort_congr hsum).mpr hshort
    rw [hb.map_net_of_isShort hne hshort hrange,
      hb'.map_net_of_isShort hne hshort' (hsum ▸ hrange), hsum]

/-- With void transactions put in, the balance of two accounts is what it is without, or what it
is with their first payment rounded. -/
theorem Running.map_net_inserted {b b' : Balance} (hb : Running b ts) (hb' : Running b' us)
    (hus : Nettable [] us) (h : Inserts IsVoid ts us) (i j : ℤ) :
    (b'.net i j).map Decimal.toRat = (b.net i j).map Decimal.toRat ∨
      ∃ t rest, Shortens ts us i j t rest ∧ (b'.net i j).map Decimal.toRat =
        .ok (runningSum ((t.amountFrom i).round :: rest.map (·.amountFrom i))).toRat := by
  by_cases hne : i = j
  · exact .inl (by rw [hne, hb.net_self, hb'.net_self])
  · have hbetween : Inserts IsVoid (between ts i j) (between us i j) := h.filter _
    rcases Decimal.toRat_runningSum_inserted (f := fun t => t.amountFrom i)
      (fun _ hz => hz.toRat_amountFrom i) hbetween with
      hsame | ⟨hshort, hsum⟩ | ⟨t, rest, z, more, hts, hlong, hz, hmore, hsum⟩
    · exact .inl (by rw [hb.map_net hne, hb'.map_net hne, summed, summed, hsame])
    · exact .inl (hb.map_net_inserted_of_isShort hb' hus hne hbetween hshort hsum)
    · obtain ⟨hrole, hamount⟩ : t.role = .payment ∧ ¬ t.amount.IsShort :=
        Classical.not_imp.mp (mt (fun h => Transaction.isShort_amountFrom h i) hlong)
      have hlength : 2 ≤ (between us i j).length := by
        have hkept := hbetween.length_le
        rcases hmore with hmore | hmore
        · -- The void in front is not the payment, so that there is more behind it.
          rw [hmore, hts] at hbetween
          have hnot : z ≠ t := fun heq =>
            hamount (Decimal.isShort_of_toRat_eq_zero (heq ▸ hz.2))
          have := hbetween.length_lt_of_head_ne hnot.symm
          rw [hmore]
          simp only [List.length_cons] at this ⊢
          omega
        · rw [hmore]
          simp
      exact .inr ⟨t, rest, ⟨hts, hrole, hamount, z, more, hz, hmore⟩,
        (hb'.map_net_of_two hus hne hlength).trans (congrArg Except.ok hsum)⟩

/-- Void transactions may be put in anywhere. Each of the two lists can be booked unless it comes to
a number that is too large, and both can be if all amounts together are below a quarter of that.
The balance of any two accounts is the same, unless the first transaction between the two is a
payment that is not short, and a void one comes before the second: then the balance is that with
the payment rounded. -/
theorem net_inserted (h : Inserts IsVoid ts us) (hvalid : ∀ t ∈ ts, t.Valid) :
    Outcome.FailsIff .overflow (¬ Nettable [] ts) (empty.addAll ts) ∧
      Outcome.FailsIff .overflow (¬ Nettable [] us) (empty.addAll us) ∧
      (4 * (ts.map (·.amount.toRat)).sum < Decimal.bound →
        (∃ b, empty.addAll ts = .ok b) ∧ ∃ b', empty.addAll us = .ok b') ∧
      ∀ b b', empty.addAll ts = .ok b → empty.addAll us = .ok b' → ∀ i j,
        (b'.net i j).map Decimal.toRat = (b.net i j).map Decimal.toRat ∨
          ∃ t rest, Shortens ts us i j t rest ∧ (b'.net i j).map Decimal.toRat =
            .ok (runningSum ((t.amountFrom i).round :: rest.map (·.amountFrom i))).toRat := by
  have hvalid' : ∀ u ∈ us, u.Valid := fun u hu => (h.mem_or hu).elim (hvalid u) And.left
  have hne : ∀ t ∈ ts, t.sender ≠ t.recipient := fun t ht => (hvalid t ht).parties_ne
  have hne' : ∀ t ∈ us, t.sender ≠ t.recipient := fun t ht => (hvalid' t ht).parties_ne
  refine ⟨failsIff_addAll hne, failsIff_addAll hne', fun hsmall => ?_, fun b b' hall hall' => ?_⟩
  · have hsmall' := hsmall
    rw [← Transaction.sum_abs_amounts hvalid] at hsmall
    rw [← sum_amounts_inserted h, ← Transaction.sum_abs_amounts hvalid'] at hsmall'
    exact ⟨(exists_addAll_iff hne).mpr (nettable_of_small hsmall),
      (exists_addAll_iff hne').mpr (nettable_of_small hsmall')⟩
  · exact (Running.of_addAll hne hall).map_net_inserted (Running.of_addAll hne' hall')
      ((exists_addAll_iff hne').mp ⟨b', hall'⟩) h

/-- A payment of almost half a cent, written with thirty digits, and a share of the rent. -/
def coffeeTransactions : List Transaction :=
  [⟨0, 1, ⟨false, 499999999999999999999999999999, -32⟩, septemberFirst, "coffee", .payment⟩,
    ⟨0, 2, (Decimal.mk false 1000 (-2)).share 3, septemberFirst, "rent", .invoice⟩]

/-- The same with a void invoice in front and a void payment behind. -/
def coffeeWithVoids : List Transaction :=
  ⟨2, 0, ⟨false, 0, -40⟩, septemberFirst, "nothing", .invoice⟩ ::
    (coffeeTransactions ++ [⟨0, 1, ⟨false, 0, -2⟩, septemberFirst, "nothing", .payment⟩])

theorem inserts_coffeeWithVoids : Inserts IsVoid coffeeTransactions coffeeWithVoids := by
  have hvoid (t : Transaction) (hne : t.sender ≠ t.recipient) (hzero : t.amount.coefficient = 0) :
      t.IsVoid := by
    have hzero := (Decimal.toRat_eq_zero_iff t.amount).mpr hzero
    exact ⟨⟨hne, hzero.ge⟩, hzero⟩
  exact .insert (hvoid _ (by decide) rfl)
    (.keep _ (.keep _ (.insert (hvoid _ (by decide) rfl) .nil)))

theorem valid_coffeeTransactions : ∀ t ∈ coffeeTransactions, t.Valid := by
  simp only [coffeeTransactions, List.forall_mem_cons]
  exact ⟨⟨by decide, Decimal.toRat_nonneg_of_not_negative rfl⟩,
    ⟨by decide, Decimal.toRat_nonneg_of_not_negative (by decide)⟩, by simp⟩

/-- The two are stored with all their digits. -/
theorem addAll_coffeeTransactions : empty.addAll coffeeTransactions =
    .ok ⟨[⟨0, 1, ⟨false, 499999999999999999999999999999, -32⟩⟩,
      ⟨0, 2, ⟨true, 3333333333333333333333333333, -27⟩⟩]⟩ :=
  Outcome.toOption_eq_some.mp (by decide +kernel)

theorem net_inserted_rent :
    Inserts IsVoid coffeeTransactions coffeeWithVoids ∧ (∀ t ∈ coffeeTransactions, t.Valid) ∧
      4 * (coffeeTransactions.map (·.amount.toRat)).sum < Decimal.bound ∧
      ∃ b b' x', empty.addAll coffeeTransactions = .ok b ∧ empty.addAll coffeeWithVoids = .ok b' ∧
        b.net 0 2 = .ok ⟨true, 3333333333333333333333333333, -27⟩ ∧ b'.net 0 2 = .ok x' ∧
        x'.toRat = -3333333333333333333333333333 / 10 ^ 27 := by
  have hsmall : 4 * (coffeeTransactions.map (·.amount.toRat)).sum < Decimal.bound := by
    have hshare : (Decimal.mk false 1000 (-2)).share 3 =
        ⟨false, 3333333333333333333333333333, -27⟩ := by decide
    refine lt_of_le_of_lt ?_ Decimal.ten_pow_lt_bound
    norm_num [coffeeTransactions, hshare, Decimal.toRat, Decimal.signed]
  obtain ⟨-, -, hruns, hnets⟩ := net_inserted inserts_coffeeWithVoids valid_coffeeTransactions
  obtain ⟨-, b', hall'⟩ := hruns hsmall
  have hnet := (hnets _ b' addAll_coffeeTransactions hall' 0 2).resolve_right ?_
  · obtain ⟨x', hx', hvalue⟩ := Outcome.map_eq_ok.mp hnet
    refine ⟨inserts_coffeeWithVoids, valid_coffeeTransactions, hsmall, _, b', x',
      addAll_coffeeTransactions, hall', rfl, hx', hvalue.trans ?_⟩
    norm_num [Decimal.toRat, Decimal.signed]
  · rintro ⟨t, rest, hshortens, -⟩
    -- What is between the two is an invoice.
    have hfirst : (between coffeeTransactions 0 2).head?.map (·.role) = some .invoice := by decide
    rw [hshortens.between_eq, List.head?_cons, Option.map_some, hshortens.role_eq] at hfirst
    cases hfirst

/-- A void payment turns almost half a cent into half a cent. -/
theorem exists_net_ne_of_inserted :
    ∃ b b' x x', Inserts IsVoid coffeeTransactions coffeeWithVoids ∧
      (∀ t ∈ coffeeTransactions, t.Valid) ∧ empty.addAll coffeeTransactions = .ok b ∧
      empty.addAll coffeeWithVoids = .ok b' ∧ b.net 0 1 = .ok x ∧ b'.net 0 1 = .ok x' ∧
      x'.toRat ≠ x.toRat := by
  have hwith : (empty.addAll coffeeWithVoids).toOption.bind (·.net 0 1 |>.toOption) =
      some ⟨false, 5000000000000000000000000000, -30⟩ := by decide +kernel
  obtain ⟨b', hall', hnet'⟩ := Option.bind_eq_some_iff.mp hwith
  refine ⟨_, b', ⟨false, 499999999999999999999999999999, -32⟩, _, inserts_coffeeWithVoids,
    valid_coffeeTransactions, addAll_coffeeTransactions, Outcome.toOption_eq_some.mp hall', rfl,
    Outcome.toOption_eq_some.mp hnet', ne_of_gt ?_⟩
  rw [← Decimal.lt_iff_toRat_lt]
  decide

end Balance

end HouseLedger
