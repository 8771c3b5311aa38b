import HouseLedger.Proofs.Statement.Sections

/-!
# Debts of all accounts

Every entry of a balance stands in the lists of both its accounts, and leaves the same debt in
both. So the lists of all accounts fit together (`Statement.outstanding_mutual`):

* a debt between two accounts is in the list of one exactly if it is in the list of the other;
* a list is in the order of the balances, has at most one debt with each other account, and each
  debt is of a cent at least (`Balance.Lists`);
* what all accounts are owed on the whole comes to zero, for each debt is counted once for its
  creditor and once against its debtor (`Balance.sum_credit_entriesFor`). A sum is exact here, and
  computed at all, as long as the debts of one account do not exceed `Decimal.precision` digits
  (`Statement.exists_netOf`).
-/

namespace HouseLedger

open Outcome
open Decimal (nearestCents HasPlaces Fits)

/-! ## Debts of a claim -/

namespace Debt

/-- What a debt comes to for one of its accounts: above zero for the creditor. -/
def credit (i : ℤ) (d : Debt) : ℚ :=
  if d.creditor = i then d.amount.toRat else -d.amount.toRat

variable {i j : ℤ} {x : ℚ} {d : Debt}

theorem sides_of_ofClaim (h : ofClaim i j x = some d) :
    d.debtor = i ∧ d.creditor = j ∨ d.debtor = j ∧ d.creditor = i := by
  unfold ofClaim at h
  split at h
  · cases h
  · cases h
    by_cases hx : 0 < x
    · exact .inl ⟨if_pos hx, if_pos hx⟩
    · exact .inr ⟨if_neg hx, if_neg hx⟩

theorem amount_of_ofClaim (h : ofClaim i j x = some d) :
    ∃ n, 0 < n ∧ d.amount = ⟨false, n, Decimal.centExponent⟩ := by
  unfold ofClaim at h
  split at h
  · cases h
  · next hcents =>
    cases h
    exact ⟨_, Int.natAbs_pos.mpr hcents, rfl⟩

/-- The debt of a claim is a whole number of cents, and not of none. -/
theorem toRat_amount_of_ofClaim (h : ofClaim i j x = some d) :
    1 / 100 ≤ d.amount.toRat ∧ HasPlaces 2 d.amount.toRat := by
  obtain ⟨n, hn, hamount⟩ := amount_of_ofClaim h
  have hvalue : d.amount.toRat = n * 10 ^ (-2 : ℤ) := by
    rw [hamount, Decimal.toRat_of_not_negative rfl]
    rfl
  have hone : (1 : ℚ) ≤ n := by exact_mod_cast hn
  refine ⟨?_, n, by rw [hvalue]; rfl⟩
  calc (1 / 100 : ℚ) = 1 * 10 ^ (-2 : ℤ) := by norm_num
    _ ≤ n * 10 ^ (-2 : ℤ) := by gcongr
    _ = d.amount.toRat := hvalue.symm

end Debt

/-! ## Entries -/

namespace Entry

/-- What an entry comes to for one of its accounts, to the cent. -/
def credit (e : Entry) (i : ℤ) : ℚ := (e.claim.toList.map (Debt.credit i)).sum

/-- What an entry leaves is owed to the one account as much as by the other. -/
theorem credit_add {e : Entry} (hne : e.sender ≠ e.recipient) :
    e.credit e.sender + e.credit e.recipient = 0 := by
  unfold credit
  cases hclaim : e.claim with
  | none => simp
  | some d =>
    rcases Debt.sides_of_ofClaim hclaim with ⟨-, hcreditor⟩ | ⟨-, hcreditor⟩
    · simp [Debt.credit, hcreditor, hne.symm]
    · simp [Debt.credit, hcreditor, hne]

theorem involves_iff (e : Entry) (i : ℤ) :
    e.involves i = true ↔ i = e.sender ∨ i = e.recipient := by
  simp [involves]

end Entry

/-! ## The debts of one account -/

namespace Balance

/-- The debts that a balance leaves to one account. -/
structure Lists (b : Balance) (i : ℤ) (ds : List Debt) : Prop where
  /-- They are what the entries of the account leave, in the order of their balances. -/
  ordered : ∃ es, StableSort (fun e : Entry => e.balance.toRat) (b.entriesFor i) es ∧
    ds = es.filterMap Entry.claim
  /-- There is at most one with each other account. -/
  unique : ∀ j, (ds.filter (Debt.isBetween i j)).length ≤ 1
  /-- None is of less than a cent. -/
  amount_ge : ∀ d ∈ ds, 1 / 100 ≤ d.amount.toRat
  /-- The account is one side of each, and not both. -/
  side : ∀ d ∈ ds, d.debtor = i ∧ d.creditor ≠ i ∨ d.debtor ≠ i ∧ d.creditor = i

variable {b : Balance} {i : ℤ} {ds : List Debt}

theorem Lists.mem_iff (h : b.Lists i ds) {d : Debt} :
    d ∈ ds ↔ ∃ e ∈ b.entries, (i = e.sender ∨ i = e.recipient) ∧ e.claim = some d := by
  obtain ⟨es, hsort, rfl⟩ := h.ordered
  simp only [List.mem_filterMap, hsort.perm.mem_iff, entriesFor, List.mem_filter,
    Entry.involves_iff, and_assoc]

theorem Lists.cents (h : b.Lists i ds) :
    ∀ d ∈ ds, 0 ≤ d.amount.toRat ∧ HasPlaces 2 d.amount.toRat := by
  intro d hd
  obtain ⟨e, -, -, hclaim⟩ := h.mem_iff.mp hd
  obtain ⟨hcent, hplaces⟩ := Debt.toRat_amount_of_ofClaim hclaim
  exact ⟨by linarith, hplaces⟩

/-- An entry leaves the same debt in the lists of both its accounts. -/
theorem Lists.mem_iff_mem {j : ℤ} {ds' : List Debt} (h : b.Lists i ds) (h' : b.Lists j ds')
    {d : Debt} (hd : d.isBetween i j = true) : d ∈ ds ↔ d ∈ ds' := by
  rw [h.mem_iff, h'.mem_iff]
  refine exists_congr fun e => and_congr_right fun _ => and_congr_left fun hclaim => ?_
  have hpair := (Debt.isBetween_of_ofClaim hclaim).mp hd
  rcases (e.pair_eq_iff i j).mp hpair with ⟨hs, hr⟩ | ⟨hs, hr⟩
  · exact iff_of_true (.inl hs.symm) (.inr hr.symm)
  · exact iff_of_true (.inr hr.symm) (.inl hs.symm)

theorem WellFormed.lists_debtsOf (wf : b.WellFormed)
    (hsmall : ∀ e ∈ b.entries, |e.balance.toRat| < 10 ^ 26 - 1 / 200) (i : ℤ) :
    ∃ ds, b.debtsOf i = .ok ds ∧ b.Lists i ds := by
  obtain ⟨es, hsort, hdebts⟩ := debtsOf_eq i fun e he => hsmall e (List.mem_of_mem_filter he)
  have hclaims : ∀ d ∈ es.filterMap Entry.claim, ∃ e ∈ b.entries,
      (i = e.sender ∨ i = e.recipient) ∧ e.claim = some d := by
    intro d hd
    obtain ⟨e, he, hclaim⟩ := List.mem_filterMap.mp hd
    obtain ⟨he, hi⟩ := List.mem_filter.mp (hsort.perm.mem_iff.mp he)
    exact ⟨e, he, (e.involves_iff i).mp hi, hclaim⟩
  refine ⟨_, hdebts, ⟨es, hsort, rfl⟩, fun j => ?_, fun d hd => ?_, fun d hd => ?_⟩
  · rw [filter_claims]
    refine (List.length_filterMap_le _ _).trans ?_
    rcases wf.filter_pair (j := j) hsort.perm with ⟨e, -, -, heq⟩ | ⟨-, heq⟩
    · rw [heq, List.length_singleton]
    · rw [heq, List.length_nil]
      exact Nat.zero_le 1
  · obtain ⟨e, -, -, hclaim⟩ := hclaims d hd
    exact (Debt.toRat_amount_of_ofClaim hclaim).1
  · obtain ⟨e, he, hi, hclaim⟩ := hclaims d hd
    have hne := wf.proper e he
    rcases Debt.sides_of_ofClaim hclaim with ⟨hd₁, hd₂⟩ | ⟨hd₁, hd₂⟩
    · rw [hd₁, hd₂]
      rcases hi with rfl | rfl
      · exact .inl ⟨rfl, hne.symm⟩
      · exact .inr ⟨hne, rfl⟩
    · rw [hd₁, hd₂]
      rcases hi with rfl | rfl
      · exact .inr ⟨hne.symm, rfl⟩
      · exact .inl ⟨rfl, hne⟩

/-! ## The debts of all accounts -/

theorem Lists.sum_credit (h : b.Lists i ds) :
    (ds.map (Debt.credit i)).sum = ((b.entriesFor i).map fun e => e.credit i).sum := by
  obtain ⟨es, hsort, rfl⟩ := h.ordered
  rw [← (hsort.perm.map _).sum_eq]
  clear hsort h
  induction es with
  | nil => rfl
  | cons e es ih =>
    rw [List.map_cons, List.sum_cons, ← ih, Entry.credit, List.filterMap_cons]
    cases e.claim with
    | none => simp
    | some d => simp

/-- Over all accounts, what the entries leave is counted once for and once against. -/
theorem sum_credit_entriesFor {n : ℕ} {es : List Entry}
    (hes : ∀ e ∈ es, e.sender ≠ e.recipient ∧ ∃ j < n, ∃ k < n, e.sender = j ∧ e.recipient = k) :
    ∑ i ∈ Finset.range n, ((es.filter (·.involves i)).map fun e => e.credit i).sum = 0 := by
  induction es with
  | nil => simp
  | cons e es ih =>
    obtain ⟨⟨hne, j, hj, k, hk, hs, hr⟩, hes⟩ := List.forall_mem_cons.mp hes
    have hjk : j ≠ k := by
      rintro rfl
      exact hne (hs.trans hr.symm)
    have hterm : ∀ i : ℕ, (((e :: es).filter (·.involves i)).map fun e => e.credit i).sum =
        (if i = j then e.credit e.sender else 0) + (if i = k then e.credit e.recipient else 0) +
          ((es.filter (·.involves i)).map fun e => e.credit i).sum := by
      intro i
      rw [List.filter_cons]
      by_cases hij : i = j
      · subst hij
        have hinvolved : e.involves i = true := (e.involves_iff i).mpr (.inl hs.symm)
        simp [hinvolved, hjk, hs]
      · by_cases hik : i = k
        · subst hik
          have hinvolved : e.involves i = true := (e.involves_iff i).mpr (.inr hr.symm)
          simp [hinvolved, hij, hr]
        · have hother : e.involves i = false := by
            rw [← Bool.not_eq_true, e.involves_iff, hs, hr]
            omega
          simp [hother, hij, hik]
    simp only [hterm]
    rw [Finset.sum_add_distrib, Finset.sum_add_distrib, ih hes, Finset.sum_ite_eq',
      Finset.sum_ite_eq', if_pos (Finset.mem_range.mpr hj), if_pos (Finset.mem_range.mpr hk),
      Entry.credit_add hne, add_zero]

end Balance

/-! ## Statements -/

namespace Statement

/-- One debt more in what an account is owed on the whole. -/
def netStep (i : ℤ) (total : Decimal) (d : Debt) : Except Fault Decimal :=
  (if d.creditor = i then total + d.amount else total - d.amount).checked

variable {i : ℤ} {total : Decimal} {d : Debt}

/-- The whole stays one of cents, and grows by the amount of the debt at most. -/
theorem places_and_le_of_credit (htotal : HasPlaces 2 total.toRat)
    (hnonneg : 0 ≤ d.amount.toRat) (hplaces : HasPlaces 2 d.amount.toRat) :
    HasPlaces 2 (total.toRat + d.credit i) ∧
      |total.toRat + d.credit i| ≤ |total.toRat| + d.amount.toRat := by
  unfold Debt.credit
  split
  · refine ⟨htotal.add hplaces, (abs_add_le _ _).trans ?_⟩
    rw [abs_of_nonneg hnonneg]
  · refine ⟨htotal.add hplaces.neg, (abs_add_le _ _).trans ?_⟩
    rw [abs_neg, abs_of_nonneg hnonneg]

/-- A step that takes the whole to few enough cents is computed, and exact. -/
theorem exists_netStep (hfits : Fits 2 (total.toRat + d.credit i)) :
    ∃ next, netStep i total d = .ok next ∧ next.toRat = total.toRat + d.credit i := by
  have hvalue : (if d.creditor = i then total + d.amount else total - d.amount).toRat =
      total.toRat + d.credit i := by
    unfold Debt.credit at hfits ⊢
    split
    · next hcreditor =>
      rw [if_pos hcreditor] at hfits
      exact Decimal.toRat_add_of_fits (by decide) hfits
    · next hcreditor =>
      rw [if_neg hcreditor, ← sub_eq_add_neg] at hfits
      rw [← sub_eq_add_neg]
      exact Decimal.toRat_sub_of_fits (by decide) hfits
  refine ⟨_, Decimal.checked_of_inRange ?_, hvalue⟩
  rw [hvalue]
  exact hfits.inRange

/-- Debts are added up without rounding, as long as they and the total are not too long. -/
theorem exists_foldlM_netStep {ds : List Debt}
    (hcents : ∀ d ∈ ds, 0 ≤ d.amount.toRat ∧ HasPlaces 2 d.amount.toRat)
    (htotal : HasPlaces 2 total.toRat)
    (hsmall : |total.toRat| + (ds.map (·.amount.toRat)).sum < 10 ^ 26) :
    ∃ net, ds.foldlM (netStep i) total = .ok net ∧
      net.toRat = total.toRat + (ds.map (Debt.credit i)).sum := by
  induction ds generalizing total with
  | nil => exact ⟨total, rfl, by rw [List.map_nil, List.sum_nil, add_zero]⟩
  | cons d ds ih =>
    obtain ⟨⟨hnonneg, hplaces⟩, hcents⟩ := List.forall_mem_cons.mp hcents
    rw [List.map_cons, List.sum_cons] at hsmall ⊢
    have hrest : 0 ≤ (ds.map (·.amount.toRat)).sum :=
      List.sum_nonneg (List.forall_mem_map.mpr fun d hd => (hcents d hd).1)
    obtain ⟨hnext, hle⟩ := places_and_le_of_credit (i := i) htotal hnonneg hplaces
    obtain ⟨next, hstep, hvalue⟩ : ∃ next, netStep i total d = .ok next ∧
        next.toRat = total.toRat + d.credit i := by
      refine exists_netStep ⟨hnext, ?_⟩
      norm_num [Decimal.precision]
      linarith
    rw [← hvalue] at hnext hle
    obtain ⟨net, hnet, hsum⟩ := ih hcents hnext (by linarith)
    rw [List.foldlM_cons, hstep, bind_ok]
    exact ⟨net, hnet, by rw [hsum, hvalue, add_assoc]⟩

/-- What an account is owed on the whole is what its debts come to for it. -/
theorem exists_netOf {ds : List Debt}
    (hcents : ∀ d ∈ ds, 0 ≤ d.amount.toRat ∧ HasPlaces 2 d.amount.toRat)
    (hsmall : (ds.map (·.amount.toRat)).sum < 10 ^ 26) :
    ∃ net, netOf i ds = .ok net ∧ net.toRat = (ds.map (Debt.credit i)).sum := by
  have hplaces : HasPlaces 2 Decimal.zero.toRat := Decimal.toRat_zero ▸ .zero 2
  obtain ⟨net, hnet, hsum⟩ := exists_foldlM_netStep (i := i) hcents hplaces (by simpa using hsmall)
  exact ⟨net, hnet, by rw [hsum, Decimal.toRat_zero, zero_add]⟩

/-- What the accounts are owed on the whole, if the debts of each of them are not too long. -/
theorem exists_mapM_netOutstanding {l : Ledger} {b : Balance} (hl : l.accounts.Distinct)
    {ss : List Statement} (hss : ofAll l b = .ok ss) {debts : ℤ → List Debt}
    (hdebts : ∀ i, b.debtsOf i = .ok (debts i)) (hlists : ∀ i, b.Lists i (debts i))
    (hshort : ∀ i : ℕ, i < l.accounts.size → ((debts i).map (·.amount.toRat)).sum < 10 ^ 26) :
    ∃ nets, ss.mapM netOutstanding = .ok nets ∧ nets.map Decimal.toRat =
      (List.range l.accounts.size).map fun i : ℕ => ((debts i).map (Debt.credit i)).sum := by
  have hone : ∀ s ∈ ss, ∃ net, s.netOutstanding = .ok net ∧
      net.toRat = (s.outstanding.map (Debt.credit s.index)).sum := by
    intro s hs
    obtain ⟨i, account, ds, hi, hds, rfl⟩ := exists_of_mem_ofAll hl hss hs
    obtain rfl := ok_unique (hdebts i) hds
    exact exists_netOf (hlists i).cents (hshort i hi)
  obtain ⟨nets, hnets, hvalues⟩ := exists_mapM_of_forall hone
  refine ⟨nets, hnets, hvalues.trans (map_of_ofAll hl hss _ _ fun i account ds hds => ?_)⟩
  rw [ok_unique (hdebts i) hds]
  rfl

/-- The lists of debts that a balance leaves fit together, and so do the statements: on the whole
nobody is owed anything that another one does not owe. -/
theorem outstanding_mutual {options : Options} {text : String} {l : Ledger}
    (h : Ledger.ofString options text = .ok l) :
    FailsIff .overflow (¬ Balance.Nettable [] (l.invoices ++ l.payments)) l.balance ∧
      ∀ b, l.balance = .ok b → (∀ e ∈ b.entries, |e.balance.toRat| < 10 ^ 26 - 1 / 200) →
        ∃ debts : ℤ → List Debt, (∀ i, b.debtsOf i = .ok (debts i)) ∧
          (∀ i j, i ≠ j → ∀ d, Debt.isBetween i j d = true → (d ∈ debts i ↔ d ∈ debts j)) ∧
          (∀ i, b.Lists i (debts i)) ∧
          ((∀ i : ℕ, i < l.accounts.size →
              ((debts i).map (·.amount.toRat)).sum < 10 ^ 26) →
            ∃ ss nets, ofAll l b = .ok ss ∧ ss.mapM netOutstanding = .ok nets ∧
              (nets.map Decimal.toRat).sum = 0) := by
  have hl := Ledger.wellFormed_of_ofString h
  refine ⟨hl.failsIff_balance, fun b hb hsmall => ?_⟩
  have hwf := (hl.running hb).wf
  choose debts hdebts hlists using hwf.lists_debtsOf hsmall
  refine ⟨debts, hdebts, fun i j _ d hd => (hlists i).mem_iff_mem (hlists j) hd, hlists,
    fun hshort => ?_⟩
  obtain ⟨ss, hss⟩ := (exists_ofAll_iff hl hb).mpr hsmall
  obtain ⟨nets, hnets, hvalues⟩ := exists_mapM_netOutstanding hl.distinct hss hdebts hlists hshort
  refine ⟨ss, nets, hss, hnets, ?_⟩
  have hcredits : ∀ i ∈ List.range l.accounts.size, ((debts i).map (Debt.credit i)).sum =
      ((b.entries.filter (·.involves i)).map fun e => e.credit i).sum := by
    intro i _
    rw [(hlists i).sum_credit]
    rfl
  rw [hvalues, List.map_congr_left hcredits]
  refine Balance.sum_credit_entriesFor fun e he => ⟨hwf.proper e he, ?_⟩
  obtain ⟨j, k, _, _, hj, hk, hsender, hrecipient⟩ := hl.exists_accounts hb he
  exact ⟨j, (List.getElem?_eq_some_iff.mp hsender).1, k, (List.getElem?_eq_some_iff.mp hrecipient).1,
    hj, hk⟩

/-- What is open for the trip is one debt in both lists, and none on the whole. -/
theorem outstanding_mutual_trip : ∃ l b ss nets, Ledger.ofString {} tripText = .ok l ∧
    l.balance = .ok b ∧ b.debtsOf 0 = .ok [⟨0, 1, ⟨false, 300, -2⟩⟩] ∧
      b.debtsOf 1 = .ok [⟨0, 1, ⟨false, 300, -2⟩⟩] ∧ ofAll l b = .ok ss ∧
        ss.mapM netOutstanding = .ok nets ∧ (nets.map Decimal.toRat).sum = 0 := by
  obtain ⟨l, b, hread, hb, haccounts, hentries⟩ := exists_trip
  obtain ⟨-, hmutual⟩ := outstanding_mutual hread
  have hsmall : ∀ e ∈ b.entries, |e.balance.toRat| < 10 ^ 26 - 1 / 200 := by
    rw [hentries]
    norm_num [Decimal.toRat, Decimal.signed]
  obtain ⟨debts, hdebts, -, hlists, hsum⟩ := hmutual b hb hsmall
  have hclaim : Entry.claim ⟨0, 1, ⟨true, 300, -2⟩⟩ = some ⟨0, 1, ⟨false, 300, -2⟩⟩ := by
    norm_num [Entry.claim, Debt.ofClaim, nearestCents, Decimal.toRat, Decimal.signed,
      Decimal.centExponent]
  have hone : ∀ i : ℕ, i < 2 → debts i = [⟨0, 1, ⟨false, 300, -2⟩⟩] := by
    intro i hi
    obtain ⟨es, hsort, heq⟩ := (hlists i).ordered
    have hinvolved : Entry.involves ⟨0, 1, ⟨true, 300, -2⟩⟩ i = true := by
      rw [Entry.involves_iff]
      dsimp only
      omega
    have hperm := hsort.perm
    rw [Balance.entriesFor, hentries, List.filter_singleton, hinvolved, cond_true,
      List.perm_singleton] at hperm
    rw [heq, hperm, List.filterMap_cons, hclaim, List.filterMap_nil]
  obtain ⟨ss, nets, hss, hnets, hzero⟩ := hsum fun i hi => by
    rw [Registry.size, haccounts] at hi
    rw [hone i hi]
    norm_num [Decimal.toRat, Decimal.signed]
  refine ⟨l, b, ss, nets, hread, hb, ?_, ?_, hss, hnets, hzero⟩
  · rw [← hone 0 Nat.two_pos]
    exact hdebts 0
  · rw [← hone 1 Nat.one_lt_two]
    exact hdebts 1

end Statement

end HouseLedger
