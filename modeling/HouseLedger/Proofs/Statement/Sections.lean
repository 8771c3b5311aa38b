import HouseLedger.Proofs.Statement.Debts

/-!
# The sections of the statements

The four sections of a statement are what its account sends and receives, in the order of the
dates (`Statement.Presents`). Over all accounts, each invoice is sent once and received once, and
so is each payment: the statements of a ledger neither lose a transaction nor tell it twice
(`Statement.sections_exhaust`).

A statement may still be missing: its debts cannot be told if a balance is too long to the cent,
and there is no balance at all if one of its sums is too large.
-/

namespace HouseLedger

open Outcome

namespace Statement

variable {l : Ledger} {b : Balance}

/-! ## One statement -/

theorem stableSort_byDate (ts : List Transaction) :
    StableSort Transaction.date ts (byDate ts) :=
  .mergeSort Date.le_refl Date.le_trans (fun d d' => Nat.le_total d.place d'.place) ts

/-- A statement tells of the account with an index what it sends and what it receives, and
nothing in two places. -/
structure Presents (l : Ledger) (i : ℕ) (s : Statement) : Prop where
  index_eq : s.index = i
  toPay : StableSort Transaction.date (l.invoices.filter fun t => t.sender = i) s.toPay
  credited : StableSort Transaction.date (l.invoices.filter fun t => t.recipient = i) s.credited
  paid : StableSort Transaction.date (l.payments.filter fun t => t.sender = i) s.paid
  received : StableSort Transaction.date (l.payments.filter fun t => t.recipient = i) s.received
  disjoint : [s.toPay, s.credited, s.paid, s.received].Pairwise List.Disjoint

theorem mem_byDate_filter {ts : List Transaction} {p : Transaction → Bool} {t : Transaction} :
    t ∈ byDate (ts.filter p) ↔ t ∈ ts ∧ p t = true :=
  (byDate_perm _).mem_iff.trans List.mem_filter

theorem presents_ofIndex (hl : l.WellFormed) (i : ℕ) (account : Account) (debts : List Debt) :
    (ofIndex l i account debts).Presents l i := by
  have hroles : ∀ {t u}, t ∈ l.invoices → u ∈ l.payments → t ≠ u := by
    rintro t _ ht hu rfl
    exact nomatch (hl.invoices t ht).role_eq.symm.trans (hl.payments t hu).role_eq
  have hparties : ∀ {t}, t ∈ l.invoices ++ l.payments → t.sender = i → t.recipient = i → False :=
    fun ht hs hr => (hl.valid _ ht).parties_ne (hs.trans hr.symm)
  refine ⟨rfl, stableSort_byDate _, stableSort_byDate _, stableSort_byDate _, stableSort_byDate _,
    ?_⟩
  -- An invoice is no payment, and its two parties are not the same account.
  simp only [ofIndex, List.pairwise_cons, List.forall_mem_cons, List.Pairwise.nil, and_true,
    List.not_mem_nil, false_implies, implies_true, List.Disjoint, mem_byDate_filter, beq_iff_eq]
  refine ⟨⟨?_, ?_, ?_⟩, ⟨?_, ?_⟩, ?_⟩
  · exact fun t ht ht' => hparties (List.mem_append_left _ ht.1) ht.2 ht'.2
  · exact fun t ht ht' => hroles ht.1 ht'.1 rfl
  · exact fun t ht ht' => hroles ht.1 ht'.1 rfl
  · exact fun t ht ht' => hroles ht.1 ht'.1 rfl
  · exact fun t ht ht' => hroles ht.1 ht'.1 rfl
  · exact fun t ht ht' => hparties (List.mem_append_right _ ht.1) ht.2 ht'.2

/-! ## All statements -/

/-- The statements of all accounts of a ledger, in the order of the accounts. -/
def ofAll (l : Ledger) (b : Balance) : Except Fault (List Statement) :=
  (l.accounts.accounts.map Account.acronym).mapM (ofAcronym l b)

theorem exists_ofAcronym_iff (hl : l.accounts.Distinct) {i : ℕ} {account : Account}
    (haccount : l.accounts.accounts[i]? = some account) :
    (∃ s, ofAcronym l b account.acronym = .ok s) ↔
      ∀ e ∈ b.entriesFor i, |e.balance.toRat| < 10 ^ 26 - 1 / 200 := by
  rw [← Balance.exists_debtsOf_iff]
  constructor
  · rintro ⟨s, hs⟩
    obtain ⟨debts, hdebts, -⟩ := (ofAcronym_eq_ok_iff hl haccount).mp hs
    exact ⟨debts, hdebts⟩
  · rintro ⟨debts, hdebts⟩
    exact ⟨_, ofAcronym_eq_ok hl haccount hdebts⟩

theorem exists_of_mem_ofAll (hl : l.accounts.Distinct) {ss : List Statement}
    (h : ofAll l b = .ok ss) {s : Statement} (hs : s ∈ ss) :
    ∃ (i : ℕ) (account : Account) (debts : List Debt), i < l.accounts.size ∧
      b.debtsOf i = .ok debts ∧ s = ofIndex l i account debts := by
  obtain ⟨acronym, hmem, hread⟩ := mapM_eq_ok h s hs
  obtain ⟨account, haccount, rfl⟩ := List.mem_map.mp hmem
  obtain ⟨i, hi⟩ := List.mem_iff_getElem?.mp haccount
  obtain ⟨debts, hdebts, rfl⟩ := (ofAcronym_eq_ok_iff hl hi).mp hread
  exact ⟨i, account, debts, (List.getElem?_eq_some_iff.mp hi).1, hdebts, rfl⟩

/-- What is read off the statements of all accounts is read off their indices. -/
theorem map_of_ofAll {β : Type} (hl : l.accounts.Distinct) {ss : List Statement}
    (h : ofAll l b = .ok ss) (f : Statement → β) (g : ℕ → β)
    (hfg : ∀ (i : ℕ) account debts, b.debtsOf i = .ok debts →
      f (ofIndex l i account debts) = g i) :
    ss.map f = (List.range l.accounts.size).map g := by
  refine List.ext_getElem? fun i => ?_
  rw [List.getElem?_map, List.getElem?_map]
  rcases getElem?_of_mapM_eq_ok h i with ⟨hnone, hs⟩ | ⟨acronym, s, hsome, hs, hread⟩
  · rw [List.getElem?_map, Option.map_eq_none_iff, List.getElem?_eq_none_iff] at hnone
    rw [hs, List.getElem?_eq_none_iff.mpr (by rwa [List.length_range])]
    rfl
  · rw [List.getElem?_map, Option.map_eq_some_iff] at hsome
    obtain ⟨account, haccount, rfl⟩ := hsome
    obtain ⟨debts, hdebts, rfl⟩ := (ofAcronym_eq_ok_iff hl haccount).mp hread
    have hi : i < l.accounts.size := (List.getElem?_eq_some_iff.mp haccount).1
    rw [hs, List.getElem?_range hi, Option.map_some, Option.map_some, hfg i account debts hdebts]

/-- The sections of all accounts that pick the transactions of one party have all of them. -/
theorem flatMap_section_perm (hl : l.accounts.Distinct) {ss : List Statement}
    (h : ofAll l b = .ok ss) {ts : List Transaction} {party : Transaction → ℤ}
    (hparty : ∀ t ∈ ts, 0 ≤ party t ∧ party t < l.accounts.size)
    {pick : Statement → List Transaction}
    (hpick : ∀ (i : ℕ) account debts, pick (ofIndex l i account debts) =
      byDate (ts.filter fun t => party t == (i : ℤ))) :
    (ss.flatMap pick).Perm ts := by
  rw [List.flatMap_def,
    map_of_ofAll hl h pick _ fun i account debts _ => hpick i account debts]
  have hkeys : ((List.range l.accounts.size).map Nat.cast : List ℤ).Nodup :=
    List.nodup_range.map Nat.cast_injective
  have hparts : (((List.range l.accounts.size).map Nat.cast : List ℤ).flatMap fun k =>
      ts.filter fun t => party t = k).Perm ts := by
    refine flatMap_filter_perm hkeys fun t ht => ?_
    obtain ⟨hlow, hhigh⟩ := hparty t ht
    exact List.mem_map.mpr ⟨(party t).toNat, List.mem_range.mpr (by omega), by omega⟩
  refine .trans ?_ hparts
  rw [← List.flatMap_def, List.flatMap_map]
  exact List.Perm.flatMap_left _ fun i _ => byDate_perm _

/-- All accounts have a statement if no entry of the balance is too long to the cent. -/
theorem exists_ofAll_iff (hl : l.WellFormed) (hb : l.balance = .ok b) :
    (∃ ss, ofAll l b = .ok ss) ↔ ∀ e ∈ b.entries, |e.balance.toRat| < 10 ^ 26 - 1 / 200 := by
  rw [ofAll, exists_mapM_eq_ok_iff, List.forall_mem_map]
  constructor
  · intro hall e he
    obtain ⟨i, _, account, _, hi, -, haccount, -⟩ := hl.exists_accounts hb he
    refine (exists_ofAcronym_iff hl.distinct haccount).mp
      (hall account (List.mem_of_getElem? haccount)) e (List.mem_filter.mpr ⟨he, ?_⟩)
    rw [Entry.involves, hi, beq_self_eq_true, Bool.true_or]
  · intro hsmall account haccount
    obtain ⟨i, hi⟩ := List.mem_iff_getElem?.mp haccount
    exact (exists_ofAcronym_iff hl.distinct hi).mpr fun e he =>
      hsmall e (List.mem_of_mem_filter he)

/-! ## Ledgers -/

/-- The statements of a ledger that is read say what each account sends and receives in order,
and together they say of each transaction once who sends it and once who receives it. -/
theorem sections_exhaust {options : Options} {text : String}
    (h : Ledger.ofString options text = .ok l) :
    FailsIff .overflow (¬ Balance.Nettable [] (l.invoices ++ l.payments)) l.balance ∧
      (∀ b, l.balance = .ok b → ((∃ ss, ofAll l b = .ok ss) ↔
        ∀ e ∈ b.entries, |e.balance.toRat| < 10 ^ 26 - 1 / 200)) ∧
      ∀ b,
        (∀ (i : ℕ) (account : Account), l.accounts.accounts[i]? = some account →
          ((∃ s, ofAcronym l b account.acronym = .ok s) ↔
            ∀ e ∈ b.entriesFor i, |e.balance.toRat| < 10 ^ 26 - 1 / 200) ∧
          ∀ s, ofAcronym l b account.acronym = .ok s → s.Presents l i) ∧
        ∀ ss, ofAll l b = .ok ss →
          (ss.flatMap toPay).Perm l.invoices ∧ (ss.flatMap credited).Perm l.invoices ∧
            (ss.flatMap paid).Perm l.payments ∧ (ss.flatMap received).Perm l.payments := by
  have hl := Ledger.wellFormed_of_ofString h
  refine ⟨hl.failsIff_balance, fun b => exists_ofAll_iff hl,
    fun b => ⟨fun i account haccount => ⟨?_, ?_⟩, ?_⟩⟩
  · exact exists_ofAcronym_iff hl.distinct haccount
  · intro s hs
    obtain ⟨debts, -, rfl⟩ := (ofAcronym_eq_ok_iff hl.distinct haccount).mp hs
    exact presents_ofIndex hl i account debts
  · intro ss hss
    exact ⟨flatMap_section_perm hl.distinct hss (fun t ht => (hl.invoices t ht).sender_mem)
        fun _ _ _ => rfl,
      flatMap_section_perm hl.distinct hss (fun t ht => (hl.invoices t ht).recipient_mem)
        fun _ _ _ => rfl,
      flatMap_section_perm hl.distinct hss (fun t ht => (hl.payments t ht).sender_mem)
        fun _ _ _ => rfl,
      flatMap_section_perm hl.distinct hss (fun t ht => (hl.payments t ht).recipient_mem)
        fun _ _ _ => rfl⟩

/-- Two bills, one in each direction, and a part of the first paid. -/
def tripText : String :=
  "accounting_date 1.2.2024\naccount AA Anna\naccount BB Bert\n" ++
    "invoice AA -> BB 6.00 4.1.2024 trip\ninvoice BB -> AA 1.00 3.1.2024 fuel\n" ++
    "payment AA -> BB 2.00 5.1.2024 trip\n"

theorem exists_trip : ∃ l b, Ledger.ofString {} tripText = .ok l ∧ l.balance = .ok b ∧
    l.accounts.accounts = [⟨"AA", "Anna"⟩, ⟨"BB", "Bert"⟩] ∧
      b.entries = [⟨0, 1, ⟨true, 300, -2⟩⟩] := by
  have hread : ((Ledger.ofString {} tripText).toOption.bind fun l =>
      l.balance.toOption.map fun b => (l.accounts.accounts, b.entries)) =
        some ([⟨"AA", "Anna"⟩, ⟨"BB", "Bert"⟩], [⟨0, 1, ⟨true, 300, -2⟩⟩]) := by
    decide +kernel
  obtain ⟨l, hl, hread⟩ := Option.bind_eq_some_iff.mp hread
  obtain ⟨b, hb, hread⟩ := Option.map_eq_some_iff.mp hread
  obtain ⟨haccounts, hentries⟩ := Prod.mk.inj hread
  exact ⟨l, b, toOption_eq_some.mp hl, toOption_eq_some.mp hb, haccounts, hentries⟩

theorem sections_exhaust_trip : ∃ l b ss s, Ledger.ofString {} tripText = .ok l ∧
    l.balance = .ok b ∧ ofAll l b = .ok ss ∧ (ss.flatMap toPay).Perm l.invoices ∧
      (ss.flatMap credited).Perm l.invoices ∧ (ss.flatMap paid).Perm l.payments ∧
      (ss.flatMap received).Perm l.payments ∧ ofAcronym l b "AA" = .ok s ∧ s.Presents l 0 := by
  obtain ⟨l, b, hread, hb, haccounts, hentries⟩ := exists_trip
  obtain ⟨-, hall, hsections⟩ := sections_exhaust hread
  have hsmall : ∀ e ∈ b.entries, |e.balance.toRat| < 10 ^ 26 - 1 / 200 := by
    rw [hentries]
    norm_num [Decimal.toRat, Decimal.signed]
  obtain ⟨ss, hss⟩ := (hall b hb).mpr hsmall
  obtain ⟨hone, hperm⟩ := hsections b
  have hanna : l.accounts.accounts[0]? = some ⟨"AA", "Anna"⟩ := by rw [haccounts]; rfl
  obtain ⟨hexists, hpresents⟩ := hone 0 _ hanna
  obtain ⟨s, hs⟩ := hexists.mpr fun e he => hsmall e (List.mem_of_mem_filter he)
  obtain ⟨htoPay, hcredited, hpaid, hreceived⟩ := hperm ss hss
  exact ⟨l, b, ss, s, hread, hb, hss, htoPay, hcredited, hpaid, hreceived, hs, hpresents s hs⟩

end Statement

end HouseLedger
