import HouseLedger.Proofs.Balance.Matching
import HouseLedger.Proofs.Ledger.Contents

/-!
# Ledgers that match

Two registries may have the same accounts in another order. `Registry.Shares` relates the
indices that an account has in the one and in the other. Looking up an acronym gives indices
that are related so, and the account at related indices is the same.

Lines that ask for the same but for the digits of their amounts (`Line.Matches`) then ask for
transactions that match, and so do the ledgers of such lines, whether or not invoices are
merged: `Ledger.matches_written`.
-/

namespace HouseLedger

open Outcome

/-! ## Registries of the same accounts -/

/-- The index of the one registry and the index of the other are those of one account. -/
def Registry.Shares (r r' : Registry) (i j : ℤ) : Prop :=
  ∃ (m n : ℕ) (account : Account), i = m ∧ j = n ∧ r.accounts[m]? = some account ∧
    r'.accounts[n]? = some account

/-- The registries have the same accounts, each of them once. -/
structure Registry.Agrees (r r' : Registry) : Prop where
  distinct : r.Distinct
  distinct' : r'.Distinct
  perm : r.accounts.Perm r'.accounts

namespace Registry

variable {r r' : Registry} {i j : ℤ}

theorem Distinct.eq_of_getElem? (hr : r.Distinct) {m n : ℕ} {account : Account}
    (hm : r.accounts[m]? = some account) (hn : r.accounts[n]? = some account) : m = n :=
  Option.some.inj ((hr.find?_eq_some_iff.mpr ⟨account, hm, rfl⟩).symm.trans
    (hr.find?_eq_some_iff.mpr ⟨account, hn, rfl⟩))

/-- No account has two indices, and no index two accounts. -/
theorem Agrees.biUnique (h : r.Agrees r') : Relator.BiUnique (r.Shares r') := by
  constructor
  · rintro _ _ _ ⟨m, n, account, rfl, rfl, hm, hn⟩ ⟨m', n', account', rfl, heq, hm', hn'⟩
    obtain rfl := Int.ofNat_inj.mp heq
    obtain rfl := Option.some.inj (hn.symm.trans hn')
    rw [h.distinct.eq_of_getElem? hm hm']
  · rintro _ _ _ ⟨m, n, account, rfl, rfl, hm, hn⟩ ⟨m', n', account', heq, rfl, hm', hn'⟩
    obtain rfl := Int.ofNat_inj.mp heq
    obtain rfl := Option.some.inj (hm.symm.trans hm')
    rw [h.distinct'.eq_of_getElem? hn hn']

theorem Distinct.agrees (hr : r.Distinct) : r.Agrees r := ⟨hr, hr, .refl _⟩

/-- In one registry an account has one index. -/
theorem Distinct.eq_of_shares (hr : r.Distinct) (h : r.Shares r i j) : i = j := by
  obtain ⟨m, n, account, rfl, rfl, hm, hn⟩ := h
  rw [hr.eq_of_getElem? hm hn]

theorem Shares.get_eq (h : r.Shares r' i j) : r.get i = r'.get j := by
  obtain ⟨m, n, account, rfl, rfl, hm, hn⟩ := h
  rw [get_of_getElem? hm, get_of_getElem? hn]

/-- Both registries know the same acronyms, as those of the same accounts. -/
theorem Agrees.related_resolve (h : r.Agrees r') (acronym : String) :
    Related (fun m n : ℕ => r.Shares r' m n) (r.resolve acronym) (r'.resolve acronym) := by
  cases hm : r.find? acronym with
  | none =>
    have hn : r'.find? acronym = none := by
      rw [find?_eq_none_iff] at hm ⊢
      exact mt ((h.perm.map _).mem_iff.mpr) hm
    rw [resolve, resolve, hm, hn]
    exact .error _
  | some m =>
    obtain ⟨account, haccount, hacronym⟩ := getElem?_of_find? hm
    obtain ⟨n, hn⟩ := List.mem_iff_getElem?.mp
      (h.perm.mem_iff.mp (List.mem_of_getElem? haccount))
    rw [resolve, resolve, hm, h.distinct'.find?_eq_some_iff.mpr ⟨account, hn, hacronym⟩]
    exact .ok ⟨m, n, account, rfl, rfl, haccount, hn⟩

theorem Agrees.related_mapM (h : r.Agrees r') (acronyms : List String) :
    Related (List.Forall₂ fun m n : ℕ => r.Shares r' m n) (acronyms.mapM r.resolve)
      (acronyms.mapM r'.resolve) :=
  Related.mapM (List.forall₂_same.mpr fun _ _ => rfl) fun a _ hab => hab ▸ h.related_resolve a

/-- Of one acronym or more there is at least one index. -/
theorem Agrees.related_mapM_cons (h : r.Agrees r') (acronym : String) (acronyms : List String) :
    Related (fun is js => 0 < is.length ∧ List.Forall₂ (fun m n : ℕ => r.Shares r' m n) is js)
      ((acronym :: acronyms).mapM r.resolve) ((acronym :: acronyms).mapM r'.resolve) := by
  rw [List.mapM_cons, List.mapM_cons]
  exact (h.related_resolve acronym).bind fun _ _ hfirst =>
    (h.related_mapM acronyms).bind fun _ _ hrest =>
      .ok ⟨Nat.zero_lt_succ _, .cons hfirst hrest⟩

end Registry

/-! ## Merging -/

section

variable {V : Decimal → Decimal → Prop} {I : ℤ → ℤ → Prop} {t t' x x' : Transaction}

theorem Transaction.Matches.isAlike_eq (hI : Relator.BiUnique I) (h : t.Matches V I t')
    (hx : x.Matches V I x') : t.isAlike x = t'.isAlike x' := by
  simp only [Transaction.isAlike, h.date, hx.date, h.note, hx.note,
    beq_eq_of_biUnique hI h.sender hx.sender, beq_eq_of_biUnique hI h.recipient hx.recipient,
    beq_eq_of_biUnique hI h.sender hx.recipient, beq_eq_of_biUnique hI h.recipient hx.sender]

namespace Draft

theorem rel_mergedTotal (hV : Decimal.Congruence V) (hI : Relator.BiUnique I)
    (hx : x.Matches V I x') (ht : t.Matches V I t') :
    V (mergedTotal x t) (mergedTotal x' t') := by
  unfold mergedTotal
  simp only [Relator.rel_eq hI hx.sender ht.sender]
  split
  · exact hV.add ht.amount hx.amount
  · exact hV.sub ht.amount hx.amount

/-- Invoices that match are merged into invoices that match. -/
theorem matches_mergeInvoices (hV : Decimal.Congruence V) (hI : Relator.BiUnique I)
    (hx : x.Matches V I x') (ht : t.Matches V I t') :
    (mergeInvoices x t).Matches V I (mergeInvoices x' t') := by
  have hvalid := valid_mergeInvoices x ht.valid.parties_ne
  have htotal := rel_mergedTotal hV hI hx ht
  have hbelow := (hV.same htotal).isBelowZero_eq
  obtain ⟨habove, heq⟩ | ⟨hturned, heq⟩ := mergeInvoices_cases x t
  · obtain ⟨-, heq'⟩ | ⟨hturned', -⟩ := mergeInvoices_cases x' t'
    · rw [heq] at hvalid
      rw [heq, heq']
      exact ⟨hvalid, ht.sender, ht.recipient, htotal, ht.date, ht.note, ht.role⟩
    · exact nomatch habove.symm.trans (hbelow.trans hturned')
  · obtain ⟨habove', -⟩ | ⟨-, heq'⟩ := mergeInvoices_cases x' t'
    · exact nomatch hturned.symm.trans (hbelow.trans habove')
    · rw [heq] at hvalid
      rw [heq, heq']
      exact ⟨hvalid, ht.recipient, ht.sender, hV.neg htotal, ht.date, ht.note, ht.role⟩

theorem rel_found (hI : Relator.BiUnique I) (merging : Bool) {ts ts' : List Transaction}
    (h : List.Forall₂ (Transaction.Matches V I) ts ts') (ht : t.Matches V I t') :
    Option.Rel (Transaction.Matches V I) (if merging then ts.find? t.isAlike else none)
      (if merging then ts'.find? t'.isAlike else none) := by
  cases merging with
  | false => exact .none
  | true => exact rel_find? h fun _ _ hx => ht.isAlike_eq hI hx

theorem forall₂_recorded (hV : Decimal.Congruence V) (hI : Relator.BiUnique I) (merging : Bool)
    {ts ts' : List Transaction} (h : List.Forall₂ (Transaction.Matches V I) ts ts')
    (ht : t.Matches V I t') :
    List.Forall₂ (Transaction.Matches V I) (recorded merging ts t) (recorded merging ts' t') := by
  have hfound := rel_found hI merging h ht
  unfold recorded
  generalize (if merging then ts.find? t.isAlike else none) = old,
    (if merging then ts'.find? t'.isAlike else none) = old' at hfound
  cases hfound with
  | none => exact .cons ht h
  | some hx =>
    exact .cons (matches_mergeInvoices hV hI hx ht)
      (forall₂_eraseP h fun _ _ hx => ht.isAlike_eq hI hx)

theorem forall₂_foldl_recorded (hV : Decimal.Congruence V) (hI : Relator.BiUnique I)
    (merging : Bool) {ts ts' us us' : List Transaction}
    (hts : List.Forall₂ (Transaction.Matches V I) ts ts')
    (hus : List.Forall₂ (Transaction.Matches V I) us us') :
    List.Forall₂ (Transaction.Matches V I) (ts.foldl (recorded merging) us)
      (ts'.foldl (recorded merging) us') := by
  induction hts generalizing us us' with
  | nil => exact hus
  | cons ht _ ih => exact ih (forall₂_recorded hV hI merging hus ht)

/-- Of invoices that match both can be entered or neither. -/
theorem mergeable_iff_of_matches (hV : Decimal.Congruence V) (hI : Relator.BiUnique I)
    (merging : Bool) {ts ts' : List Transaction}
    (h : List.Forall₂ (Transaction.Matches V I) ts ts') (ht : t.Matches V I t') :
    Mergeable merging ts t ↔ Mergeable merging ts' t' := by
  have hfound := rel_found hI merging h ht
  unfold Mergeable
  generalize (if merging then ts.find? t.isAlike else none) = old,
    (if merging then ts'.find? t'.isAlike else none) = old' at hfound
  cases hfound with
  | none => exact iff_of_true nofun nofun
  | some hx => simp [(hV.same (rel_mergedTotal hV hI hx ht)).toRat_eq]

theorem enterable_iff_of_matches (hV : Decimal.Congruence V) (hI : Relator.BiUnique I)
    (merging : Bool) {ts ts' us us' : List Transaction}
    (hts : List.Forall₂ (Transaction.Matches V I) ts ts')
    (hus : List.Forall₂ (Transaction.Matches V I) us us') :
    Enterable merging ts us ↔ Enterable merging ts' us' := by
  induction hus generalizing ts ts' with
  | nil => rfl
  | cons hu _ ih =>
    exact and_congr (mergeable_iff_of_matches hV hI merging hts hu)
      (ih (forall₂_recorded hV hI merging hts hu))

end Draft

end

/-! ## Bills -/

/-- Two transfers of related amounts between related accounts; no amount is below zero. -/
structure Transfer.Matches (V : Decimal → Decimal → Prop) (I : ℤ → ℤ → Prop)
    (t t' : Transfer) : Prop where
  sender : I t.sender t'.sender
  recipient : I t.recipient t'.recipient
  amount : V t.amount t'.amount
  nonneg : 0 ≤ t.amount.toRat

section

variable {V : Decimal → Decimal → Prop} {I : ℤ → ℤ → Prop} {options : Options} {reference : Date}

/-- The amounts that a chain of accounts hands on match. -/
theorem forall₂_forwarded {x x' : Decimal} (hx : V x x') (hnonneg : 0 ≤ x.toRat)
    {recipient recipient' : ℕ} (hrecipient : I recipient recipient') {chain chain' : List ℕ}
    (hchain : List.Forall₂ (fun m n : ℕ => I m n) chain chain') :
    List.Forall₂ (Transfer.Matches V I)
      (((recipient :: chain).zip chain).map fun (a, b) => ⟨a, b, x⟩)
      (((recipient' :: chain').zip chain').map fun (a, b) => ⟨a, b, x'⟩) := by
  induction hchain generalizing recipient recipient' with
  | nil => exact .nil
  | cons hhead _ ih => exact .cons ⟨hrecipient, hhead, hx, hnonneg⟩ (ih hhead)

theorem forall₂_sharedOut (hV : Decimal.Congruence V) {x x' : Decimal} (hx : V x x')
    (hpositive : x.negative = false) {senders senders' chain chain' : List ℕ}
    {recipient recipient' : ℕ} (hsenders : List.Forall₂ (fun m n : ℕ => I m n) senders senders')
    (hrecipient : I recipient recipient')
    (hchain : List.Forall₂ (fun m n : ℕ => I m n) chain chain') :
    List.Forall₂ (Transfer.Matches V I) (Draft.sharedOut senders recipient chain x)
      (Draft.sharedOut senders' recipient' chain' x') := by
  have hshare : ∀ m ∈ senders, V (x.share senders.length) (x'.share senders'.length) := by
    intro m hm
    rw [← hsenders.length_eq]
    exact hV.share hx (List.length_pos_of_mem hm)
  have hnonneg : 0 ≤ (x.share senders.length).toRat := by
    refine Decimal.toRat_nonneg_of_not_negative ?_
    rw [Decimal.negative_share, hpositive]
  refine List.rel_append ?_ (forall₂_forwarded hx
    (Decimal.toRat_nonneg_of_not_negative hpositive) hrecipient hchain)
  rw [List.forall₂_map_left_iff, List.forall₂_map_right_iff]
  exact ((List.forall₂_and_left _ _).mpr ⟨hshare, hsenders⟩).imp
    fun m n hmn => ⟨hmn.2, hrecipient, hmn.1, hnonneg⟩

/-- Transfers that match are invoices that match, or both from an account to itself. -/
theorem Transfer.Matches.invoice? (hI : Relator.BiUnique I) {t t' : Transfer}
    (h : t.Matches V I t') (note : String) (date : Date) :
    Option.Rel (Transaction.Matches V I) (t.invoice? note date) (t'.invoice? note date) := by
  have hself : t.sender = t.recipient ↔ t'.sender = t'.recipient := by
    rw [← Int.ofNat_inj, ← Int.ofNat_inj]
    exact Relator.rel_eq hI h.sender h.recipient
  unfold Transfer.invoice?
  simp only [hself]
  split
  · exact .none
  · next hne =>
    have hparties : (t.sender : ℤ) ≠ t.recipient :=
      mt (fun heq => hself.mp (Int.ofNat_inj.mp heq)) hne
    exact .some ⟨⟨hparties, h.nonneg⟩, h.sender, h.recipient, h.amount, rfl, rfl, rfl⟩

/-! ## Lines -/

/-- Lines that ask for the same but for the digits of their amounts. Which accounts lines
declare is not looked at. -/
inductive Line.Matches (V : Decimal → Decimal → Prop) : Line → Line → Prop
  | blank : Matches V .blank .blank
  | comment : Matches V .comment .comment
  | account (acronym name acronym' name' : String) :
      Matches V (.account acronym name) (.account acronym' name')
  | invoice (l : InvoiceLine) {w : WrittenAmount} : V l.amount.toDecimal w.toDecimal →
      Matches V (.invoice l) (.invoice { l with amount := w })
  | payment (l : PaymentLine) {w : WrittenAmount} : V l.amount.toDecimal w.toDecimal →
      Matches V (.payment l) (.payment { l with amount := w })

theorem Line.Matches.refl (hV : ∀ x, V x x) (line : Line) : line.Matches V line := by
  cases line with
  | blank => exact .blank
  | comment => exact .comment
  | account acronym name => exact .account ..
  | invoice l => exact .invoice l (hV _)
  | payment l => exact .payment l (hV _)

variable {r r' : Registry}

theorem InvoiceLine.related_billed (hV : Decimal.Congruence V) (hr : r.Agrees r')
    (l : InvoiceLine) {w : WrittenAmount} (hw : V l.amount.toDecimal w.toDecimal) :
    Related (List.Forall₂ (Transaction.Matches V (r.Shares r'))) (l.billed options reference r)
      ({ l with amount := w }.billed options reference r') := by
  unfold InvoiceLine.billed
  refine (hr.related_mapM_cons ..).bind fun senders senders' ⟨hpos, hsenders⟩ => ?_
  refine (hr.related_resolve _).bind fun recipient recipient' hrecipient => ?_
  refine (hr.related_mapM _).bind fun chain chain' hchain => ?_
  refine (Related.of_eq rfl).bind fun start _ hstart => ?_
  refine (Related.of_eq rfl).bind fun finish _ hfinish => ?_
  subst hstart hfinish
  split
  · exact .ok .nil
  · rw [← hsenders.length_eq]
    refine (hV.checked (hV.share hw hpos)).bind fun _ _ _ => ?_
    refine (Related.of_eq rfl).bind fun dates _ hdates => ?_
    subst hdates
    have hts := forall₂_sharedOut hV hw rfl hsenders hrecipient hchain
    exact .ok (List.rel_flatMap (List.forall₂_same.mpr fun _ _ => rfl)
      fun date _ hdate => hdate ▸ List.rel_filterMap
        (fun _ _ ht => ht.invoice? hr.biUnique l.note date) hts)

theorem PaymentLine.related_paid (hr : r.Agrees r') (l : PaymentLine) {w : WrittenAmount}
    (hw : V l.amount.toDecimal w.toDecimal) :
    Related (List.Forall₂ (Transaction.Matches V (r.Shares r'))) (l.paid reference r)
      ({ l with amount := w }.paid reference r') := by
  unfold PaymentLine.paid
  refine (hr.related_resolve _).bind fun sender sender' hsender => ?_
  refine (hr.related_resolve _).bind fun recipient recipient' hrecipient => ?_
  refine (Related.of_eq rfl).bind fun date _ hdate => ?_
  subst hdate
  have hself : sender = recipient ↔ sender' = recipient' := by
    rw [← Int.ofNat_inj, ← Int.ofNat_inj]
    exact Relator.rel_eq hr.biUnique hsender hrecipient
  simp only [hself]
  split
  · exact .ok .nil
  · next hno =>
    have hparties : (sender : ℤ) ≠ recipient := fun heq =>
      hno (.inr (hself.mp (Int.ofNat_inj.mp heq)))
    exact .ok (.cons ⟨⟨hparties, Decimal.toRat_nonneg_of_not_negative rfl⟩, hsender, hrecipient,
      hw, rfl, rfl, rfl⟩ .nil)

theorem getD_of_related {R : Transaction → Transaction → Prop}
    {x y : Except Fault (List Transaction)} (h : Related (List.Forall₂ R) x y) :
    List.Forall₂ R (x.toOption.getD []) (y.toOption.getD []) := by
  cases h with
  | ok h => exact h
  | error e => exact .nil

/-- Lines that match ask for invoices and payments that match. -/
theorem Line.Matches.transactions (hV : Decimal.Congruence V) (hr : r.Agrees r')
    {line line' : Line} (h : line.Matches V line') :
    List.Forall₂ (Transaction.Matches V (r.Shares r')) (line.invoices options reference r)
        (line'.invoices options reference r') ∧
      List.Forall₂ (Transaction.Matches V (r.Shares r')) (line.payments reference r)
        (line'.payments reference r') := by
  cases h with
  | invoice l hw => exact ⟨getD_of_related (l.related_billed hV hr hw), .nil⟩
  | payment l hw => exact ⟨.nil, getD_of_related (l.related_paid hr hw)⟩
  | _ => exact ⟨.nil, .nil⟩

/-! ## Ledgers -/

/-- Two ledgers of one reference date, with the same accounts in any order and with
transactions that match, in the same order. -/
structure Ledger.Matches (V : Decimal → Decimal → Prop) (l l' : Ledger) : Prop where
  referenceDate : l.referenceDate = l'.referenceDate
  accounts : l.accounts.Agrees l'.accounts
  invoices : List.Forall₂ (Transaction.Matches V (l.accounts.Shares l'.accounts)) l.invoices
    l'.invoices
  payments : List.Forall₂ (Transaction.Matches V (l.accounts.Shares l'.accounts)) l.payments
    l'.payments

/-- The lines of two texts match, one by one. A text that is no line matches another. -/
def LinesMatch (V : Decimal → Decimal → Prop) (body body' : List (List Char)) : Prop :=
  List.Forall₂ (fun text text' => Option.Rel (Line.Matches V) (Line.ofText? text)
    (Line.ofText? text')) body body'

theorem forall₂_transactionsOf (options : Options) (reference : Date) (hV : Decimal.Congruence V)
    (hr : r.Agrees r') {text text' : List Char}
    (h : Option.Rel (Line.Matches V) (Line.ofText? text) (Line.ofText? text')) :
    List.Forall₂ (Transaction.Matches V (r.Shares r')) (invoicesOf options reference r text)
        (invoicesOf options reference r' text') ∧
      List.Forall₂ (Transaction.Matches V (r.Shares r')) (paymentsOf reference r text)
        (paymentsOf reference r' text') := by
  unfold invoicesOf paymentsOf
  generalize Line.ofText? text = line, Line.ofText? text' = line' at h
  cases h with
  | none => exact ⟨.nil, .nil⟩
  | some h => exact h.transactions hV hr

/-- Of lines that match the invoices of both can be entered or of neither. -/
theorem enterable_iff_of_linesMatch (options : Options) (reference : Date)
    (hV : Decimal.Congruence V) (hr : r.Agrees r') {body body' : List (List Char)}
    (hbody : LinesMatch V body body') :
    Draft.Enterable options.mergeInvoices [] (body.flatMap (invoicesOf options reference r)) ↔
      Draft.Enterable options.mergeInvoices []
        (body'.flatMap (invoicesOf options reference r')) :=
  Draft.enterable_iff_of_matches hV hr.biUnique _ .nil (List.rel_flatMap hbody fun _ _ h =>
    (forall₂_transactionsOf options reference hV hr h).1)

/-- Lines that match describe ledgers that match. -/
theorem Ledger.matches_written (options : Options) (reference : Date) (hV : Decimal.Congruence V)
    {body body' : List (List Char)} (hbody : LinesMatch V body body')
    (haccounts : Registry.Agrees ⟨declared body, true⟩ ⟨declared body', true⟩) :
    (written options reference body).Matches V (written options reference body') where
  referenceDate := rfl
  accounts := haccounts
  invoices := List.rel_reverse (Draft.forall₂_foldl_recorded hV haccounts.biUnique _
    (List.rel_flatMap hbody fun _ _ h =>
      (forall₂_transactionsOf options reference hV haccounts h).1) .nil)
  payments := List.rel_flatMap hbody fun _ _ h =>
    (forall₂_transactionsOf options reference hV haccounts h).2

/-- Ledgers that match have balances that match. -/
theorem Ledger.Matches.balance (hV : Decimal.Congruence V) {l l' : Ledger} (h : l.Matches V l') :
    Related (Balance.Matches V (l.accounts.Shares l'.accounts)) l.balance l'.balance :=
  Balance.Matches.ofTransactions hV h.accounts.biUnique h.invoices h.payments

/-- A sum is too large in both or in neither. -/
theorem Ledger.Matches.balance_cases (hV : Decimal.Congruence V) {l l' : Ledger}
    (h : l.Matches V l') (hl : l.WellFormed) :
    l.balance = .error .overflow ∧ l'.balance = .error .overflow ∨
      ∃ b b', l.balance = .ok b ∧ l'.balance = .ok b' ∧
        b.Matches V (l.accounts.Shares l'.accounts) b' := by
  have hrelated := h.balance hV
  have hfails := hl.failsIff_balance
  generalize l.balance = x, l'.balance = x' at hrelated hfails
  cases hrelated with
  | ok hbalance => exact .inr ⟨_, _, rfl, rfl, hbalance⟩
  | error fault =>
    cases hfails
    exact .inl ⟨rfl, rfl⟩

end

end HouseLedger
