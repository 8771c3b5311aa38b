import HouseLedger.Proofs.Balance.Store
import HouseLedger.Proofs.Decimal.Congruence
import HouseLedger.Proofs.Related
import HouseLedger.Proofs.Transaction
import Mathlib.Logic.Relator

/-!
# Balances that match

Transactions and entries refer to accounts by their indices, and an amount is a decimal with the
digits by which it was written. `Transaction.Matches V I` says of two transactions that they
differ in these respects only: the amounts are related by `V`, and the indices by `I`. As long
as `I` relates no index to two others, nothing in booking depends on the difference, so that
transactions that match give balances that match (`Balance.Matches.ofTransactions`), in the same
order of entries, or cannot be booked both.
-/

namespace HouseLedger

open Outcome

variable {V : Decimal → Decimal → Prop} {I : ℤ → ℤ → Prop}

/-- Two valid transactions of related amounts between related accounts, the same in all else. -/
structure Transaction.Matches (V : Decimal → Decimal → Prop) (I : ℤ → ℤ → Prop)
    (t t' : Transaction) : Prop where
  valid : t.Valid
  sender : I t.sender t'.sender
  recipient : I t.recipient t'.recipient
  amount : V t.amount t'.amount
  date : t.date = t'.date
  note : t.note = t'.note
  role : t.role = t'.role

/-- Two entries of related balances between related accounts. -/
structure Entry.Matches (V : Decimal → Decimal → Prop) (I : ℤ → ℤ → Prop) (e e' : Entry) :
    Prop where
  sender : I e.sender e'.sender
  recipient : I e.recipient e'.recipient
  balance : V e.balance e'.balance

/-- Two balances with entries that match, in the same order. -/
def Balance.Matches (V : Decimal → Decimal → Prop) (I : ℤ → ℤ → Prop) (b b' : Balance) : Prop :=
  List.Forall₂ (Entry.Matches V I) b.entries b'.entries

/-! ## Indices -/

section

variable {i i' j j' : ℤ} {I' : ℤ → ℤ → Prop}

theorem beq_eq_of_biUnique (hI : Relator.BiUnique I) (hi : I i i') (hj : I j j') :
    (i == j) = (i' == j') := by
  rw [Bool.eq_iff_iff, beq_iff_eq, beq_iff_eq]
  exact Relator.rel_eq hI hi hj

variable {e e' x x' : Entry} {t t' : Transaction}

theorem Transaction.Matches.imp (h : t.Matches V I t') (hI : ∀ i j, I i j → I' i j) :
    t.Matches V I' t' :=
  { h with sender := hI _ _ h.sender, recipient := hI _ _ h.recipient }

theorem Entry.Matches.imp (h : e.Matches V I e') (hI : ∀ i j, I i j → I' i j) :
    e.Matches V I' e' :=
  { h with sender := hI _ _ h.sender, recipient := hI _ _ h.recipient }

theorem Entry.Matches.joins_eq (hI : Relator.BiUnique I) (h : e.Matches V I e') (hi : I i i')
    (hj : I j j') : e.joins i j = e'.joins i' j' := by
  rw [Entry.joins, Entry.joins, beq_eq_of_biUnique hI h.sender hi,
    beq_eq_of_biUnique hI h.recipient hj]

theorem Entry.Matches.involves_eq (hI : Relator.BiUnique I) (h : e.Matches V I e') (hi : I i i') :
    e.involves i = e'.involves i' := by
  rw [Entry.involves, Entry.involves, beq_eq_of_biUnique hI hi h.sender,
    beq_eq_of_biUnique hI hi h.recipient]

theorem Transaction.Matches.signedAmount (hV : Decimal.Congruence V) (h : t.Matches V I t') :
    Related V t.signedAmount t'.signedAmount := by
  rw [Transaction.signedAmount, Transaction.signedAmount, Transaction.signed, Transaction.signed,
    ← h.role]
  cases t.role with
  | invoice => exact hV.checked (hV.neg h.amount)
  | payment => exact .ok h.amount

end

/-! ## Booking -/

namespace Balance

variable {b b' : Balance} {i i' j j' : ℤ}

theorem Matches.empty : Matches V I empty empty := .nil

theorem Matches.find? (hI : Relator.BiUnique I) (h : b.Matches V I b') (hi : I i i')
    (hj : I j j') : Option.Rel (Entry.Matches V I) (b.find? i j) (b'.find? i' j') :=
  rel_find? h fun _ _ he => he.joins_eq hI hi hj

theorem Matches.replace (hI : Relator.BiUnique I) (h : b.Matches V I b') {x x' : Entry}
    (hx : x.Matches V I x') : (b.replace x).Matches V I (b'.replace x') := by
  refine List.rel_map (fun e e' he => ?_) h
  rw [he.joins_eq hI hx.sender hx.recipient]
  split
  · exact hx
  · exact he

/-- Booking related amounts between related accounts keeps balances matching. -/
theorem Matches.apply (hV : Decimal.Congruence V) (hI : Relator.BiUnique I)
    (h : b.Matches V I b') (hi : I i i') (hj : I j j') (hne : i ≠ j) {x x' : Decimal}
    (hx : V x x') :
    Related (fun r r' : Entry × Balance => r.2.Matches V I r'.2) (b.apply i j x)
      (b'.apply i' j' x') := by
  have hne' : i' ≠ j' := mt (Relator.rel_eq hI hi hj).mpr hne
  have hsame := h.find? hI hi hj
  have hreversed := h.find? hI hj hi
  unfold Balance.apply
  generalize b.find? i j = same, b'.find? i' j' = same' at hsame
  generalize b.find? j i = reversed, b'.find? j' i' = reversed' at hreversed
  cases hsame with
  | some he =>
    exact (hV.checked (hV.add he.balance hx)).bind fun _ _ htotal =>
      .ok (h.replace hI ⟨he.sender, he.recipient, htotal⟩)
  | none =>
    cases hreversed with
    | some he =>
      exact (hV.checked (hV.sub he.balance hx)).bind fun _ _ htotal =>
        .ok (h.replace hI ⟨he.sender, he.recipient, htotal⟩)
    | none =>
      dsimp only
      rw [Entry.create, if_neg hne, Entry.create, if_neg hne']
      exact .ok (List.rel_append h (.cons ⟨hi, hj, hx⟩ .nil))

theorem Matches.add (hV : Decimal.Congruence V) (hI : Relator.BiUnique I)
    (h : b.Matches V I b') {t t' : Transaction} (ht : t.Matches V I t') :
    Related (fun r r' : Entry × Balance => r.2.Matches V I r'.2) (b.add t) (b'.add t') :=
  (ht.signedAmount hV).bind fun _ _ hx =>
    h.apply hV hI ht.sender ht.recipient ht.valid.parties_ne hx

theorem Matches.addAll (hV : Decimal.Congruence V) (hI : Relator.BiUnique I)
    (h : b.Matches V I b') {ts ts' : List Transaction}
    (hts : List.Forall₂ (Transaction.Matches V I) ts ts') :
    Related (Matches V I) (b.addAll ts) (b'.addAll ts') := by
  induction hts generalizing b b' with
  | nil => exact .ok h
  | cons ht _ ih =>
    rw [addAll_cons, addAll_cons]
    exact (h.add hV hI ht).bind fun _ _ hr => ih hr

/-- Transactions that match give balances that match. -/
theorem Matches.ofTransactions (hV : Decimal.Congruence V) (hI : Relator.BiUnique I)
    {is is' ps ps' : List Transaction} (his : List.Forall₂ (Transaction.Matches V I) is is')
    (hps : List.Forall₂ (Transaction.Matches V I) ps ps') :
    Related (Matches V I) (ofTransactions is ps) (ofTransactions is' ps') :=
  Matches.empty.addAll hV hI (List.rel_append his hps)

theorem Matches.entriesFor (hI : Relator.BiUnique I) (h : b.Matches V I b') (hi : I i i') :
    List.Forall₂ (Entry.Matches V I) (b.entriesFor i) (b'.entriesFor i') :=
  forall₂_filter h fun _ _ he => he.involves_eq hI hi

end Balance

end HouseLedger
