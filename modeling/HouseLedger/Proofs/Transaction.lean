import HouseLedger.Proofs.Decimal.Value
import HouseLedger.Transaction

/-!
# Valid transactions

A transaction between two accounts, of an amount that is not below zero, is valid
(`Transaction.Valid`), and passes its check (`Transaction.check_of_valid`).
-/

namespace HouseLedger

namespace Transaction

/-- What a transaction has to be for it to be booked. -/
structure Valid (t : Transaction) : Prop where
  parties_ne : t.sender ≠ t.recipient
  amount_nonneg : 0 ≤ t.amount.toRat

theorem check_of_valid {t : Transaction} (h : t.Valid) : t.check = .ok t := by
  rw [check, create, if_neg h.parties_ne,
    if_neg (by rw [(Decimal.isBelowZero_eq_false_iff _).mpr h.amount_nonneg]; decide)]

end Transaction

end HouseLedger
