import HouseLedger.Fault

/-!
# The range of computed decimals

A computation whose rounded result is too large fails (`Decimal.checked`). Results that
are too small do not: they are rounded to the finest place, to zero if need be.
-/

namespace HouseLedger

namespace Decimal

/-- The result of a computation, unless it is too large. -/
def checked (x : Decimal) : Except Fault Decimal :=
  if x.isTooLarge then .error .overflow else .ok x

/-- A power of ten beyond the range can be written, but it is not the result of a
computation. -/
example : ((Decimal.mk false 1 1000000).round.checked.toOption,
    (Decimal.mk false 1 999999).round.checked.toOption) = (none, some ⟨false, 1, 999999⟩) := by
  decide

/-- Below the finest place a half goes to the even digit. -/
example : ((Decimal.mk false 5 (-1000027)).round, (Decimal.mk false 6 (-1000027)).round) =
    (⟨false, 0, -1000026⟩, ⟨false, 1, -1000026⟩) := by
  decide

end Decimal

end HouseLedger
