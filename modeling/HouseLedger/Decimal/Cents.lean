import HouseLedger.Decimal.Basic

/-!
# Cents

Amounts are shown to the cent. `Decimal.hundredths` counts the cents of an amount,
halves going away from zero; `Decimal.toCents?` is the amount with exactly two
places, which exists as long as its digits fit `Decimal.precision`.
-/

namespace HouseLedger

namespace Decimal

/-- The exponent of an amount written to the cent. -/
def centExponent : Int := -2

/-- The magnitude of `x` in whole cents, a half cent counting as one. -/
def hundredths (x : Decimal) : Nat :=
  if centExponent ≤ x.exponent then x.coefficient * powerOfTen (x.exponent - centExponent).toNat
  else divRound .away x.coefficient (powerOfTen (centExponent - x.exponent).toNat)

/-- The decimal rounded to the cent under its own sign, also where it becomes
zero; `none` where that takes more than `precision` digits. -/
def toCents? (x : Decimal) : Option Decimal :=
  if x.hundredths < powerOfTen precision then some ⟨x.negative, x.hundredths, centExponent⟩ else none

end Decimal

end HouseLedger
