import HouseLedger.Decimal.Cents
import HouseLedger.Fault
import HouseLedger.Text.Blank

/-!
# Amounts

How amounts of money are read and shown. A ledger writes an amount as digits, a
point and digits, without a sign (`WrittenAmount`). Reports show it to the cent,
`12.50 CHF` or `12.- CHF` (`Amount.display`), and show an amount that may be below
zero with a sign in front (`Amount.displaySigned`).
-/

namespace HouseLedger

/-- The digits of an amount as a ledger writes it. -/
structure WrittenAmount where
  /-- The digits before the point, at least one. -/
  whole : List Char
  /-- The digits after the point, at least one. -/
  fraction : List Char
  deriving DecidableEq, Repr

namespace WrittenAmount

/-- Takes a written amount off the front of a text, with all the digits that stand
there. -/
def take? (text : List Char) : Option (WrittenAmount × List Char) :=
  let (whole, rest) := text.span Char.isDigit
  match rest with
  | '.' :: rest =>
    let (fraction, rest) := rest.span Char.isDigit
    if whole = [] ∨ fraction = [] then none else some (⟨whole, fraction⟩, rest)
  | _ => none

/-- The decimal with these digits, none of them dropped. -/
def toDecimal (w : WrittenAmount) : Decimal := Decimal.ofDigits w.whole w.fraction

end WrittenAmount

namespace Amount

/-- The currency that amounts are shown in if no other is named. -/
def defaultCurrency : String := "CHF"

/-- One cent. -/
def cent : Decimal := ⟨false, 1, Decimal.centExponent⟩

/-- Reads a text that is a written amount but for blanks around it. -/
def ofString (text : String) : Except Fault Decimal :=
  let body := Text.strip text.toList
  if body = [] then .error .amountBlank
  else match WrittenAmount.take? body with
    | some (written, []) => .ok written.toDecimal
    | _ => .error (.amountUnreadable (String.ofList body))

/-- The amount rounded to the cent, a half going away from zero. -/
def toCents (amount : Decimal) : Except Fault Decimal :=
  match amount.toCents? with
  | some rounded => .ok rounded
  | none => .error .centsTooLong

/-- Writes units and cents: the units, a point, and the two digits of the cents or a
dash for none. -/
def writeParts (units cents : Int) : String :=
  if 0 < cents then
    units.repr ++ "." ++
      String.ofList [(cents.toNat / 10).digitChar, (cents.toNat % 10).digitChar]
  else units.repr ++ ".-"

/-- Writes an amount that was rounded to the cent. Its whole part is the units, and a
hundred times what is left are the cents; both are far from the end of the range. -/
def write (rounded : Decimal) : String :=
  let units := rounded.truncate
  let cents := ((rounded - .ofInt units) * .ofInt 100).truncate
  writeParts units cents

/-- Shows an amount that is not below zero. -/
def display (amount : Decimal) (currency : String) : Except Fault String := do
  if amount.isBelowZero then throw (.amountBelowZero amount)
  let rounded ← toCents amount
  return write rounded ++ " " ++ currency

/-- Shows an amount with a minus sign in front if it is below zero to the cent. An
amount that can be rounded to the cent is not too large for its magnitude. -/
def displaySigned (amount : Decimal) (currency : String) : Except Fault String := do
  let rounded ← toCents amount
  let shown ← display amount.magnitude currency
  return (if rounded.isBelowZero then "-" else "") ++ shown

/-! ## Examples -/

example : write ⟨false, 1235, -2⟩ = "12.35" := by decide

example : write ⟨false, 1200, -2⟩ = "12.-" := by decide

example : write ⟨true, 0, -2⟩ = "0.-" := by decide

end Amount

end HouseLedger
