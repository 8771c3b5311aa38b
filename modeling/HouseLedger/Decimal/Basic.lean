/-!
# Decimal numbers

A decimal is kept as it is written: a sign, a whole coefficient and a power of
ten. `10.0` and `10.00` are the same number and two decimals, and zero has a
sign. This module holds

* the value (`Decimal.toRat`) and the comparison by value (`<`, `≤`);
* sums, differences, products, negation, magnitude and shares, each of which is
  computed exactly and then rounded once, to `Decimal.precision` significant digits
  and to no place below `Decimal.finestPlace`;
* whole numbers as decimals, and the whole part of a decimal.

Rounding has no upper end. Which results are too large to be given is told by
`Decimal.isTooLarge`, and `Decimal.checked` is where that becomes a failure.
-/

namespace HouseLedger

/-- The decimal `± coefficient · 10 ^ exponent`. -/
structure Decimal where
  /-- Whether a minus sign stands in front; a zero may carry one too. -/
  negative : Bool
  /-- The digits of the numeral, trailing zeros included. -/
  coefficient : Nat
  /-- The power of ten that the last digit counts. -/
  exponent : Int
  deriving DecidableEq, Repr, Inhabited

namespace Decimal

/-! ## Value and order -/

/-- Zero as it is written by a single digit. -/
def zero : Decimal := ⟨false, 0, 0⟩

/-- The coefficient with its sign. -/
def signed (x : Decimal) : Int :=
  if x.negative then -(x.coefficient : Int) else x.coefficient

/-- The number that is written by a one and `k` zeros. -/
def powerOfTen (k : Nat) : Nat := Nat.pow 10 k

/-- The rational number that a decimal stands for. -/
def toRat (x : Decimal) : Rat := x.signed * (10 : Rat) ^ x.exponent

/-- How many units of `10 ^ e` the decimal is worth, for an `e` that is not
above its exponent. -/
def unitsAt (x : Decimal) (e : Int) : Int := x.signed * powerOfTen (x.exponent - e).toNat

/-- Decimals compare by value: both are counted in the finer of the two units. -/
instance : LT Decimal where
  lt x y := x.unitsAt (min x.exponent y.exponent) < y.unitsAt (min x.exponent y.exponent)

/-- Not above, by value; two decimals may both be at most the other. -/
instance : LE Decimal where
  le x y := x.unitsAt (min x.exponent y.exponent) ≤ y.unitsAt (min x.exponent y.exponent)

instance (x y : Decimal) : Decidable (x < y) :=
  inferInstanceAs (Decidable (x.unitsAt _ < y.unitsAt _))

instance (x y : Decimal) : Decidable (x ≤ y) :=
  inferInstanceAs (Decidable (x.unitsAt _ ≤ y.unitsAt _))

/-- Whether the decimal is below zero; a zero with a minus sign is not. -/
def isBelowZero (x : Decimal) : Bool := x.negative && x.coefficient != 0

/-! ## Rounding -/

/-- Which neighbour takes a number that lies half-way between two. -/
inductive Tie where
  /-- The even neighbour. -/
  | even
  /-- The neighbour farther from zero. -/
  | away
  deriving DecidableEq, Repr

/-- The whole number nearest to `n / d`. -/
def divRound (tie : Tie) (n d : Nat) : Nat :=
  let q := n / d
  let r := n % d
  if 2 * r < d then q
  else if d < 2 * r then q + 1
  else match tie with
    | .even => q + q % 2
    | .away => q + 1

/-- How many digits stand behind the first one of `n` for certain, which are nearly all
of them: `10 ^ 3` is just below `2 ^ 10`. -/
def digitsBelow (n : Nat) : Nat := n.log2 * 3 / 10

/-- The number of digits that write `n`; zero takes one. Only those in front are
written out to be counted, since that takes long for long numbers. -/
def digitCount (n : Nat) : Nat :=
  digitsBelow n + (Nat.toDigits 10 (n / powerOfTen (digitsBelow n))).length

/-- The number of significant digits that a computed decimal keeps. -/
def precision : Nat := 28

/-- The greatest power of ten that the first digit of a computed decimal may count. -/
def largestPower : Int := 999999

/-- The least power of ten that the last digit of a computed decimal may count. -/
def finestPlace : Int := -1000026

/-- The decimal with a coefficient that was just rounded to `precision` digits.
Rounding up may have carried into one digit more, which is then a power of ten. -/
def ofRounded (negative : Bool) (coefficient : Nat) (exponent : Int) : Decimal :=
  if coefficient = powerOfTen precision then ⟨negative, powerOfTen (precision - 1), exponent + 1⟩
  else ⟨negative, coefficient, exponent⟩

/-- The number of digits at the end of a decimal that rounding drops: those beyond
the precision and those below the finest place. -/
def surplus (x : Decimal) : Nat :=
  max ((digitCount x.coefficient : Int) - precision) (finestPlace - x.exponent) |>.toNat

/-- The decimal of at most `precision` digits and of no digit below the finest place
that is nearest to `x`, an even last digit deciding ties. A decimal of that kind is
left as it is written; the exponent of a zero is brought into the range. -/
def round (x : Decimal) : Decimal :=
  if x.coefficient = 0 then { x with exponent := max finestPlace (min x.exponent largestPower) }
  else if x.surplus = 0 then x
  else
    ofRounded x.negative (divRound .even x.coefficient (powerOfTen x.surplus))
      (x.exponent + x.surplus)

/-- Whether the first digit counts a power of ten above the greatest one. -/
def isTooLarge (x : Decimal) : Bool :=
  x.coefficient != 0 && largestPower < x.exponent + digitCount x.coefficient - 1

/-! ## Arithmetic -/

/-- The same decimal under the other sign. -/
def flip (x : Decimal) : Decimal := { x with negative := !x.negative }

/-- The sum, counted in the finer of the two units and rounded once. A sum of
zero is negative only where both summands are negative zeros. -/
def add (x y : Decimal) : Decimal :=
  let e := min x.exponent y.exponent
  let total := x.unitsAt e + y.unitsAt e
  round ⟨if total = 0 then x.negative && y.negative else total < 0, total.natAbs, e⟩

/-- The difference: the sum with the other sign, which is not rounded before. -/
def sub (x y : Decimal) : Decimal := add x y.flip

/-- The rounded opposite; the opposite of a zero is the positive zero. -/
def neg (x : Decimal) : Decimal :=
  round { x with negative := !x.negative && x.coefficient != 0 }

/-- The rounded magnitude. -/
def magnitude (x : Decimal) : Decimal := round { x with negative := false }

/-- The product: the digits are multiplied and rounded once. -/
def mul (x y : Decimal) : Decimal :=
  round ⟨xor x.negative y.negative, x.coefficient * y.coefficient, x.exponent + y.exponent⟩

instance : Add Decimal := ⟨add⟩
instance : Sub Decimal := ⟨sub⟩
instance : Neg Decimal := ⟨neg⟩
instance : Mul Decimal := ⟨mul⟩

/-! ## Whole numbers -/

/-- A whole number with all its digits. -/
def ofInt (n : Int) : Decimal := ⟨n < 0, n.natAbs, 0⟩

/-- The whole part; the digits behind the point are dropped. -/
def truncate (x : Decimal) : Int :=
  let whole := x.coefficient * powerOfTen x.exponent.toNat / powerOfTen (-x.exponent).toNat
  if x.negative then -(whole : Int) else whole

/-! ## Shares -/

/-- The quotient `± c / n · 10 ^ e`, rounded once. Scaling by enough tens makes its
whole part longer than the precision; the digits beyond are dropped by dividing by a
larger number in the rounding step. -/
def roundedQuotient (negative : Bool) (c n : Nat) (e : Int) : Decimal :=
  let scale := precision + digitCount n
  let scaled := c * powerOfTen scale
  let surplus := (Decimal.mk negative (scaled / n) (e - scale)).surplus
  ofRounded negative (divRound .even scaled (n * powerOfTen surplus)) (e - scale + surplus)

/-- The least number of further decimal places at which `c / n` comes out even,
if it ever does. A divisor `n` that has only the factors two and five has at most
`log₂ n` of either. -/
def exactPlaces? (c n : Nat) : Option Nat :=
  (List.range (n.log2 + 1)).find? fun k => c * powerOfTen k % n == 0

/-- One of `n` equal shares of `x`, rounded once. The share keeps the exponent of `x`
where that is exact and takes more places where that makes it exact. -/
def share (x : Decimal) (n : Nat) : Decimal :=
  if x.coefficient = 0 then x.round
  else
    let rounded := roundedQuotient x.negative x.coefficient n x.exponent
    match exactPlaces? x.coefficient n with
    | none => rounded
    | some k =>
      let quotient := x.coefficient * powerOfTen k / n
      if digitCount quotient ≤ precision then round ⟨x.negative, quotient, x.exponent - k⟩
      else rounded

/-- An exact share keeps its places or takes as many more as it needs. -/
example : (Decimal.mk false 1000 (-2)).share 8 = ⟨false, 125, -2⟩ := by decide

/-- A share that never comes out even has 28 digits. -/
example : (Decimal.mk false 1000 (-2)).share 3 = ⟨false, 3333333333333333333333333333, -27⟩ := by
  decide

end Decimal

end HouseLedger
