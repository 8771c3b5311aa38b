import HouseLedger.Decimal.Basic

/-!
# Decimals as text

`Decimal.toString` writes a decimal so that its digits and its exponent can be
read off again: positionally for an exponent of at most zero and a number that is
not tiny, with a power of ten otherwise. `Decimal.ofString?` reads both forms.
-/

namespace HouseLedger

namespace Decimal

/-! ## Writing -/

/-- The largest number of zeros between the point and the first digit that are
still written out. -/
def maxLeadingZeros : Nat := 5

/-- The digits with a point before the last `places` of them, filled up with zeros
so that a digit stands before the point. -/
def positional (digits : List Char) (places : Nat) : List Char :=
  if places = 0 then digits
  else
    let padded := List.replicate (places + 1 - digits.length) '0' ++ digits
    let whole := padded.length - places
    padded.take whole ++ '.' :: padded.drop whole

/-- The digits with a point after the first, and the power of ten of that first
digit with its sign. -/
def scientific (digits : List Char) (power : Int) : List Char :=
  let mantissa := match digits with
    | first :: second :: rest => first :: '.' :: second :: rest
    | short => short
  mantissa ++ 'E' :: (if power < 0 then '-' else '+') :: Nat.toDigits 10 power.natAbs

/-- The written form of a decimal. -/
def toString (x : Decimal) : String :=
  let digits := Nat.toDigits 10 x.coefficient
  let power := x.exponent + digits.length - 1
  let body :=
    if x.exponent ≤ 0 ∧ -(maxLeadingZeros + 1 : Int) ≤ power then
      positional digits x.exponent.natAbs
    else scientific digits power
  String.ofList (if x.negative then '-' :: body else body)

/-! ## Reading -/

/-- Digits on the way to the number that they write, the last of them in a block of
their own. -/
structure DigitReader where
  /-- The number that the digits before the block write. -/
  before : Nat := 0
  /-- The number that the digits of the block write. -/
  block : Nat := 0
  /-- The power of ten that has as many zeros as the block has digits. -/
  scale : Nat := 1

namespace DigitReader

/-- The number that the digits write. -/
def value (r : DigitReader) : Nat := r.before * r.scale + r.block

/-- The power of ten at which a block is full. -/
def fullScale : Nat := powerOfTen 200

/-- One digit more. A full block is put to the digits before it, which are multiplied
once for the block and not for every digit. -/
def push (r : DigitReader) (digit : Char) : DigitReader :=
  let r := if r.scale = fullScale then ⟨r.value, 0, 1⟩ else r
  ⟨r.before, Nat.ofDigitChars 10 [digit] r.block, 10 * r.scale⟩

end DigitReader

/-- The number that digits write. -/
def readDigits (digits : List Char) : Nat := (digits.foldl DigitReader.push {}).value

/-- The decimal `whole.fraction`, both given by their digits. -/
def ofDigits (whole fraction : List Char) : Decimal :=
  ⟨false, readDigits (whole ++ fraction), -(fraction.length : Int)⟩

/-- Takes a sign off the front of a numeral; the flag says whether it is a minus. -/
def takeSign : List Char → Bool × List Char
  | '-' :: rest => (true, rest)
  | '+' :: rest => (false, rest)
  | text => (false, text)

/-- Reads what may follow the digits of a numeral: nothing, or a power of ten. -/
def readPower? : List Char → Option Int
  | [] => some 0
  | mark :: text =>
    let (negative, digits) := takeSign text
    if (mark = 'E' ∨ mark = 'e') ∧ digits ≠ [] ∧ digits.all Char.isDigit then
      let power : Nat := Nat.ofDigitChars 10 digits 0
      some (if negative then -(power : Int) else power)
    else none

/-- Reads a decimal numeral: a sign, digits with or without a point among them,
and a power of ten, of which only some digit is required. -/
def ofString? (text : String) : Option Decimal :=
  let (negative, body) := takeSign text.toList
  let (whole, rest) := body.span Char.isDigit
  let (fraction, tail) := match rest with
    | '.' :: more => more.span Char.isDigit
    | other => ([], other)
  if whole = [] ∧ fraction = [] then none
  else (readPower? tail).map fun power =>
    let x := ofDigits whole fraction
    { x with negative := negative, exponent := x.exponent + power }

/-! ## Examples -/

example : (Decimal.mk true 150 (-2)).toString = "-1.50" := by decide

example : (Decimal.mk false 0 (-8)).toString = "0E-8" := by decide

example : (Decimal.mk false 15 2).toString = "1.5E+3" := by decide

example : ofString? "-0.00" = some ⟨true, 0, -2⟩ := by decide

end Decimal

end HouseLedger
