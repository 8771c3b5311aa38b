import HouseLedger.Decimal.Numeral
import Mathlib.Tactic

/-!
# Numbers that digits write

Digits are read in blocks, and come to the number that they write (`Decimal.readDigits_eq`),
however many there are. So what long digits write can be told without reading them.
-/

namespace HouseLedger

namespace Decimal

namespace DigitReader

/-- A digit goes behind the number that was read. -/
theorem value_push (r : DigitReader) (digit : Char) :
    (r.push digit).value = Nat.ofDigitChars 10 [digit] r.value := by
  have hpush (before block scale : ℕ) : before * (10 * scale) + Nat.ofDigitChars 10 [digit] block =
      Nat.ofDigitChars 10 [digit] (before * scale + block) := by
    rw [Nat.ofDigitChars_cons, Nat.ofDigitChars_cons, Nat.ofDigitChars_nil, Nat.ofDigitChars_nil]
    ring
  unfold push
  split
  · rw [value, hpush]
    simp
  · exact hpush ..

theorem value_foldl_push (r : DigitReader) (digits : List Char) :
    (digits.foldl push r).value = Nat.ofDigitChars 10 digits r.value := by
  induction digits generalizing r with
  | nil => rfl
  | cons digit digits ih =>
    rw [List.foldl_cons, ih, value_push, ← Nat.ofDigitChars_append, List.singleton_append]

end DigitReader

theorem readDigits_eq (digits : List Char) :
    readDigits digits = Nat.ofDigitChars 10 digits 0 :=
  DigitReader.value_foldl_push {} digits

end Decimal

end HouseLedger
