import HouseLedger.Text.Printable

/-!
# Quoted text

A file name is quoted in messages so that its ends can be seen: between single
quotes, or between double quotes where it holds single quotes and no double ones.
The quote in use and the backslash are escaped, and so is every character that is
not printable.
-/

namespace HouseLedger

namespace Text

/-- The last `width` hexadecimal digits of a number, filled up with zeros. -/
def hexDigits (width n : Nat) : List Char :=
  let digits := Nat.toDigits 16 n
  List.replicate (width - digits.length) '0' ++ digits

/-- The quote that a text is put between. -/
def quoteFor (text : List Char) : Char :=
  if '\'' ∈ text ∧ '"' ∉ text then '"' else '\''

/-- A character as it stands between two `quote` marks. An escape by number has the
least of three widths that holds the code point. -/
def escapeChar (quote c : Char) : List Char :=
  if c = quote ∨ c = '\\' then ['\\', c]
  else if c = '\n' then ['\\', 'n']
  else if c = '\r' then ['\\', 'r']
  else if c = '\t' then ['\\', 't']
  else if isPrintable c then [c]
  else if c.toNat < 0x100 then '\\' :: 'x' :: hexDigits 2 c.toNat
  else if c.toNat < 0x10000 then '\\' :: 'u' :: hexDigits 4 c.toNat
  else '\\' :: 'U' :: hexDigits 8 c.toNat

/-- The text between quotes. -/
def quoted (text : String) : String :=
  let quote := quoteFor text.toList
  String.ofList (quote :: text.toList.flatMap (escapeChar quote) ++ [quote])

/-! ## Examples -/

example : quoted "no/such" = "'no/such'" := by decide

example : quoted "it's" = "\"it's\"" := by decide

end Text

end HouseLedger
