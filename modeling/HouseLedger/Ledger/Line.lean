import HouseLedger.Amount
import HouseLedger.Calendar.Written

/-!
# Lines of a ledger

The grammar of a ledger's lines, with `_` for any single blank:

* the header: `KEYWORD _ DATE`;
* an empty line, and a comment that begins with `//`;
* an account: `account _ AC _ NAME`;
* an invoice: `invoice _ AC (_ : _ AC)* (_ -> _ AC)+ _ AMOUNT _ DATE _ NOTE`, where
  `_ - _ DATE _ : _ DATE` may stand before the last blank and makes it recurring;
* a payment: `payment _ AC _ -> _ AC _ AMOUNT _ DATE _ NOTE`.

`AC` is two capital letters of ASCII, and `NAME` and `NOTE` are any text but the
empty one. The first word and the next blank tell the forms apart, so no line has
two of them. Each `take…?` function takes one part off the front of a text and
returns the rest. There is one rule for each form, and `Line.ofText?` reads a line by
the first of the rules that it fits.

The accounts of an invoice are taken as one text, which is divided afterwards: at the
arrows, and what stands before the first arrow at the colons (`Line.splitParties?`).
-/

namespace HouseLedger

/-- An invoice as it is written. -/
structure InvoiceLine where
  /-- The acronym of the account that shares the bill first. -/
  sender : String
  /-- The acronyms of the accounts that share the bill as well. -/
  sharers : List String
  /-- The acronym of the account that the bill is owed to. -/
  recipient : String
  /-- The acronyms of the accounts that the amount is forwarded to, one by one. -/
  chain : List String
  /-- The amount of the whole bill. -/
  amount : WrittenAmount
  /-- The day, or the first day, of the invoice. -/
  start : WrittenDate
  /-- For a recurring invoice the last possible day and the period. -/
  recurrence : Option (WrittenDate × WrittenDate)
  /-- What it is for. -/
  note : String
  deriving DecidableEq, Repr

/-- A payment as it is written. -/
structure PaymentLine where
  /-- The acronym of the account that pays. -/
  sender : String
  /-- The acronym of the account that is paid. -/
  recipient : String
  /-- The amount. -/
  amount : WrittenAmount
  /-- The day. -/
  date : WrittenDate
  /-- What it is for. -/
  note : String
  deriving DecidableEq, Repr

/-- A line of a ledger after its header. -/
inductive Line where
  /-- An empty line. -/
  | blank
  /-- A line that is only for the reader. -/
  | comment
  /-- The declaration of an account. -/
  | account (acronym name : String)
  /-- An invoice. -/
  | invoice (fields : InvoiceLine)
  /-- A payment. -/
  | payment (fields : PaymentLine)
  deriving DecidableEq, Repr

namespace Line

/-! ## Parts -/

/-- Takes one blank. -/
def takeBlank? : List Char → Option (List Char)
  | c :: rest => if Text.isBlank c then some rest else none
  | [] => none

/-- Takes a word, letter by letter. -/
def takeWord? (word : String) (text : List Char) : Option (List Char) :=
  word.toList.isPrefixOf? text

/-- Takes an acronym. -/
def takeAcronym? : List Char → Option (String × List Char)
  | a :: b :: rest => if a.isUpper && b.isUpper then some (String.ofList [a, b], rest) else none
  | _ => none

/-- Takes as many accounts as follow, each behind a colon. -/
def takeSharers : List Char → List String × List Char
  | v :: ':' :: w :: a :: b :: rest =>
    if Text.isBlank v && Text.isBlank w && a.isUpper && b.isUpper then
      let (more, rest) := takeSharers rest
      (String.ofList [a, b] :: more, rest)
    else ([], v :: ':' :: w :: a :: b :: rest)
  | text => ([], text)

/-- Takes as many accounts as follow, each behind an arrow. -/
def takeRecipients : List Char → List String × List Char
  | v :: '-' :: '>' :: w :: a :: b :: rest =>
    if Text.isBlank v && Text.isBlank w && a.isUpper && b.isUpper then
      let (more, rest) := takeRecipients rest
      (String.ofList [a, b] :: more, rest)
    else ([], v :: '-' :: '>' :: w :: a :: b :: rest)
  | text => ([], text)

/-- Takes the accounts of an invoice, which is the text that names them: an account,
others behind colons, and at least one behind an arrow. -/
def takeParties? (text : List Char) : Option (List Char × List Char) := do
  let (_, rest) ← takeAcronym? text
  let (_ :: _, rest) := takeRecipients (takeSharers rest).2 | none
  return (text.take (text.length - rest.length), rest)

/-- Takes a blank and the amount behind it. -/
def takeAmount? (text : List Char) : Option (WrittenAmount × List Char) := do
  WrittenAmount.take? (← takeBlank? text)

/-- Takes a blank and the date behind it. -/
def takeDate? (text : List Char) : Option (WrittenDate × List Char) := do
  WrittenDate.take? (← takeBlank? text)

/-- Takes a blank and a mark behind it. -/
def takeMark? (mark : String) (text : List Char) : Option (List Char) := do
  takeWord? mark (← takeBlank? text)

/-- Takes all that is left: a blank and a text that is not empty. -/
def takeNote? (text : List Char) : Option String :=
  match takeBlank? text with
  | some (c :: rest) => some (String.ofList (c :: rest))
  | _ => none

/-- Takes the last possible day and the period of a recurring invoice. -/
def takeRecurrence? (text : List Char) : Option ((WrittenDate × WrittenDate) × List Char) := do
  let text ← takeMark? "-" text
  let (finish, text) ← takeDate? text
  let text ← takeMark? ":" text
  let (period, text) ← takeDate? text
  return ((finish, period), text)

/-- Takes all that is left of an invoice behind its date. What can be read as a
recurrence with a note behind it is read so; otherwise all of it is the note. -/
def takeTerms? (text : List Char) : Option (Option (WrittenDate × WrittenDate) × String) :=
  let recurring := do
    let (recurrence, text) ← takeRecurrence? text
    let note ← takeNote? text
    return (some recurrence, note)
  recurring.or ((takeNote? text).map fun note => (none, note))

/-! ## Dividing parties -/

/-- Whether a separator comes next: the mark with a blank on either side. -/
def atSeparator (mark : String) (text : List Char) : Bool :=
  ((takeMark? mark text).bind takeBlank?).isSome

/-- The pieces of a text between its separators. `piece` holds, last character first,
what was read of the current piece, and `skip` counts the characters that still belong
to a separator. -/
def cutAtMark (mark : String) (piece : List Char) : Nat → List Char → List (List Char)
  | _, [] => [piece.reverse]
  | skip + 1, _ :: rest => cutAtMark mark piece skip rest
  | 0, c :: rest =>
    if atSeparator mark (c :: rest) then
      piece.reverse :: cutAtMark mark [] (mark.length + 1) rest
    else cutAtMark mark (c :: piece) 0 rest

/-- The pieces of a text between the separators with the mark. -/
def splitAtMark (mark : String) (text : List Char) : List (List Char) :=
  cutAtMark mark [] 0 text

/-- The acronyms in the parties of an invoice: what stands behind an arrow receives, and
what stands between colons before the first arrow shares the bill. -/
def splitParties? (parties : List Char) :
    Option ((String × List String) × String × List String) := do
  let senders :: recipient :: chain := splitAtMark "->" parties | none
  let sender :: sharers := splitAtMark ":" senders | none
  return ((.ofList sender, sharers.map .ofList), .ofList recipient, chain.map .ofList)

/-! ## Lines -/

/-- Reads an empty line. -/
def blank? (text : List Char) : Option Line := if text = [] then some .blank else none

/-- Reads a comment. -/
def comment? (text : List Char) : Option Line := (takeWord? "//" text).map fun _ => .comment

/-- Reads the declaration of an account. -/
def account? (text : List Char) : Option Line := do
  let text ← takeBlank? (← takeWord? "account" text)
  let (acronym, text) ← takeAcronym? text
  let name ← takeNote? text
  return .account acronym name

/-- Reads an invoice. -/
def invoice? (text : List Char) : Option Line := do
  let text ← takeBlank? (← takeWord? "invoice" text)
  let (parties, text) ← takeParties? text
  let (amount, text) ← takeAmount? text
  let (start, text) ← takeDate? text
  let (recurrence, note) ← takeTerms? text
  let ((sender, sharers), recipient, chain) ← splitParties? parties
  return .invoice ⟨sender, sharers, recipient, chain, amount, start, recurrence, note⟩

/-- Reads a payment. -/
def payment? (text : List Char) : Option Line := do
  let text ← takeBlank? (← takeWord? "payment" text)
  let (sender, text) ← takeAcronym? text
  let text ← takeBlank? (← takeMark? "->" text)
  let (recipient, text) ← takeAcronym? text
  let (amount, text) ← takeAmount? text
  let (date, text) ← takeDate? text
  let note ← takeNote? text
  return .payment ⟨sender, recipient, amount, date, note⟩

/-- The rules for lines, in the order in which they are tried. -/
def rules : List (List Char → Option Line) := [blank?, comment?, account?, invoice?, payment?]

/-- Reads a line; `none` for one that has none of the forms. -/
def ofText? (text : List Char) : Option Line := rules.findSome? fun rule => rule text

/-- Reads the first line of a ledger, which has nothing behind its date. -/
def header? (keyword : String) (text : List Char) : Option WrittenDate := do
  let (date, []) ← takeDate? (← takeWord? keyword text) | none
  return date

/-- A recurrence without a note behind it is a note itself. -/
example : takeTerms? " - 1.3.2020 : 0.1.0000".toList = some (none, "- 1.3.2020 : 0.1.0000") := by
  decide

/-- Any blank will do on either side of a mark. -/
example : splitParties? "AA : BB\t->\x0cCC".toList = some (("AA", ["BB"]), "CC", []) := by decide

end Line

end HouseLedger
