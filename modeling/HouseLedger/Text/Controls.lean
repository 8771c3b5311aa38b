/-!
# Control sequences

A terminal takes some sequences of characters as commands: the escape character, an
opening bracket, any number of parameters, and one letter. `plain` leaves them out
of a text, for where no terminal reads it. Whatever only begins like a control
sequence stays.
-/

namespace HouseLedger

namespace Text

/-- The character that begins a control sequence. -/
def escape : Char := '\x1b'

/-- Whether a character may stand between the bracket of a control sequence and its
letter. -/
def isParameter (c : Char) : Bool := c.isDigit || c == ';' || c == '?'

/-- Leaves out the control sequences; `done` holds what stays of the text before, and
`held` the beginning of a control sequence that may be going on, both last character
first. -/
def withoutControlsOnto (done held : List Char) : List Char → List Char
  | [] => (held ++ done).reverse
  | c :: rest =>
    if c = escape then withoutControlsOnto (held ++ done) [c] rest
    else match held with
      | [] => withoutControlsOnto (c :: done) [] rest
      | [_] =>
        if c = '[' then withoutControlsOnto done (c :: held) rest
        else withoutControlsOnto (c :: held ++ done) [] rest
      | _ =>
        if isParameter c then withoutControlsOnto done (c :: held) rest
        else if c.isAlpha then withoutControlsOnto done [] rest
        else withoutControlsOnto (c :: held ++ done) [] rest

/-- The text without its control sequences. -/
def withoutControls (text : List Char) : List Char := withoutControlsOnto [] [] text

/-- The text as it is written where no terminal reads it. -/
def plain (text : String) : String := String.ofList (withoutControls text.toList)

/-! ## Examples -/

example : plain "a\x1b[1;31mb" = "ab" := by decide

/-- A control sequence that another one breaks off stays. -/
example : plain "a\x1b[\x1b[0mmb" = "a\x1b[mb" := by decide

end Text

end HouseLedger
