/-!
# Lines

Only a line feed ends a line, and one carriage return right before it belongs to
the break. Every other control character stands inside its line. A text that ends
in a break has no further empty line after it.

A file may come from a system that breaks lines by carriage returns;
`unifyBreaks` writes each of its breaks as a line feed.
-/

namespace HouseLedger

namespace Text

/-- The first line of a text and the pieces after it, cut at the breaks; `line`
holds, last character first, what was read of the current line. -/
def cutAtBreaks (line : List Char) : List Char → List Char × List (List Char)
  | [] => (line.reverse, [])
  | '\n' :: rest => let (next, more) := cutAtBreaks [] rest; (line.reverse, next :: more)
  | '\r' :: '\n' :: rest => let (next, more) := cutAtBreaks [] rest; (line.reverse, next :: more)
  | c :: rest => cutAtBreaks (c :: line) rest

/-- The first line of a text and the lines after it. An empty piece behind the last
break is no line. -/
def splitLines (text : List Char) : List Char × List (List Char) :=
  let (first, later) := cutAtBreaks [] text
  (first, if later.getLast? = some [] then later.dropLast else later)

/-- Writes every break, a lone carriage return among them, as one line feed; `done`
holds the text before, last character first. -/
def unifyBreaksOnto (done : List Char) : List Char → List Char
  | [] => done.reverse
  | '\r' :: '\n' :: rest => unifyBreaksOnto ('\n' :: done) rest
  | '\r' :: rest => unifyBreaksOnto ('\n' :: done) rest
  | c :: rest => unifyBreaksOnto (c :: done) rest

/-- The text with a line feed for every break. -/
def unifyBreaks (text : List Char) : List Char := unifyBreaksOnto [] text

/-- One carriage return belongs to the break; a second one stands in the line. -/
example : splitLines "a\r\r\nb\n".toList = ("a\r".toList, ["b".toList]) := by decide

end Text

end HouseLedger
