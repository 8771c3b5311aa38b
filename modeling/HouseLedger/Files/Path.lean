/-!
# Paths

A path is a list of names, and it begins at the root or at the working directory.
Its written form is normal: empty names and the name `.` say nothing and are left
out. `Path.join` puts one path behind another.
-/

namespace HouseLedger

/-- Where a path begins. -/
inductive Path.Start where
  /-- At the working directory. -/
  | here
  /-- At the root. -/
  | root
  /-- At the root, written with two slashes. Systems may give that a meaning of its
  own, so that it is kept apart. -/
  | doubleRoot
  deriving DecidableEq, Repr

/-- A path in normal form. -/
structure Path where
  /-- Where the path begins. -/
  start : Path.Start
  /-- The names along the path, none of which is empty or `.`. -/
  parts : List String
  deriving DecidableEq, Repr

namespace Path

/-- The slashes that a written path begins with. -/
def Start.toString : Start → String
  | .here => ""
  | .root => "/"
  | .doubleRoot => "//"

/-- Where a written path begins. Three slashes and more are as good as one. -/
def Start.ofString (text : String) : Start :=
  match text.toList with
  | '/' :: '/' :: '/' :: _ => .root
  | '/' :: '/' :: _ => .doubleRoot
  | '/' :: _ => .root
  | _ => .here

/-- The pieces of a written path between its slashes, empty ones included. -/
def pieces (text : String) : List String :=
  (text.toList.splitOn '/').map String.ofList

/-- Whether a piece of a path names something. -/
def isName (piece : String) : Bool := piece != "" && piece != "."

/-- The path that a text writes. -/
def ofString (text : String) : Path := ⟨.ofString text, (pieces text).filter isName⟩

/-- Whether a path begins at the root. -/
def isAbsolute (p : Path) : Bool := p.start != .here

/-- The written form of a path. The working directory itself is a point. -/
def toString (p : Path) : String :=
  if p.start = .here ∧ p.parts = [] then "."
  else p.start.toString ++ String.intercalate "/" p.parts

/-- The path that leads along the first and then along the second; a second path
from the root stands for itself. -/
def join (p q : Path) : Path := if q.isAbsolute then q else { p with parts := p.parts ++ q.parts }

/-- The path without its last name. -/
def parent (p : Path) : Path := { p with parts := p.parts.dropLast }

/-- Whether a written path holds the null character, which no system takes in one. -/
def holdsNull (text : String) : Bool := text.toList.contains '\x00'

/-! ## Examples -/

/-- Empty names and points are left out. -/
example : (ofString "./d//x/").toString = "d/x" := by decide

example : (ofString "//d").toString = "//d" := by decide

example : (ofString "///d").toString = "/d" := by decide

end Path

end HouseLedger
