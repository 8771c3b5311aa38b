import HouseLedger.Fault
import HouseLedger.Files.Path

/-!
# File trees

Files and directories as a value. A `Tree` tells what is at a place, reads and
writes files and makes directories, and it refuses what a file system refuses, with
the same fault. Paths are followed name by name, so that `..` leads back from a
directory that exists and a file cannot be walked through.

A system may refuse more than the tree gives reason for: the user has no right to a
file, a device fails, or there are too many files open. Each tree says what is refused
(`Tree.refuses`), whatever the reason.
-/

namespace HouseLedger

/-- A place in a file tree: the names that lead to it from the root. -/
abbrev Place := List String

/-- What is at a place. -/
inductive Node where
  /-- Nothing. -/
  | missing
  /-- A file with these bytes. -/
  | file (bytes : ByteArray)
  /-- A directory. -/
  | directory

/-- Whether a directory is there. -/
def Node.isDirectory : Node → Bool
  | .directory => true
  | _ => false

/-- The bytes of the file that is there. -/
def Node.bytes? : Node → Option ByteArray
  | .file bytes => some bytes
  | _ => none

/-- Whether a file is there. -/
def Node.isFile (n : Node) : Bool := n.bytes?.isSome

/-- Whether a file with just these bytes is there. -/
def Node.holds (bytes : ByteArray) : Node → Bool
  | .file found => found.data == bytes.data
  | _ => false

/-- What is to be done with what is at a place. -/
inductive Access where
  /-- Opening it to read. -/
  | opening
  /-- Reading the bytes of a file that is open. -/
  | reading
  /-- Opening it to write, or beginning it. -/
  | writing
  /-- Making it as a directory. -/
  | making
  deriving DecidableEq, Repr

/-- The directories and files of a system. -/
structure Tree where
  /-- The working directory. -/
  here : Place
  /-- The directories apart from the root. -/
  directories : List Place
  /-- The files, each place at most once. -/
  files : List (Place × ByteArray)
  /-- What the system refuses beyond that, and the fault that it gives. -/
  refuses : Access → Place → Option FileFault := fun _ _ => none
  /-- The characters that can be put out. An argument may hold bytes that are no text;
  the characters that it has in their place cannot. -/
  encodes : Char → Bool := fun _ => true

namespace Tree

/-! ## Looking -/

/-- The greatest number of bytes in a name. -/
def maxNameSize : Nat := 255

/-- The greatest number of bytes in a written path. -/
def maxPathSize : Nat := 4095

/-- What is at a place. -/
def look (t : Tree) (place : Place) : Node :=
  if place = [] ∨ place ∈ t.directories then .directory
  else match t.files.lookup place with
    | some bytes => .file bytes
    | none => .missing

/-- Follows one piece of a path from a place, which has to be a directory. -/
def follow (t : Tree) (place : Place) (piece : String) : Except FileFault Place :=
  match t.look place with
  | .missing => .error .missing
  | .file _ => .error .notDirectory
  | .directory =>
    if !Path.isName piece then .ok place
    else if piece = ".." then .ok place.dropLast
    else if maxNameSize < piece.utf8ByteSize then .error .nameTooLong
    else .ok (place ++ [piece])

/-- The place that a written path leads to, whether something is there or not. -/
def locate (t : Tree) (path : String) : Except FileFault Place :=
  if path = "" then .error .missing
  else if maxPathSize < path.utf8ByteSize then .error .nameTooLong
  else (Path.pieces path).foldlM t.follow (if Path.Start.ofString path = .here then t.here else [])

/-- What a written path leads to. -/
def nodeAt (t : Tree) (path : String) : Node :=
  match t.locate path with
  | .ok place => t.look place
  | .error _ => .missing

/-- Whether the user has no right to read what a path leads to. -/
def isBarred (t : Tree) (path : String) : Bool :=
  match t.locate path with
  | .error _ => false
  | .ok place =>
    match t.look place with
    | .missing => false
    | _ => t.refuses .opening place = some .denied

/-- Opens the file at a path. What is read from it then is returned with its place. -/
def openFile (t : Tree) (path : String) : Except FileFault (Place × ByteArray) := do
  let place ← t.locate path
  match t.look place, t.refuses .opening place with
  | .missing, _ => throw .missing
  | _, some fault => throw fault
  | .directory, none => throw .isDirectory
  | .file bytes, none => return (place, bytes)

/-- The bytes of the file at a path. A system that cannot open the file tells its path,
and one that cannot read from it does not. -/
def read (t : Tree) (path : String) : Except Fault ByteArray := do
  let (place, bytes) ← (t.openFile path).mapError (.file · path)
  match t.refuses .reading place with
  | some fault => throw (.reading fault)
  | none => return bytes

/-- The bytes of the file at a path, if a file can have the path. -/
def readPath (t : Tree) (p : Path) : Except Fault ByteArray :=
  if Path.holdsNull p.toString then .error .nullInPath else t.read p.toString

/-- What comes of reading a path, if it leads to a file that the user may read. -/
def read? (t : Tree) (path : String) : Option (Except Fault ByteArray) :=
  if (t.nodeAt path).isFile && !t.isBarred path then some (t.read path) else none

/-- Whether a path is closed to a directory: there is a file, or something that the user
may not read. -/
def isClosed (t : Tree) (path : String) : Bool := (t.nodeAt path).isFile || t.isBarred path

/-! ## Changing -/

/-- Whether a text can be put out. -/
def encodesText (t : Tree) (text : String) : Bool := text.toList.all t.encodes

/-- Puts bytes into the file at a place. -/
def put (t : Tree) (place : Place) (bytes : ByteArray) : Tree :=
  { t with files := (place, bytes) :: t.files.filter (·.1 ≠ place) }

/-- Writes the file at a path, whose directory has to exist. -/
def write (t : Tree) (path : String) (bytes : ByteArray) : Except FileFault Tree := do
  let place ← t.locate path
  match t.look place, t.refuses .writing place with
  | .directory, _ => throw .isDirectory
  | _, some fault => throw fault
  | _, none => return t.put place bytes

/-- Makes a directory at a path where nothing is, in a directory that exists. -/
def makeDirectory (t : Tree) (path : String) : Except FileFault Tree := do
  let place ← t.locate path
  match t.look place, t.refuses .making place with
  | .missing, some fault => throw fault
  | .missing, none => return { t with directories := place :: t.directories }
  | _, _ => throw .taken

/-- Makes a directory unless there is one already. -/
def makeIfNone (t : Tree) (path : String) : Except FileFault Tree :=
  match t.makeDirectory path with
  | .ok t => .ok t
  | .error .missing => .error .missing
  | .error fault => if (t.nodeAt path).isDirectory then .ok t else .error fault

/-- Makes a directory along with those that lead to it, unless they exist. The names
of the path are given last first. A fault comes with the path that it is about. -/
def ensureAlong (t : Tree) (start : Path.Start) (names : List String) : Except Fault Tree :=
  let path := (Path.mk start names.reverse).toString
  match t.makeIfNone path, names with
  | .ok t, _ => .ok t
  | .error .missing, _ :: earlier => do
    let t ← t.ensureAlong start earlier
    (t.makeIfNone path).mapError (.file · path)
  | .error fault, _ => .error (.file fault path)

/-- Makes a directory along with those that lead to it, unless they exist. -/
def ensureDirectory (t : Tree) (p : Path) : Except Fault Tree :=
  t.ensureAlong p.start p.parts.reverse

/-! ## Whole trees -/

/-- The tree in which the files lie at their paths under the working directory,
with the directories that they need. -/
def ofFiles (here : Place) (files : List (String × ByteArray)) : Tree :=
  let places := files.map fun (path, bytes) => (here ++ (Path.ofString path).parts, bytes)
  let leading := (here :: places.map fun (place, _) => place.dropLast).flatMap fun place =>
    (List.range place.length).map fun k => place.take (k + 1)
  { here := here, directories := leading.eraseDups, files := places }

/-- The files of a tree that are new or have other bytes than in an earlier tree,
with their paths from the working directory. Files elsewhere are not listed. -/
def changesSince (t earlier : Tree) : List (String × ByteArray) :=
  t.files.filterMap fun (place, bytes) =>
    if t.here.isPrefixOf place && !(earlier.look place).holds bytes then
      some (String.intercalate "/" (place.drop t.here.length), bytes)
    else none

end Tree

end HouseLedger
