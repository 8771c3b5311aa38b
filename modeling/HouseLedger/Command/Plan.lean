import HouseLedger.Command.Invocation
import HouseLedger.Files.Path
import HouseLedger.Ledger.Reading
import HouseLedger.Report.StatementText

/-!
# Plans

What a run of the command does once the ledger file has been read or could not be: its
log, a list of steps, and how it ends. A plan is a value and touches no file, so all that
the command decides is decided here. A fault ends the list of steps where it arises:
statements before it are still written, but no step is planned before the statements
of all the accounts exist.
-/

namespace HouseLedger

namespace Command

/-- The directory that files go to: the one that is named, unless its name is empty,
or else that of the ledger. -/
def Invocation.directory (i : Invocation) : Path :=
  match i.outputDirectory with
  | some "" | none => (Path.ofString i.ledger).parent
  | some directory => Path.ofString directory

/-- A step that can be seen from outside. -/
inductive Step where
  /-- Prints text. -/
  | print (text : String)
  /-- Makes a directory, and those that lead to it, unless it exists. -/
  | ensureDirectory (path : Path)
  /-- Writes a text to a file. -/
  | write (path : Path) (text : String)
  deriving DecidableEq, Repr

/-- What a run of the command does. -/
structure Plan where
  /-- What the log tells if it is wanted. -/
  events : List Event := []
  /-- The steps in their order. -/
  steps : List Step := []
  /-- The fault that ends the run behind the last step, if there is one. -/
  fault : Option Fault := none
  deriving DecidableEq

/-- Whether a fault is told to the user, which ends the run in an orderly way. The
other faults break the run off. -/
def isReported : Fault → Bool
  | .overflow | .centsTooLong | .notText | .notEncodable | .nullInPath => false
  | _ => true

/-- The steps up to the first fault, and that fault. -/
def untilFault : List (Except Fault (List Step)) → List Step × Option Fault
  | [] => ([], none)
  | .error fault :: _ => ([], some fault)
  | .ok steps :: rest =>
    let (more, fault) := untilFault rest
    (steps ++ more, fault)

namespace Plan

/-- The plan to go through parts in their order up to the first fault. -/
def ofParts (events : List Event) (parts : List (Except Fault (List Step))) : Plan :=
  let (steps, fault) := untilFault parts
  ⟨events, steps, fault⟩

/-! ## The three tasks -/

/-- Prints the overview. -/
def overviewParts (l : Ledger) (b : Balance) (currency : String) :
    List (Except Fault (List Step)) :=
  [(Report.overview l b currency).map fun text => [.print text]]

/-- Prints statements, with an empty line between two. -/
def printParts (l : Ledger) (currency : String) (statements : List Statement) :
    List (Except Fault (List Step)) :=
  let parts := statements.map fun s =>
    (Report.statement s l.accounts currency).map fun text => [.print text]
  parts.intersperse (.ok [.print "\n"])

/-- Writes one statement to its file in a directory and says so. -/
def writePart (l : Ledger) (currency : String) (directory : Path) (s : Statement) :
    Except Fault (List Step) := do
  let path := directory.join (Path.ofString (Report.fileName s))
  let text ← Report.statement s l.accounts currency
  if Path.holdsNull path.toString then throw .nullInPath
  return [.write path text,
    .print s!"Wrote statement for {s.account.acronym} to {path.toString}\n"]

/-- Writes statements to a directory, which is made first. -/
def writeParts (l : Ledger) (currency : String) (directory : Path)
    (statements : List Statement) : List (Except Fault (List Step)) :=
  .ok [.ensureDirectory directory] :: statements.map (writePart l currency directory)

/-- What is done with a ledger and its balance. -/
def ofTask (i : Invocation) (l : Ledger) (b : Balance) (events : List Event) : Plan :=
  match i.task with
  | .overview => ofParts events (overviewParts l b i.currency)
  | .printStatements acronyms =>
    match acronyms.mapM (Statement.ofAcronym l b) with
    | .error fault => { events := events, fault := some fault }
    | .ok statements => ofParts events (printParts l i.currency statements)
  | .writeStatements acronyms =>
    match acronyms.mapM (Statement.ofAcronym l b) with
    | .error fault => { events := events, fault := some fault }
    | .ok statements => ofParts events (writeParts l i.currency i.directory statements)

/-- The pairs of accounts that a balance has seen, in their order. -/
def opened (b : Balance) : List Event := b.entries.map fun e => .entryOpened e.sender e.recipient

/-- What is done with the bytes of the ledger file. A balance that cannot be computed
has seen some pairs until then. -/
def ofBytes (i : Invocation) (bytes : ByteArray) : Plan :=
  let reading := Ledger.readFile i.options i.ledger bytes
  match reading.outcome with
  | .error fault => { events := reading.events, fault := some fault }
  | .ok l =>
    match Balance.empty.addUpTo (l.invoices ++ l.payments) with
    | (b, some fault) => { events := reading.events ++ opened b, fault := some fault }
    | (b, none) => ofTask i l b (reading.events ++ opened b)

/-- What is done with what came of reading the ledger file. -/
def ofFile (i : Invocation) : Except Fault ByteArray → Plan
  | .error fault => { fault := some fault }
  | .ok bytes => ofBytes i bytes

/-- What is done, given what came of reading the ledger if it is a file that the user
may read, and whether the directory that is named cannot be one. The directory is
looked at before the ledger, and a path that holds the null character breaks the run
off there. There has to be a ledger, and no words may be missing or left over; otherwise
nothing is done. -/
def ofRequest? (r : Request) (found : Option (Except Fault ByteArray)) (outputIsUnfit : Bool) :
    Option Plan :=
  if r.outputDirectory.any Path.holdsNull then some { fault := some .nullInPath }
  else if outputIsUnfit then none
  else if r.ledger.any Path.holdsNull then some { fault := some .nullInPath }
  else do return ofFile (← r.invocation?) (← found)

/-- The log of a run, if it is wanted. -/
def log (p : Plan) (verbose : Bool) : String :=
  if verbose then String.join (p.events.map Event.record) else ""

end Plan

end Command

end HouseLedger
