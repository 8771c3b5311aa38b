import HouseLedger.Command.Plan
import HouseLedger.Files.Tree
import HouseLedger.Text.Controls

/-!
# Runs

A run of the command on a file tree: `run` looks up the files that the arguments
name, makes a plan, performs it, and tells what can be seen of that. What is printed
and what the user is told are plain, since no terminal reads them; the log and the
files keep every character.
-/

namespace HouseLedger

namespace Command

/-- What can be seen of a run. -/
structure Outcome where
  /-- The exit code; there is none if a fault breaks the run off. -/
  exitCode : Option Nat
  /-- What was printed. -/
  stdout : String
  /-- The log and the messages. -/
  stderr : String
  /-- The fault that breaks the run off. -/
  escaped : Option Fault
  /-- The files and directories afterwards. -/
  tree : Tree

/-- The exit code of arguments that are no run of the command. -/
def usageCode : Nat := 2

/-- The exit code of a run that a fault ends. -/
def faultCode : Nat := 1

/-- What the user is told about a fault. -/
def complaint (fault : Fault) : String := s!"Error: {fault.message}\n"

/-- What the user is told about arguments that are no run of the command. -/
def usage : String :=
  "Usage: [OPTIONS] show LEDGER_FILE\n" ++
  "       [OPTIONS] statement LEDGER_FILE ACRONYMS... [--output-dir DIRECTORY] [--stdout]\n"

/-- Performs steps one by one. A step that the tree refuses is the last one, and its
fault is returned with the tree and the printed text at that point. A file is begun
before its text is put out. -/
def perform (t : Tree) (printed : String) : List Step → Tree × String × Option Fault
  | [] => (t, printed, none)
  | .print text :: rest =>
    let shown := Text.plain text
    if t.encodesText shown then perform t (printed ++ shown) rest
    else (t, printed, some .notEncodable)
  | .ensureDirectory path :: rest =>
    match t.ensureDirectory path with
    | .error fault => (t, printed, some fault)
    | .ok t => perform t printed rest
  | .write path text :: rest =>
    let encoded := t.encodesText text
    match t.write path.toString (if encoded then text.toUTF8 else .empty) with
    | .error cause => (t, printed, some (.file cause path.toString))
    | .ok t => if encoded then perform t printed rest else (t, printed, some .notEncodable)

/-- How a run ends, given its log, its tree, what it printed and its fault. -/
def conclude (log : String) (t : Tree) (printed : String) : Option Fault → Outcome
  | none => ⟨some 0, printed, log, none, t⟩
  | some fault =>
    if isReported fault then ⟨some faultCode, printed, log ++ Text.plain (complaint fault), none, t⟩
    else ⟨none, printed, log, some fault, t⟩

/-- Performs a plan on a tree. -/
def runPlan (t : Tree) (verbose : Bool) (p : Plan) : Outcome :=
  let (t, printed, refused) := perform t "" p.steps
  conclude (p.log verbose) t printed (refused.or p.fault)

/-- The arguments are no run of the command. -/
def refuse (t : Tree) : Outcome := ⟨some usageCode, "", usage, none, t⟩

/-- A run of the command. -/
def run (t : Tree) (env : Environment) (arguments : List String) : Outcome :=
  match Request.ofArguments? env arguments with
  | none => refuse t
  | some r =>
    match Plan.ofRequest? r (r.ledger.bind t.read?) (r.outputDirectory.any t.isClosed) with
    | none => refuse t
    | some plan => runPlan t r.verbose plan

end Command

end HouseLedger
