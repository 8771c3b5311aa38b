import HouseLedger.Command.Run

/-!
# The command on disk

The outer layer of the program: it fetches arguments, variables and files, and
performs the steps of a plan on the files of the system.
-/

open HouseLedger HouseLedger.Command

namespace HouseLedger

namespace Disk

/-- The number and the words that the system gives an error on a file or a directory. -/
def numbered : IO.Error → Nat × String
  | .noFileOrDirectory _ number text => (number.toNat, text)
  | .alreadyExists _ number text => (number.toNat, text)
  | .inappropriateType _ number text => (number.toNat, text)
  | .invalidArgument _ number text => (number.toNat, text)
  | .permissionDenied _ number text => (number.toNat, text)
  | .resourceExhausted _ number text => (number.toNat, text)
  | .hardwareFault number text => (number.toNat, text)
  | .noSuchThing _ number text => (number.toNat, text)
  | .otherError number text => (number.toNat, text)
  | e => (0, e.toString)

/-- The fault behind an error of the system. -/
def causeOf (e : IO.Error) : FileFault :=
  let (number, text) := numbered e
  ([.missing, .taken, .notDirectory, .isDirectory, .nameTooLong, .denied].find?
    (·.number == number)).getD (.other number text)

/-- What comes of reading a file that is open; a directory can be opened as well. -/
def readOpen (handle : IO.FS.Handle) : IO (Except FileFault (Except Fault ByteArray)) := do
  try
    return .ok (.ok (← handle.readBinToEnd))
  catch e =>
    let cause := causeOf e
    return if cause = .isDirectory then .error cause else .ok (.error (.reading cause))

/-- What comes of reading the file at a path once it is open, or why there is no open
file. -/
def look (path : String) : IO (Except FileFault (Except Fault ByteArray)) := do
  try
    readOpen (← IO.FS.Handle.mk path .read)
  catch e => return .error (causeOf e)

/-- What comes of reading a path, if it leads to a file that the user may read. -/
def read? (path : String) : IO (Option (Except Fault ByteArray)) := do
  match ← look path with
  | .ok found => return some found
  | .error cause =>
    if cause ∈ [.missing, .notDirectory, .isDirectory, .nameTooLong, .denied] then return none
    else return some (.error (.file cause path))

/-- Whether a path is closed to a directory. -/
def isClosed (path : String) : IO Bool := do
  match ← look path with
  | .ok _ => return true
  | .error cause => return cause = .denied

/-- The variables of the environment that count as options. -/
def environment : IO Environment :=
  Request.variableNames.filterMapM fun name => do
    return (← IO.getEnv name).map fun value => (name, value)

/-- Makes a directory, unless there is one already, and returns what the system
refuses. -/
def makeIfNone (path : String) : IO (Option FileFault) := do
  try
    IO.FS.createDir path
    return none
  catch e =>
    let cause := causeOf e
    if cause = .taken ∧ !(← isClosed path) then return none
    return some cause

/-- Makes a directory along with those that lead to it. The names of its path are
given last first. -/
def ensureAlong (start : Path.Start) (names : List String) : IO (Option Fault) := do
  let path := (Path.mk start names.reverse).toString
  match ← makeIfNone path, names with
  | none, _ => return none
  | some .missing, _ :: earlier =>
    match ← ensureAlong start earlier with
    | some fault => return some fault
    | none => return (← makeIfNone path).map (.file · path)
  | some cause, _ => return some (.file cause path)

/-- Writes a text to a stream, and leaves out control sequences unless a terminal
reads them. -/
def say (stream : IO.FS.Stream) (text : String) : IO Unit := do
  stream.putStr (if ← stream.isTty then text else Text.plain text)
  stream.flush

/-- Performs a step and returns what the system refuses. -/
def perform : Step → IO (Option Fault)
  | .print text => do
    say (← IO.getStdout) text
    return none
  | .ensureDirectory path => ensureAlong path.start path.parts.reverse
  | .write path text => do
    try
      IO.FS.writeFile path.toString text
      return none
    catch e => return some (.file (causeOf e) path.toString)

/-- Performs steps up to the first that the system refuses. -/
def performAll : List Step → IO (Option Fault)
  | [] => return none
  | step :: rest => do
    match ← perform step with
    | some fault => return some fault
    | none => performAll rest

/-- Tells the user about a fault. -/
def report : Option Fault → IO UInt32
  | none => return 0
  | some fault => do
    say (← IO.getStderr) (complaint fault)
    return UInt32.ofNat faultCode

/-- Tells the user how the command is used. -/
def explain : IO UInt32 := do
  IO.eprint usage
  return UInt32.ofNat usageCode

end Disk

end HouseLedger

open HouseLedger.Disk

/-- Runs the command. -/
def main (arguments : List String) : IO UInt32 := do
  let some r := Request.ofArguments? (← environment) arguments | explain
  let closed ← match r.outputDirectory with
    | some path => isClosed path
    | none => pure false
  let found ← match r.ledger with
    | some path => read? path
    | none => pure none
  let some plan := Plan.ofRequest? r found closed | explain
  IO.eprint (plan.log r.verbose)
  let refused ← performAll plan.steps
  report (refused.or plan.fault)
