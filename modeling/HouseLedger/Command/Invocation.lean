import HouseLedger.Amount
import HouseLedger.Command.Arguments
import HouseLedger.Ledger
import HouseLedger.Text.Blank

/-!
# Invocations

What a run of the command is asked to do. Some settings can also be made by
variables of the environment; an option given on the command line comes before its
variable, and a variable that is empty counts for nothing.

A `Request` is what the arguments say. Its words may be too few or too many, which
counts only after its paths have been looked at; `Request.invocation?` is the
complete request.
-/

namespace HouseLedger

namespace Command

/-- The variables of the environment. -/
abbrev Environment := List (String × String)

/-- What to do with a ledger. -/
inductive Task where
  /-- Show the overview. -/
  | overview
  /-- Print the statements of the accounts. -/
  | printStatements (acronyms : List String)
  /-- Write the statements of the accounts to files. -/
  | writeStatements (acronyms : List String)
  deriving DecidableEq, Repr

/-- What the options of a run say. -/
structure Settings where
  /-- Whether the log is wanted. -/
  verbose : Bool
  /-- How ledgers are read. -/
  options : Options
  /-- The currency that amounts are shown in. -/
  currency : String
  /-- The directory that is named for files, also where none are written. -/
  outputDirectory : Option String
  deriving DecidableEq, Repr

/-- What the arguments of a run say. -/
structure Request extends Settings where
  /-- The path of the ledger, unless there are no words. -/
  ledger : Option String
  /-- What to do with the ledger, unless words are missing or left over. -/
  task : Option Task
  deriving DecidableEq, Repr

/-- One run of the command. -/
structure Invocation extends Settings where
  /-- The path of the ledger. -/
  ledger : String
  /-- What to do with the ledger. -/
  task : Task
  deriving DecidableEq, Repr

namespace Request

/-! ## Settings -/

/-- The options in front of the task. -/
def settingsTable : OptionTable where
  flags := ["--verbose", "--merge-invoices", "--legacy-period-years"]
  valued := ["--header-keyword", "--currency"]
  short := [('v', "--verbose")]
  mixed := false

/-- The variable that stands in for an option. -/
def variableOf : String → String
  | "--header-keyword" => "SPLITLEDGER_HEADER_KEYWORD"
  | "--merge-invoices" => "SPLITLEDGER_MERGE_INVOICES"
  | "--legacy-period-years" => "SPLITLEDGER_LEGACY_PERIOD_YEARS"
  | "--currency" => "SPLITLEDGER_CURRENCY"
  | _ => ""

/-- The variables that stand in for options. -/
def variableNames : List String :=
  ["--header-keyword", "--merge-invoices", "--legacy-period-years", "--currency"].map variableOf

/-- The value that the environment gives an option. -/
def fromEnvironment? (env : Environment) (option : String) : Option String :=
  (env.lookup (variableOf option)).filter (· != "")

/-- Reads a yes or a no, in capital or small letters and with blanks around it. Blanks
alone are a no. -/
def readSwitch? (text : String) : Option Bool :=
  let word := String.ofList ((Text.strip text.toList).map Char.toLower)
  if word ∈ ["1", "true", "yes", "on", "t", "y"] then some true
  else if word ∈ ["", "0", "false", "no", "off", "f", "n"] then some false
  else none

/-- Whether a switch is on; `none` where its variable is neither a yes nor a no. -/
def switch? (env : Environment) (a : Arguments) (option : String) : Option Bool :=
  if a.hasFlag option then some true
  else match fromEnvironment? env option with
    | some text => readSwitch? text
    | none => some false

/-- The value of a setting. -/
def setting (env : Environment) (a : Arguments) (option standard : String) : String :=
  ((a.value? option).or (fromEnvironment? env option)).getD standard

/-! ## Tasks -/

/-- The options behind a task that writes statements. -/
def statementTable : OptionTable where
  flags := ["--stdout"]
  valued := ["--output-dir"]
  short := []
  mixed := true

/-- The options behind the overview: none. -/
def overviewTable : OptionTable := ⟨[], [], [], true⟩

/-- The task of a run that shows the overview, whose one word is the ledger. -/
def overviewTask? : List String → Option Task
  | [_] => some .overview
  | _ => none

/-- The task of a run on statements, whose words are the ledger and some accounts. -/
def statementTask? (toOutput : Bool) : List String → Option Task
  | _ :: first :: more =>
    some (if toOutput then .printStatements (first :: more) else .writeStatements (first :: more))
  | _ => none

/-- Reads what stands behind the settings: the directory that is named, the ledger and
the task. -/
def readTask? : List String → Option (Option String × Option String × Option Task)
  | "show" :: rest => do
    let a ← Arguments.ofList? overviewTable rest
    return (none, a.words.head?, overviewTask? a.words)
  | "statement" :: rest => do
    let a ← Arguments.ofList? statementTable rest
    return (a.value? "--output-dir", a.words.head?, statementTask? (a.hasFlag "--stdout") a.words)
  | _ => none

/-- Reads what the arguments say; `none` where they hold options or a task that the
command does not have. -/
def ofArguments? (env : Environment) (arguments : List String) : Option Request := do
  let a ← Arguments.ofList? settingsTable arguments
  let mergeInvoices ← switch? env a "--merge-invoices"
  let legacyYears ← switch? env a "--legacy-period-years"
  let keyword := setting env a "--header-keyword" ({} : Options).headerKeyword
  let (outputDirectory, ledger, task) ← readTask? a.words
  return {
    verbose := a.hasFlag "--verbose"
    options := ⟨keyword, mergeInvoices, legacyYears⟩
    currency := setting env a "--currency" Amount.defaultCurrency
    outputDirectory := outputDirectory
    ledger := ledger
    task := task }

/-- The run that is asked for, if the words are complete. -/
def invocation? (r : Request) : Option Invocation := do
  return { r.toSettings with ledger := ← r.ledger, task := ← r.task }

end Request

end Command

end HouseLedger
