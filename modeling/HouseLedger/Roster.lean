import HouseLedger.Account

/-!
# Accounts with a table of indices

Going through all accounts for each acronym takes long, so a `Roster` keeps a table of the
indices beside the accounts. Its operations change it step by step and may fail on the way;
what they have changed by then stays changed.

* `Roster.act` is what an operation does, and `Roster.step` its answer with the roster after it.
* `Roster.after` is the roster after some operations, whether they failed or not.
-/

namespace HouseLedger

/-- The accounts of a ledger and a table of their indices. -/
structure Roster where
  /-- The accounts; the index of an account is its place here. -/
  accounts : List Account := []
  /-- The index for each acronym, the latest entry first. -/
  indices : List (String × Nat) := []
  /-- Whether the list of accounts is closed. -/
  frozen : Bool := false
  deriving DecidableEq, Repr

namespace Roster

/-- What can be asked of a roster. -/
inductive Operation where
  /-- Adds an account and answers with its index. -/
  | add (acronym name : String)
  /-- Closes the list of accounts. -/
  | freeze
  /-- Asks for the index of an acronym, which may have none. -/
  | find (acronym : String)
  /-- Asks for the index of an acronym that has to have one. -/
  | resolve (acronym : String)
  /-- Asks for the account at a position, counted from the back if it is negative. -/
  | get (position : Int)
  /-- Asks whether an acronym is there. -/
  | contains (acronym : String)
  /-- Asks for all accounts. -/
  | list
  deriving DecidableEq, Repr

/-- What an operation answers. -/
inductive Answer where
  /-- It is done. -/
  | done
  /-- An index. -/
  | index (i : Nat)
  /-- An index, or that there is none. -/
  | found (i : Option Nat)
  /-- An account. -/
  | account (a : Account)
  /-- Whether something is there. -/
  | holds (b : Bool)
  /-- Some accounts. -/
  | accounts (as : List Account)
  deriving DecidableEq, Repr

/-- Something that is done with a roster and may fail. -/
abbrev Action := ExceptT Fault (StateM Roster)

/-- The accounts without the table. -/
def toRegistry (r : Roster) : Registry := ⟨r.accounts, r.frozen⟩

/-- The index of an acronym by the table. -/
def find? (acronym : String) : Action (Option Nat) := return (← get).indices.lookup acronym

/-- Adds an account behind the others, and its index to the table. -/
def add (acronym name : String) : Action Nat := do
  if (← get).frozen then throw (.registryFrozen acronym)
  else if (← find? acronym).isSome then throw (.accountTaken acronym)
  else
    let index := (← get).accounts.length
    modify fun r => { r with accounts := r.accounts ++ [⟨acronym, name⟩] }
    modify fun r => { r with indices := (acronym, index) :: r.indices }
    return index

/-- The index of the account that has to have the acronym. -/
def resolve (acronym : String) : Action Nat := do
  match ← find? acronym with
  | some index => return index
  | none => throw (.accountUnknown acronym)

/-- The account at a position that has to exist. -/
def accountAt (position : Int) : Action Account := do
  ExceptT.mk (pure ((← get).toRegistry.get position))

/-- Does what is asked. -/
def act : Operation → Action Answer
  | .add acronym name => return .index (← add acronym name)
  | .freeze => do
    modify fun r => { r with frozen := true }
    return .done
  | .find acronym => return .found (← find? acronym)
  | .resolve acronym => return .index (← resolve acronym)
  | .get position => return .account (← accountAt position)
  | .contains acronym => return .holds (← find? acronym).isSome
  | .list => return .accounts (← get).accounts

/-- The answer of an operation and the roster after it. -/
def step (r : Roster) (o : Operation) : Except Fault Answer × Roster := (act o).run.run r

/-- The roster after operations. -/
def after (r : Roster) (os : List Operation) : Roster := os.foldl (fun r o => (r.step o).2) r

/-- Operations and what they answer, one after the other. -/
def trace (r : Roster) : List Operation → List (Operation × Except Fault Answer)
  | [] => []
  | o :: os => (o, (r.step o).1) :: trace (r.step o).2 os

end Roster

end HouseLedger
