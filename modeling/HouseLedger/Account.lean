import HouseLedger.Fault

/-!
# Accounts

The people of a household, each known by an acronym. A `Registry` keeps accounts in
the order in which they were added; the place of an account in it is the index by
which transactions and balances refer to it, and it never changes. No acronym is
registered twice, and a frozen registry takes no further account.
-/

namespace HouseLedger

/-- A participant of a ledger. -/
structure Account where
  /-- The short name that lines of a ledger use. -/
  acronym : String
  /-- The name that statements use. -/
  name : String
  deriving DecidableEq, Repr

/-- Whether two accounts are the same participant: the acronym decides. -/
def Account.isSame (a b : Account) : Bool := a.acronym == b.acronym

/-- The accounts of a ledger in the order of their declaration. -/
structure Registry where
  /-- The accounts; the index of an account is its place here. -/
  accounts : List Account := []
  /-- Whether the list of accounts is closed. -/
  frozen : Bool := false
  deriving DecidableEq, Repr

namespace Registry

/-- The registry without accounts. -/
def empty : Registry := {}

/-- The number of accounts. -/
def size (r : Registry) : Nat := r.accounts.length

/-- The index of the account with an acronym. -/
def find? (r : Registry) (acronym : String) : Option Nat :=
  r.accounts.findIdx? (·.acronym == acronym)

/-- Whether an account has the acronym. -/
def contains (r : Registry) (acronym : String) : Bool := (r.find? acronym).isSome

/-- The index of the account that has to have the acronym. -/
def resolve (r : Registry) (acronym : String) : Except Fault Nat :=
  match r.find? acronym with
  | some index => .ok index
  | none => .error (.accountUnknown acronym)

/-- Adds an account behind the others; its index is the number of accounts before. -/
def add (r : Registry) (acronym name : String) : Except Fault Registry :=
  if r.frozen then .error (.registryFrozen acronym)
  else if r.contains acronym then .error (.accountTaken acronym)
  else .ok { r with accounts := r.accounts ++ [⟨acronym, name⟩] }

/-- Closes the list of accounts. -/
def freeze (r : Registry) : Registry := { r with frozen := true }

/-- The account at a position, counted from the front from zero on, or from the back
by negative positions from minus one on. -/
def at? (r : Registry) (position : Int) : Option Account :=
  let position := if position < 0 then position + r.size else position
  if position < 0 then none else r.accounts[position.toNat]?

/-- The account at a position that has to exist. -/
def get (r : Registry) (position : Int) : Except Fault Account :=
  match r.at? position with
  | some account => .ok account
  | none => .error .positionOutOfRange

end Registry

end HouseLedger
