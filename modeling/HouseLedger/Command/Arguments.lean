/-!
# Arguments

How a list of arguments splits into options and words. An option begins with a dash
and is more than the dash. A long option takes its value behind an equals sign or
from the next argument, whatever that is; short options take none and may share one
dash. Two dashes alone end the options. Where options have to come first, so does
the first word.
-/

namespace HouseLedger

namespace Command

/-- The options that a list of arguments may hold. -/
structure OptionTable where
  /-- The long options without a value. -/
  flags : List String
  /-- The long options with a value. -/
  valued : List String
  /-- The letters that stand for long options without a value. -/
  short : List (Char × String)
  /-- Whether options may also stand behind words. -/
  mixed : Bool

/-- Arguments that were told apart. -/
structure Arguments where
  /-- The options in the order in which they were given; a flag has no value. -/
  options : List (String × Option String) := []
  /-- The other arguments. -/
  words : List String := []
  deriving DecidableEq, Repr

namespace Arguments

/-- The arguments with one more option in front. -/
def withOption (name : String) (value : Option String) (a : Arguments) : Arguments :=
  { a with options := (name, value) :: a.options }

/-- The arguments with one more word in front. -/
def withWord (word : String) (a : Arguments) : Arguments := { a with words := word :: a.words }

/-- Whether an argument is an option. -/
def isOption (argument : String) : Bool :=
  match argument.toList with
  | '-' :: _ :: _ => true
  | _ => false

/-- An argument before its first equals sign, and what stands behind the sign. -/
def splitValue (argument : String) : String × Option String :=
  match argument.toList.span (· != '=') with
  | (name, '=' :: value) => (String.ofList name, some (String.ofList value))
  | (name, _) => (String.ofList name, none)

/-- The flags that the letters behind one dash stand for. -/
def shortFlags? (table : OptionTable) (argument : String) :
    Option (List (String × Option String)) :=
  if "--".toList.isPrefixOf argument.toList then none
  else (argument.toList.drop 1).mapM fun letter =>
    (table.short.lookup letter).map fun name => (name, none)

/-- Tells options and words apart; `none` where an option is unknown, lacks its
value, or has one that it does not take. -/
def ofList? (table : OptionTable) : List String → Option Arguments
  | [] => some {}
  | argument :: rest =>
    if argument = "--" then some { words := rest }
    else if isOption argument then
      match splitValue argument with
      | (name, value) =>
        if name ∈ table.valued then
          match value, rest with
          | some value, rest => (ofList? table rest).map (withOption name value)
          | none, value :: rest => (ofList? table rest).map (withOption name value)
          | none, [] => none
        else if name ∈ table.flags then
          if value.isSome then none else (ofList? table rest).map (withOption name none)
        else do
          let flags ← shortFlags? table argument
          let a ← ofList? table rest
          return { a with options := flags ++ a.options }
    else if table.mixed then (ofList? table rest).map (withWord argument)
    else some { words := argument :: rest }

/-- Whether a flag was given. -/
def hasFlag (a : Arguments) (name : String) : Bool := a.options.any (·.1 == name)

/-- The value of an option, the last one if there are several. -/
def value? (a : Arguments) (name : String) : Option String :=
  (a.options.reverse.lookup name).join

end Arguments

end Command

end HouseLedger
