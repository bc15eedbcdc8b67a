/-
  The values of a TOML text. A table remembers how it came about, because that decides whether a
  later line may add to it.
-/

namespace HeaderBridge.Toml

/-- How a table came about. -/
inductive Form where
  /-- It was written out: by a header of its own, in braces, or as an entry of a list of tables. -/
  | stated
  /-- A header below it was stated. -/
  | implied
  /-- A key with points led through it. -/
  | dotted
  deriving DecidableEq

inductive Value where
  | integer (value : Int)
  | float
  | boolean (value : Bool)
  | text (value : String)
  /-- A date, a time, or both. -/
  | moment
  | array (elements : List Value)
  /-- A table in braces. Nothing is added to it later. -/
  | braced (entries : List (String × Value))
  | table (form : Form) (entries : List (String × Value))
  /-- A list of tables, each under a header of its own. Lines are added to the newest one. -/
  | tables (newest : List (String × Value)) (older : List (List (String × Value)))

/-- The entries of a table, each key once. -/
abbrev Entries := List (String × Value)

namespace Entries

def find? (entries : Entries) (key : String) : Option Value := entries.lookup key

/-- The entries with a value under a key, in place of an earlier one. -/
def put (entries : Entries) (key : String) (value : Value) : Entries :=
  entries.filter (·.1 != key) ++ [(key, value)]

/-- Changes the table at the end of a path, and makes the tables on the way that are not there
    yet. A key with points must not lead through a table that was stated. -/
def update (change : Form → Entries → Option Entries) (dotted : Bool) :
    List String → Form → Entries → Option Entries
  | [], form, entries => change form entries
  | key :: path, _, entries =>
    match entries.find? key with
    | none => do
      let form : Form := if dotted then .dotted else .implied
      return entries.put key (.table form (← update change dotted path form []))
    | some (.table form inner) =>
      if dotted ∧ form = .stated then none
      else do return entries.put key (.table form (← update change dotted path form inner))
    | some (.tables newest older) => do
      return entries.put key (.tables (← update change dotted path .stated newest) older)
    | some _ => none

/-- Adds a value under a new key. -/
def insertNew (key : String) (value : Value) (entries : Entries) : Option Entries :=
  if (entries.find? key).isSome then none else some (entries.put key value)

/-- Adds a value under a key with points. The table that takes it must have come about by such
    keys alone. -/
def insertAt (path : List String) (key : String) (value : Value) (entries : Entries) :
    Option Entries :=
  entries.update (fun form inner =>
    if !path.isEmpty ∧ form ≠ .dotted then none else inner.insertNew key value) true path .stated

/-- States a table under its own header. -/
def stateTable (key : String) (entries : Entries) : Option Entries :=
  match entries.find? key with
  | none => some (entries.put key (.table .stated []))
  | some (.table .implied inner) => some (entries.put key (.table .stated inner))
  | some _ => none

/-- States a further table of a list. -/
def stateEntry (key : String) (entries : Entries) : Option Entries :=
  match entries.find? key with
  | none => some (entries.put key (.tables [] []))
  | some (.tables newest older) => some (entries.put key (.tables [] (newest :: older)))
  | some _ => none

end Entries

end HeaderBridge.Toml
