/-
  The lines of a TOML text, headers of tables and values under keys, and the table that a whole text
  spells out with them. Values may nest, and keys may have points, only to a fixed depth. The lines
  behind a header add to its table; no line may state anew what an earlier one has stated.
-/
import HeaderBridge.Toml.Moment
import HeaderBridge.Toml.Number
import HeaderBridge.Toml.Text
import HeaderBridge.Toml.Value

namespace HeaderBridge.Toml

/-- A key with points: the way to a table, and the name in it. -/
structure Key where
  path : List String
  name : String

inductive Statement where
  /-- The header of a table. -/
  | table (key : Key)
  /-- The header of a further table of a list. -/
  | tableEntry (key : Key)
  | value (key : Key) (value : Value)

namespace Scan

/-! ## Keys -/

def isBareKeyChar (c : Char) : Bool := c.isAlphanum || c == '-' || c == '_'

/-- One part of a key. -/
def keyPart : Scan String := do
  if ← take? "\"" then basic
  else if ← take? "'" then literal
  else
    let cs ← takeWhile isBareKeyChar
    if cs.isEmpty then fail else return String.ofList cs

/-- One part of a key with the spaces around it. -/
def spacedKeyPart : Scan String := do
  spaces
  let part ← keyPart
  spaces
  return part

/-- How many levels of nesting are refused. -/
def depthLimit : Nat := 80

def key : Scan Key := do
  let parts ← separated spacedKeyPart '.' (← bound)
  if depthLimit ≤ parts.length then fail
  else
    match parts.getLast? with
    | some name => return ⟨parts.dropLast, name⟩
    | none => fail

/-! ## Values -/

/-- The elements of an array up to its bracket, with a comma behind each but perhaps the last. -/
def elements (item : Scan Value) : (fuel : Nat) → Scan (List Value)
  | 0 => fail
  | fuel + 1 => do
    blanks
    if ← take? "]" then return []
    else
      let v ← item
      blanks
      if ← take? "," then return v :: (← elements item fuel)
      else
        expect ']'
        return [v]

/-- A key with its value in a table in braces. -/
def bracedEntry (item : Scan Value) : Scan (Key × Value) := do
  let k ← key
  expect '='
  spaces
  let v ← item
  spaces
  return (k, v)

/-- The entries of a table up to its brace. -/
def bracedEntries (item : Scan Value) : Scan Entries := do
  spaces
  if ← take? "\x7d" then return []
  else
    let pairs ← separated (bracedEntry item) ',' (← bound)
    expect '}'
    match pairs.foldlM (fun entries (k, v) => Entries.insertAt k.path k.name v entries) [] with
    | some entries => return entries
    | none => fail

/-- A number, a date or a time. -/
def numeric : Scan Value :=
  orElse (do
    moment
    return .moment) <|
  orElse (do
    let _ ← float
    return .float) (do return .integer (← integer))

/-- A value that holds no others. -/
def flatValue : Scan Value := do
  match ← peek with
  | some '"' | some '\'' => return .text (← text)
  | some 't' => if ← take? "true" then return .boolean true else fail
  | some 'f' => if ← take? "false" then return .boolean false else fail
  | _ => numeric

/-- A value within which others may nest so many levels deep. -/
def value : (levels : Nat) → Scan Value
  | 0 => flatValue
  | levels + 1 => do
    if ← take? "[" then return .array (← elements (value levels) (← bound))
    else if ← take? "\x7b" then return .braced (← bracedEntries (value levels))
    else flatValue

/-! ## Lines -/

/-- The statement that starts at a bracket. -/
def header : Scan Statement := do
  if ← take? "[[" then
    let k ← key
    expect ']'
    expect ']'
    lineEnd
    return .tableEntry k
  else
    expect '['
    let k ← key
    expect ']'
    lineEnd
    return .table k

/-- The statement that starts with a key. -/
def assignment : Scan Statement := do
  let k ← key
  expect '='
  spaces
  let v ← value (depthLimit - 1)
  lineEnd
  return .value k v

/-- A line, which may be empty or hold a comment alone. -/
def line : Scan (Option Statement) := do
  match ← peek with
  | some '[' => return some (← header)
  | some '#' | some '\n' | some '\r' =>
    lineEnd
    return none
  | _ => return some (← assignment)

/-- All lines up to the end of the text. -/
def lines : (fuel : Nat) → Scan (List Statement)
  | 0 => fail
  | fuel + 1 => do
    spaces
    if ← atEnd then return []
    else
      let first ← line
      return first.toList ++ (← lines fuel)

/-- A whole text, which may start with a byte order mark. -/
def wholeText : Scan (List Statement) := do
  let _ ← take? "\ufeff"
  lines (← bound)

end Scan

/-! ## Whole texts -/

/-- The entries so far, with the way to the table of the last header. -/
structure Draft where
  root : Entries := []
  current : List String := []

/-- A change at the end of a path of headers. -/
def Draft.changeAt (d : Draft) (path : List String) (change : Entries → Option Entries) :
    Option Entries :=
  d.root.update (fun _ entries => change entries) false path .stated

/-- The entries with one more line. -/
def Draft.add (d : Draft) : Statement → Option Draft
  | .table k => do
    return ⟨← d.changeAt k.path (Entries.stateTable k.name), k.path ++ [k.name]⟩
  | .tableEntry k => do
    return ⟨← d.changeAt k.path (Entries.stateEntry k.name), k.path ++ [k.name]⟩
  | .value k v => do
    return { d with root := ← d.changeAt d.current (Entries.insertAt k.path k.name v) }

/-- The table of a text, if the text is well formed. -/
def parse? (text : String) : Option Entries := do
  let (statements, _) ← Scan.wholeText text.toList
  return (← statements.foldlM Draft.add {}).root

end HeaderBridge.Toml
