/-
  Settings in a TOML file. Each of them may be left out and then has its default; a key that is no
  setting is passed over.
-/
import HeaderBridge.Settings
import HeaderBridge.Toml.Statement

namespace HeaderBridge.Settings

/-- A switch, if the value is one; where there is no value, its default. -/
def switch? (standard : Bool) : Option Toml.Value → Option Bool
  | none => some standard
  | some (.boolean b) => some b
  | some _ => none

/-- A number that is not negative; where there is no value, its default. -/
def count? (standard : Nat) : Option Toml.Value → Option Nat
  | none => some standard
  | some (.integer n) => if 0 ≤ n then some n.toNat else none
  | some _ => none

/-- The two steps as switches of a table, or in order in an array. A date names no step, so it
    leaves both as they are. -/
def steps? (standard : Settings) : Option Toml.Value → Option (Bool × Bool)
  | none | some .moment => some (standard.mergeAccessors, standard.dropEmptyExtensions)
  | some (.table _ entries) | some (.braced entries) => do
    return (← switch? standard.mergeAccessors (Toml.Entries.find? entries "property_merge"),
      ← switch? standard.dropEmptyExtensions
        (Toml.Entries.find? entries "remove_empty_extensions"))
  | some (.array elements) => do
    return (← switch? standard.mergeAccessors elements[0]?,
      ← switch? standard.dropEmptyExtensions elements[1]?)
  | some _ => none

/-- The settings in the table of a file. -/
def ofEntries? (entries : Toml.Entries) : Option Settings := do
  let standard : Settings := {}
  let (mergeAccessors, dropEmptyExtensions) ← steps? standard (entries.find? "passes")
  return {
    workers := ← count? standard.workers (entries.find? "num_threads")
    reportHistory := ← switch? standard.reportHistory (entries.find? "print_intention_history")
    mergeAccessors, dropEmptyExtensions }

/-- The settings that a TOML text states. -/
def ofToml? (text : String) : Option Settings := (Toml.parse? text).bind ofEntries?

/-- Reads the settings in the text of a file. -/
def read (text : String) : Except Problem Settings := readBy ofToml? text

end HeaderBridge.Settings
