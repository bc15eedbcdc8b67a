/-
  Broken promises between a caller and this library. A fault is never the answer to bad source
  text; it says that an operation was asked for something that its rule excludes.
-/

namespace HeaderBridge

/-- The ways in which an operation can be misused. -/
inductive Fault where
  /-- A span was to end before it starts. -/
  | reversedSpan (start stop : Nat)
  /-- A span was cut out of a text that it does not fit. -/
  | badCut
  /-- A line or a column was asked for that has no 32-bit number. -/
  | widePlace
  /-- More nodes were made than there are 32-bit numbers for. -/
  | outOfNumbers
  /-- A node was to be closed while none was open. -/
  | nothingToClose
  /-- A node was to be attached while none was open. -/
  | nothingToExtend
  /-- A rewind found another number of open nodes than its checkpoint had. -/
  | depthChanged
  /-- A grammar rule left a node open, or closed one that it had not opened. -/
  | unbalancedRule
  /-- A rule went on for longer than its text allows. -/
  | exhausted
  deriving DecidableEq

/-- The words for a fault, where there are any. -/
def Fault.message? : Fault → Option String
  | .reversedSpan start stop => some s!"span start ({start}) must be <= end ({stop})"
  | .nothingToClose => some "pop_context called on an empty context stack"
  | .nothingToExtend => some "add_child_node called with no active context"
  | .depthChanged => some "context stack depth changed across a rewind"
  | .badCut | .widePlace | .outOfNumbers | .unbalancedRule | .exhausted => none

end HeaderBridge
