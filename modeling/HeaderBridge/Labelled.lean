/-
  Values with an optional label, as the arguments of calls and messages have them.
-/

namespace HeaderBridge

/-- A value with an optional label in front. -/
structure Labelled (α : Type) where
  label : Option String
  value : α

end HeaderBridge
