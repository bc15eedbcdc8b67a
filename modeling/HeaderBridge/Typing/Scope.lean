/-
  What the names in an expression stand for. Scopes are laid behind each other: the first one
  that knows a name answers for it, and those behind are not asked.
-/
import HeaderBridge.Typing.Signature

namespace HeaderBridge

/-- A name that is declared outside all types. -/
inductive Definition where
  | value (name : String) (storage : Storage)
  | function (signature : Signature)
  deriving DecidableEq

namespace Definition

def name : Definition → String
  | .value name _ => name
  | .function signature => signature.name

/-- The type of a value with a given name. -/
def typeFor? (name : String) : Definition → Option SwiftType
  | .value own storage => if own = name then some storage.type else none
  | .function _ => none

/-- A function with a given name. -/
def functionFor? (name : String) : Definition → Option Signature
  | .value _ _ => none
  | .function signature => if signature.name = name then some signature else none

end Definition

/-- The meaning of names. -/
structure Scope where
  /-- The type of the value with a name. -/
  typeOf? : String → Option SwiftType
  /-- The functions with a name, in the order in which they are preferred. -/
  functions : String → List Signature

namespace Scope

/-- The scope that knows no name. -/
def empty : Scope := ⟨fun _ => none, fun _ => []⟩

/-- The definitions of a list. Among values of one name the first is meant. -/
def ofDefinitions (ds : List Definition) : Scope where
  typeOf? name := ds.findSome? (Definition.typeFor? name)
  functions name := ds.filterMap (Definition.functionFor? name)

/-- A scope with another one behind it. -/
def orElse (s t : Scope) : Scope where
  typeOf? name := (s.typeOf? name).or (t.typeOf? name)
  functions name := if (s.functions name).isEmpty then t.functions name else s.functions name

/-- Scopes behind each other, the nearest first. -/
def layers (scopes : List Scope) : Scope := scopes.foldr orElse empty

end Scope

end HeaderBridge
