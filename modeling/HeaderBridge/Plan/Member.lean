/-
  Planned members of a type: properties, methods and initializers, each with the node that it was
  made from and the history of what happened to it.
-/
import HeaderBridge.Plan.History
import HeaderBridge.Source.Span
import HeaderBridge.Typing.Signature
import HeaderBridge.Unicode.Uppercase

namespace HeaderBridge

/-- The node of a header that a declaration was made from. -/
structure Provenance where
  node : Nat
  range : Option Span
  deriving DecidableEq

/-- A word of a property declaration. -/
inductive PropertyAttribute where
  | plain (name : String)
  /-- The name that the getter goes by. -/
  | getter (name : String)
  /-- The selector that the setter goes by. -/
  | setter (selector : String)
  deriving DecidableEq

structure PropertyPlan where
  name : String
  storage : Storage
  attributes : List PropertyAttribute := []
  /-- A conforming type need not have it. -/
  isOptional : Bool := false
  /-- Methods that read or write the property were dropped in its favour. -/
  hasMergedAccessors : Bool := false
  source : Option Provenance := none
  history : History := .empty
  deriving DecidableEq

namespace PropertyPlan

def isReadonly (p : PropertyPlan) : Bool := p.attributes.contains (.plain "readonly")

/-- Whether the property belongs to the type and not to its values. -/
def isClassProperty (p : PropertyPlan) : Bool := p.attributes.contains (.plain "class")

/-- The name of the method that reads the property. -/
def getterName (p : PropertyPlan) : String :=
  let stated := p.attributes.findSome? fun
    | .getter name => some name
    | _ => none
  stated.getD p.name

/-- The name of a setter by custom: `set` and the name with its first letter in upper case. -/
def customarySetter (name : String) : String :=
  match name.toList with
  | [] => "set"
  | c :: cs => String.ofList ("set".toList ++ Unicode.uppercase c ++ cs)

/-- The name of the method that writes the property, without its colon. -/
def setterName (p : PropertyPlan) : String :=
  let stated := p.attributes.findSome? fun
    | .setter selector => some selector
    | _ => none
  match stated with
  | some selector => String.ofList ((selector.toList.reverse.dropWhile (· == ':')).reverse)
  | none => customarySetter p.name

/-- The property with its type and the name of the type that it belongs to. -/
def describe (p : PropertyPlan) (owner : String) : String :=
  owner ++ "." ++ p.name ++ ": " ++ p.storage.type.text

end PropertyPlan

structure MethodPlan where
  signature : Signature
  /-- A conforming type need not have it. -/
  isOptional : Bool := false
  source : Option Provenance := none
  history : History := .empty
  deriving DecidableEq

/-- The method with its types and the name of the type that it belongs to. -/
def MethodPlan.describe (m : MethodPlan) (owner : String) : String :=
  owner ++ "." ++ m.signature.text

structure InitializerPlan where
  parameters : List Parameter
  /-- May give nothing. -/
  isFailable : Bool := false
  source : Option Provenance := none
  history : History := .empty
  deriving DecidableEq

end HeaderBridge
