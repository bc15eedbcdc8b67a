/-
  What is known of a function or of a place that holds a value: its names and types, without any
  code.
-/
import HeaderBridge.Swift.Type

namespace HeaderBridge

/-- A parameter with the label that stands in front of its argument. The label `_` means that the
    argument has none. -/
structure Parameter where
  label : String
  name : String
  type : SwiftType
  deriving DecidableEq

/-- A parameter whose argument has no label. -/
def Parameter.unlabelled (name : String) (type : SwiftType) : Parameter := ⟨"_", name, type⟩

/-- The parameter as a declaration writes it: a label equal to the name is written once. -/
def Parameter.text (p : Parameter) : String :=
  if p.label = p.name then p.name ++ ": " ++ p.type.text
  else p.label ++ " " ++ p.name ++ ": " ++ p.type.text

structure Signature where
  name : String
  parameters : List Parameter
  returns : SwiftType
  /-- Called on the type and not on a value of it. -/
  isStatic : Bool := false
  deriving DecidableEq

namespace Signature

def arity (s : Signature) : Nat := s.parameters.length

/-- The name with every label, such as `setObject(_:forKey:)`. -/
def selector (s : Signature) : String :=
  s.name ++ "(" ++ String.join (s.parameters.map fun p => p.label ++ ":") ++ ")"

/-- The signature without its keywords. A result of type `Void` is not written. -/
def text (s : Signature) : String :=
  s.name ++ "(" ++ ", ".intercalate (s.parameters.map Parameter.text) ++ ")"
    ++ if s.returns = .void then "" else " -> " ++ s.returns.text

/-- The signature as a declaration starts. -/
def declaration (s : Signature) : String :=
  (if s.isStatic then "static func " else "func ") ++ s.text

end Signature

/-- How a place holds on to the object that is its value. -/
inductive Ownership where
  | strong
  | weak
  /-- Not kept alive; use after its end is noticed. -/
  | unownedSafe
  /-- Not kept alive; use after its end is not noticed. -/
  | unownedUnsafe
  deriving DecidableEq

/-- A place that holds a value. -/
structure Storage where
  type : SwiftType
  ownership : Ownership := .strong
  /-- Written once, at its declaration. -/
  isConstant : Bool := false
  deriving DecidableEq

namespace Storage

def var (type : SwiftType) : Storage := { type }

def const (type : SwiftType) : Storage := { type, isConstant := true }

end Storage

end HeaderBridge
