/-
  The tree of a header. Every node says what it is and carries the fields of its kind; a field
  that may fail to be read is a slot, which tells "not there", "read" and "given up" apart. The
  order of children is the order of the source.
-/
import HeaderBridge.Objc.Type
import HeaderBridge.Token.Kind

namespace HeaderBridge

/-- A field of a node. -/
inductive Slot (α : Type) where
  /-- Nothing was read. -/
  | missing
  | valid (value : α)
  /-- Reading failed at a place. -/
  | invalid (place : Span)

namespace Slot

def value? {α : Type} : Slot α → Option α
  | .valid value => some value
  | _ => none

def isInvalid {α : Type} : Slot α → Bool
  | .invalid _ => true
  | _ => false

end Slot

/-- A word in the parentheses of a property, such as `copy` or `getter=isOn`. -/
structure PropertyModifier where
  name : String
  value : Option String
  deriving DecidableEq

structure PropertyData where
  type : Slot TypeName
  name : Slot Ident
  /-- Declared in an optional section of a protocol. -/
  isOptional : Bool

/-- One piece `label:(type)name` of a selector. The label may be missing. -/
structure KeywordPart where
  keyword : Option Ident
  type : Option TypeName
  name : Ident

inductive Selector where
  | simple (name : Ident)
  | keywords (parts : List KeywordPart)

structure MethodData where
  /-- Declared with a plus sign. -/
  isClassMethod : Bool
  /-- The type that stands in front of the selector; without one the method returns `id`. -/
  returns : Option TypeName
  selector : Slot Selector
  isOptional : Bool

inductive NodeKind where
  /-- The whole source. -/
  | header
  | classInterface (name : Slot Ident)
  | protocolDeclaration (name : Slot Ident)
  | superclassName (name : Ident)
  | protocolList (names : List Ident)
  | property (data : PropertyData)
  | modifierList
  | modifier (m : PropertyModifier)
  | method (data : MethodData)
  /-- A directive such as `@end`. -/
  | keyword (kind : TokenKind)
  /-- Punctuation that structures a declaration. -/
  | token (kind : TokenKind)
  /-- Text that was passed over. -/
  | invalid

structure Node where
  /-- Nodes are numbered as they are made. -/
  id : Nat
  kind : NodeKind
  /-- The bytes that the node covers, if it covers any token. -/
  range : Option Span
  children : List Node

namespace Node

mutual

/-- The node and everything below it, each before its children. -/
def sequence : Node → List Node
  | ⟨id, kind, range, children⟩ => ⟨id, kind, range, children⟩ :: sequenceAll children

def sequenceAll : List Node → List Node
  | [] => []
  | n :: ns => sequence n ++ sequenceAll ns

end

/-- The first node with a number. -/
def find? (root : Node) (id : Nat) : Option Node := root.sequence.find? (·.id == id)

/-! ## The declarations among the children -/

/-- The class declarations, each with its name. -/
def classInterfaces (n : Node) : List (Node × Slot Ident) :=
  n.children.filterMap fun child =>
    match child.kind with
    | .classInterface name => some (child, name)
    | _ => none

/-- The protocol declarations, each with its name. -/
def protocolDeclarations (n : Node) : List (Node × Slot Ident) :=
  n.children.filterMap fun child =>
    match child.kind with
    | .protocolDeclaration name => some (child, name)
    | _ => none

def properties (n : Node) : List (Node × PropertyData) :=
  n.children.filterMap fun child =>
    match child.kind with
    | .property data => some (child, data)
    | _ => none

def methods (n : Node) : List (Node × MethodData) :=
  n.children.filterMap fun child =>
    match child.kind with
    | .method data => some (child, data)
    | _ => none

/-- The superclass that a class declaration names. -/
def superclass? (n : Node) : Option Ident :=
  n.children.findSome? fun child =>
    match child.kind with
    | .superclassName name => some name
    | _ => none

/-- The protocols that a declaration conforms to. -/
def protocols (n : Node) : List String :=
  let names := n.children.findSome? fun child =>
    match child.kind with
    | .protocolList names => some names
    | _ => none
  (names.getD []).map Ident.name

/-- The modifiers of a property, in order. -/
def propertyModifiers (n : Node) : List PropertyModifier :=
  n.children.flatMap fun list =>
    match list.kind with
    | .modifierList =>
      list.children.filterMap fun child =>
        match child.kind with
        | .modifier m => some m
        | _ => none
    | _ => []

end Node

end HeaderBridge
