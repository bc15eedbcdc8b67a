/-
  The plan of the file for one header. Every class and protocol whose name was read becomes a
  type, first the classes and then the protocols; of its members those are kept whose parts were
  read. What is planned remembers its node and the place where the header declares it.
-/
import HeaderBridge.Bridge.TypeMap
import HeaderBridge.Objc.Node
import HeaderBridge.Plan.FilePlan
import HeaderBridge.Source.LineIndex

namespace HeaderBridge

namespace Node

def provenance (n : Node) : Provenance := ⟨n.id, n.range⟩

/-- The history of what was just made from a node: where it stands. -/
def creation (n : Node) (path : String) (lines : LineIndex) : History :=
  let place :=
    match n.range with
    | some range =>
      let (line, column) := lines.position range.start
      s!"{path} line {line} column {column}"
    | none => path
  History.empty.record "Creation" place

end Node

/-! ## Properties -/

namespace PropertyModifier

/-- The modifier as an attribute. Only the names of accessors keep their value. -/
def toAttribute (m : PropertyModifier) : PropertyAttribute :=
  match m.name, m.value with
  | "getter", some name => .getter name
  | "setter", some selector => .setter selector
  | word, _ => .plain word

end PropertyModifier

/-- The words among some attributes. -/
def plainWords (attributes : List PropertyAttribute) : List String :=
  attributes.filterMap fun
    | .plain word => some word
    | _ => none

/-- The ownership that the words of a property state; the last one counts. An `assign` says
    something of pointers alone. -/
def statedOwnership (isPointer : Bool) (words : List String) : Ownership :=
  words.foldl (fun ownership word =>
    if word = "weak" then .weak
    else if isPointer ∧ (word = "unsafe_unretained" ∨ word = "assign") then .unownedUnsafe
    else ownership) .strong

/-- The storage of a property. Its type states a nullability or else one of its words does, and a
    weak property is always optional. -/
def propertyStorage (m : TypeMap) (t : TypeName) (words : List String) : Storage :=
  let nullability := t.nullability.or (words.findSome? Nullability.ofWord?)
  let ownership := statedOwnership t.type.isPointer words
  let type := m.swiftType t.type nullability
  { type := if ownership = .weak ∧ !type.isOptional then .optional type else type
    ownership }

/-- The plan of a property, if its type and name were read. -/
def PropertyPlan.ofNode? (m : TypeMap) (path : String) (lines : LineIndex) (n : Node)
    (data : PropertyData) : Option PropertyPlan := do
  let type ← data.type.value?
  let name ← data.name.value?
  let attributes := n.propertyModifiers.map PropertyModifier.toAttribute
  return {
    name := name.name
    storage := propertyStorage m type (plainWords attributes)
    attributes
    isOptional := data.isOptional
    source := some n.provenance
    history := n.creation path lines }

/-! ## Methods and initializers -/

/-- What stands behind `initWith` in the name of a method. -/
def behindInitWith? (name : String) : Option (List Char) :=
  let mark := "initWith".toList
  if mark.isPrefixOf name.toList then some (name.toList.drop mark.length) else none

/-- Whether a method of this name makes a value of its class. -/
def isInitializerName (name : String) : Bool :=
  name == "init" || (behindInitWith? name).any fun rest => rest.head?.any Char.isUpper

/-- The label of the first argument of an initializer: `initWithFrame` takes `frame`. -/
def initializerLabel? (name : String) : Option String :=
  match behindInitWith? name with
  | some (c :: cs) => some (String.ofList (c.toLower :: cs))
  | _ => none

/-- The label of an argument in Swift: the first keyword names the method itself. -/
def argumentLabel (isFirst : Bool) (keyword : Option Ident) : String :=
  match keyword with
  | some keyword => if isFirst then "_" else keyword.name
  | none => "_"

def KeywordPart.parameter (m : TypeMap) (isFirst : Bool) (part : KeywordPart) : Parameter :=
  ⟨argumentLabel isFirst part.keyword, part.name.name, m.declaredType part.type⟩

namespace Selector

/-- The name that a selector gives to a method. -/
def methodName : Selector → String
  | .simple name => name.name
  | .keywords parts => ((parts.head?.bind KeywordPart.keyword).map Ident.name).getD ""

def parameters (m : TypeMap) : Selector → List Parameter
  | .simple _ => []
  | .keywords [] => []
  | .keywords (first :: others) =>
    first.parameter m true :: others.map (KeywordPart.parameter m false)

end Selector

/-- Whether the declaration makes an initializer and no method. -/
def MethodData.isInitializer (data : MethodData) (selector : Selector) : Bool :=
  !data.isClassMethod && isInitializerName selector.methodName

/-- The parameters of an initializer, whose first label comes from its name. -/
def Selector.initializerParameters (m : TypeMap) (selector : Selector) : List Parameter :=
  match selector.parameters m, initializerLabel? selector.methodName with
  | first :: others, some label => { first with label } :: others
  | parameters, _ => parameters

/-- The plan of a method, if its selector was read and it is no initializer. -/
def MethodPlan.ofNode? (m : TypeMap) (path : String) (lines : LineIndex) (n : Node)
    (data : MethodData) : Option MethodPlan := do
  let selector ← data.selector.value?
  if data.isInitializer selector then none
  else
    return {
      signature := {
        name := selector.methodName
        parameters := selector.parameters m
        returns := m.declaredType data.returns
        isStatic := data.isClassMethod }
      isOptional := data.isOptional
      source := some n.provenance
      history := n.creation path lines }

/-- The plan of an initializer, if its selector was read and it is one. -/
def InitializerPlan.ofNode? (m : TypeMap) (path : String) (lines : LineIndex) (n : Node)
    (data : MethodData) : Option InitializerPlan := do
  let selector ← data.selector.value?
  if data.isInitializer selector then
    return {
      parameters := selector.initializerParameters m
      source := some n.provenance
      history := n.creation path lines }
  else none

/-! ## Types and files -/

/-- The plan of a class or protocol. -/
def TypePlan.ofNode (path : String) (lines : LineIndex) (kind : TypeKind) (name : String)
    (supertype : Option String) (n : Node) : TypePlan :=
  let m : TypeMap := { instanceType := some name }
  { kind, name, supertype
    protocols := (n.protocols.foldl TypePlan.addProtocol { kind, name }).protocols
    properties := n.properties.filterMap fun (child, data) =>
      PropertyPlan.ofNode? m path lines child data
    methods := n.methods.filterMap fun (child, data) => MethodPlan.ofNode? m path lines child data
    initializers := n.methods.filterMap fun (child, data) =>
      InitializerPlan.ofNode? m path lines child data
    source := some n.provenance
    history := n.creation path lines }

/-- The class that a child of the root declares, if its name was read. -/
def TypePlan.ofClass? (path : String) (lines : LineIndex) (n : Node) (name : Slot Ident) :
    Option TypePlan :=
  name.value?.map fun name =>
    ofNode path lines .classType name.name (n.superclass?.map Ident.name) n

/-- The protocol that a child of the root declares, if its name was read. -/
def TypePlan.ofProtocol? (path : String) (lines : LineIndex) (n : Node) (name : Slot Ident) :
    Option TypePlan :=
  name.value?.map fun name => ofNode path lines .protocolType name.name none n

/-- The plan for a header at a path, from its text and its tree. -/
def FilePlan.ofHeader (path source : String) (root : Node) : FilePlan :=
  let lines := LineIndex.ofSource source
  { FilePlan.forHeader path with
    types := root.classInterfaces.filterMap (fun (n, name) => TypePlan.ofClass? path lines n name)
      ++ root.protocolDeclarations.filterMap fun (n, name) =>
        TypePlan.ofProtocol? path lines n name
    source := some root.provenance }

end HeaderBridge
