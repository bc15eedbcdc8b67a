/-
  A tree of nodes as text: one line per node, two blanks of indent per level, the label of the
  node and the bytes that it covers.
-/
import HeaderBridge.Objc.Node

namespace HeaderBridge

def Slot.label {α : Type} (write : α → String) : Slot α → String
  | .missing => "<placeholder>"
  | .valid value => write value
  | .invalid _ => "<invalid>"

/-- The selector as a message names it: every keyword with its colon. -/
def Selector.text : Selector → String
  | .simple name => name.name
  | .keywords parts =>
    String.join (parts.map fun part => ((part.keyword.map Ident.name).getD "") ++ ":")

namespace NodeKind

/-- The name of the kind alone. -/
def name : NodeKind → String
  | .header => "GlobalContext"
  | .classInterface _ => "ClassInterface"
  | .protocolDeclaration _ => "ProtocolDeclaration"
  | .superclassName _ => "SuperclassName"
  | .protocolList _ => "ProtocolReferenceList"
  | .property _ => "Property"
  | .modifierList => "PropertyModifierList"
  | .modifier _ => "PropertyModifier"
  | .method _ => "MethodDeclaration"
  | .keyword _ => "Keyword"
  | .token _ => "Token"
  | .invalid => "Invalid"

/-- What is shown of the fields. -/
def details? : NodeKind → Option String
  | .header | .modifierList | .invalid => none
  | .classInterface name | .protocolDeclaration name => some (name.label Ident.name)
  | .superclassName name => some name.name
  | .protocolList names => some (", ".intercalate (names.map Ident.name))
  | .property data =>
    some ((if data.isOptional then "optional " else "") ++ data.type.label TypeName.text ++ " "
      ++ data.name.label Ident.name)
  | .modifier m =>
    match m.value with
    | some value => some (m.name ++ "=" ++ value)
    | none => some m.name
  | .method data =>
    some ((if data.isOptional then "optional " else "")
      ++ (if data.isClassMethod then "+" else "-") ++ " ("
      ++ ((data.returns.map TypeName.text).getD "id") ++ ")" ++ data.selector.label Selector.text)
  | .keyword kind | .token kind => some kind.describe

def label (kind : NodeKind) : String :=
  match kind.details? with
  | some details => kind.name ++ "(" ++ details ++ ")"
  | none => kind.name

end NodeKind

namespace Node

def rangeText : Option Span → String
  | some s => s!"{s.start}..{s.stop}"
  | none => "invalid"

mutual

/-- The lines of a node that lies at a depth. -/
def outlineAt (depth : Nat) : Node → String
  | ⟨_, kind, range, children⟩ =>
    String.join (List.replicate depth "  ") ++ kind.label ++ "@" ++ rangeText range ++ "\n"
      ++ outlineAll (depth + 1) children

def outlineAll (depth : Nat) : List Node → String
  | [] => ""
  | n :: ns => outlineAt depth n ++ outlineAll depth ns

end

/-- The whole tree as text. -/
def outline (root : Node) : String := outlineAt 0 root

end Node

end HeaderBridge
