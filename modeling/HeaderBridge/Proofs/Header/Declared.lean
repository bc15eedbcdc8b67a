/-
  What a header declares, without any places: classes and protocols with their members. A node of
  the tree shows a declaration if none of its slots is left open or given up. `Node.declared?`
  reads the declaration off such a node, with the accessors of the tree for what hangs below it,
  so that an equation about it says that the tree holds this declaration and no other member.
-/
import HeaderBridge.Objc.Node

namespace HeaderBridge

/-! ## Declarations -/

/-- A type with the nullability that its declaration states. -/
structure StatedType where
  type : ObjcType
  nullability : Option Nullability

structure DeclaredProperty where
  modifiers : List PropertyModifier
  type : StatedType
  name : String
  isOptional : Bool

/-- One piece of a selector with colons. -/
structure DeclaredPiece where
  label : Option String
  type : Option StatedType
  name : String

inductive DeclaredSelector where
  | simple (name : String)
  | keywords (pieces : List DeclaredPiece)

structure DeclaredMethod where
  isClassMethod : Bool
  returns : Option StatedType
  selector : DeclaredSelector
  isOptional : Bool

inductive Member where
  | property (p : DeclaredProperty)
  | method (m : DeclaredMethod)

inductive Declaration where
  | classInterface (name : String) (superclass : Option String) (protocols : List String)
      (members : List Member)
  | protocolDeclaration (name : String) (protocols : List String) (members : List Member)

def Declaration.isProtocol : Declaration → Bool
  | .classInterface .. => false
  | .protocolDeclaration .. => true

/-! ## What the tree shows -/

def TypeName.stated (t : TypeName) : StatedType := ⟨t.type, t.nullability⟩

def KeywordPart.declared (p : KeywordPart) : DeclaredPiece :=
  ⟨p.keyword.map Ident.name, p.type.map TypeName.stated, p.name.name⟩

def Selector.declared : Selector → DeclaredSelector
  | .simple name => .simple name.name
  | .keywords parts => .keywords (parts.map KeywordPart.declared)

namespace Node

/-- The modifiers among the children of a list of modifiers. -/
def modifier? (n : Node) : Option PropertyModifier :=
  match n.kind with
  | .modifier m => some m
  | _ => none

/-- The modifiers in all lists of modifiers among some nodes. -/
def modifiersAmong (cs : List Node) : List PropertyModifier :=
  cs.flatMap fun n => match n.kind with
    | .modifierList => n.children.filterMap modifier?
    | _ => []

/-- The superclass that a node names. -/
def superclassName? (n : Node) : Option Ident :=
  match n.kind with
  | .superclassName name => some name
  | _ => none

/-- The protocols that a node lists. -/
def protocolNames? (n : Node) : Option (List Ident) :=
  match n.kind with
  | .protocolList names => some names
  | _ => none

theorem superclass?_eq (n : Node) :
    n.superclass? = (n.children.filterMap superclassName?).head? :=
  List.head?_filterMap.symm

theorem protocols_eq (n : Node) :
    n.protocols = ((n.children.filterMap protocolNames?).head?.getD []).map Ident.name := by
  rw [List.head?_filterMap]
  rfl

/-- Whether a node is a member of a declaration. -/
def isMember (n : Node) : Bool :=
  match n.kind with
  | .property _ | .method _ => true
  | _ => false

/-- The member that a node shows, if all its fields were read. -/
def member? (n : Node) : Option Member :=
  match n.kind with
  | .property ⟨.valid type, .valid name, isOptional⟩ =>
    some (.property ⟨n.propertyModifiers, type.stated, name.name, isOptional⟩)
  | .method ⟨isClassMethod, returns, .valid selector, isOptional⟩ =>
    some (.method ⟨isClassMethod, returns.map TypeName.stated, selector.declared, isOptional⟩)
  | _ => none

/-- The members of a declaration in order, if all fields of all of them were read. -/
def members? (n : Node) : Option (List Member) := (n.children.filter isMember).mapM member?

/-- Whether a node is a declaration. -/
def isDeclaration (n : Node) : Bool :=
  match n.kind with
  | .classInterface _ | .protocolDeclaration _ => true
  | _ => false

/-- The declaration that a node shows, if all its fields were read. -/
def declared? (n : Node) : Option Declaration :=
  match n.kind with
  | .classInterface (.valid name) =>
    n.members?.map (.classInterface name.name (n.superclass?.map Ident.name) n.protocols)
  | .protocolDeclaration (.valid name) =>
    n.members?.map (.protocolDeclaration name.name n.protocols)
  | _ => none

/-- The declarations of a header in order, if all fields of all of them were read. -/
def declarations? (root : Node) : Option (List Declaration) :=
  (root.children.filter isDeclaration).mapM declared?

end Node

end HeaderBridge
