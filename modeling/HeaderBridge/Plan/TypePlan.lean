/-
  Planned type declarations. Several may share a name: a class and the extensions that add
  members to it.
-/
import HeaderBridge.Plan.Member
import HeaderBridge.Typing.KnownType

namespace HeaderBridge

/-- Changes the first entry that meets a condition; all others stay. -/
def updateFirst {α : Type} (p : α → Bool) (f : α → α) : List α → List α
  | [] => []
  | a :: as => if p a then f a :: as else a :: updateFirst p f as

inductive TypeKind where
  | classType
  /-- Members added to a type that is declared elsewhere. -/
  | extension
  | protocolType
  deriving DecidableEq

structure TypePlan where
  kind : TypeKind
  name : String
  supertype : Option String := none
  protocols : List String := []
  properties : List PropertyPlan := []
  methods : List MethodPlan := []
  initializers : List InitializerPlan := []
  source : Option Provenance := none
  history : History := .empty
  deriving DecidableEq

namespace TypePlan

/-- Neither members nor protocols. -/
def isEmpty (t : TypePlan) : Bool :=
  t.properties.isEmpty && t.methods.isEmpty && t.initializers.isEmpty && t.protocols.isEmpty

/-! ## Members -/

def addProperty (t : TypePlan) (p : PropertyPlan) : TypePlan :=
  { t with properties := t.properties ++ [p] }

def addMethod (t : TypePlan) (m : MethodPlan) : TypePlan := { t with methods := t.methods ++ [m] }

def addInitializer (t : TypePlan) (i : InitializerPlan) : TypePlan :=
  { t with initializers := t.initializers ++ [i] }

/-- A protocol is listed once. -/
def addProtocol (t : TypePlan) (protocolName : String) : TypePlan :=
  if t.protocols.contains protocolName then t
  else { t with protocols := t.protocols ++ [protocolName] }

def property? (t : TypePlan) (name : String) : Option PropertyPlan :=
  t.properties.find? (·.name == name)

/-- The first method with a name and number of parameters. -/
def method? (t : TypePlan) (name : String) (arity : Nat) : Option MethodPlan :=
  t.methods.find? fun m => m.signature.name == name && m.signature.arity == arity

/-- Changes the first property with a name. -/
def updateProperty (t : TypePlan) (name : String) (f : PropertyPlan → PropertyPlan) : TypePlan :=
  { t with properties := updateFirst (·.name == name) f t.properties }

/-- Drops the methods that meet a condition; they are given back in their order. -/
def removeMethods (t : TypePlan) (drop : MethodPlan → Bool) : List MethodPlan × TypePlan :=
  (t.methods.filter drop, { t with methods := t.methods.filter (!drop ·) })

/-! ## As a known type -/

/-- Adds the protocols and members of a declaration to what is known. -/
def extend (known : KnownType) (t : TypePlan) : KnownType :=
  let known := t.protocols.foldl KnownType.addProtocol known
  let known := t.properties.foldl (fun k p => k.addProperty p.name p.storage) known
  let known := t.initializers.foldl (fun k i => k.addInitializer i.parameters) known
  t.methods.foldl (fun k m => k.addMethod m.signature) known

/-- What one declaration alone makes known. -/
def known (t : TypePlan) : KnownType :=
  extend { name := t.name, supertype := t.supertype.map .named } t

end TypePlan

end HeaderBridge
