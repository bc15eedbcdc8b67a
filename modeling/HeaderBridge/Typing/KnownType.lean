/-
  A named type with everything known about its members. The additions keep the first entry of
  each key and pass over a later one: properties are told apart by name, protocols by name, and
  methods by selector among the static ones and among the others.
-/
import HeaderBridge.Typing.Signature

namespace HeaderBridge

/-- What a type says of its supertype: the name alone, or the whole type. -/
inductive Supertype (Known : Type) where
  | named (name : String)
  | known (type : Known)

structure KnownProperty where
  name : String
  storage : Storage
  deriving DecidableEq

structure KnownType where
  name : String
  supertype : Option (Supertype KnownType) := none
  protocols : List String := []
  properties : List KnownProperty := []
  /-- The parameters of each initializer. -/
  initializers : List (List Parameter) := []
  methods : List Signature := []

namespace KnownType

/-- The name that a supertype goes by. -/
def nameOf : Supertype KnownType → String
  | .named name => name
  | .known type => type.name

def supertypeName? (t : KnownType) : Option String := t.supertype.map nameOf

/-! ## Members -/

def property? (t : KnownType) (name : String) : Option KnownProperty :=
  t.properties.find? (·.name == name)

/-- The first method with a name and number of parameters. -/
def method? (t : KnownType) (name : String) (arity : Nat) : Option Signature :=
  t.methods.find? fun m => m.name == name && m.arity == arity

def conformsTo (t : KnownType) (protocolName : String) : Bool := t.protocols.contains protocolName

/-! ## Additions -/

def addProtocol (t : KnownType) (protocolName : String) : KnownType :=
  if t.conformsTo protocolName then t
  else { t with protocols := t.protocols ++ [protocolName] }

def addProperty (t : KnownType) (name : String) (storage : Storage) : KnownType :=
  if (t.property? name).isSome then t
  else { t with properties := t.properties ++ [⟨name, storage⟩] }

/-- Initializers have no key, so every one is kept. -/
def addInitializer (t : KnownType) (parameters : List Parameter) : KnownType :=
  { t with initializers := t.initializers ++ [parameters] }

/-- Whether two methods are declared under the same key. -/
def sameKey (a b : Signature) : Bool := a.isStatic == b.isStatic && a.selector == b.selector

def addMethod (t : KnownType) (m : Signature) : KnownType :=
  if t.methods.any (sameKey m) then t else { t with methods := t.methods ++ [m] }

end KnownType

end HeaderBridge
