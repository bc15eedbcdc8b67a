/-
  Which Swift type stands for an Objective-C type. A scalar of C has a Swift name of its own, a
  pointer to an object becomes an optional as its nullability says, and the collections of
  Foundation become the collections of Swift where their arguments are known.
-/
import HeaderBridge.Objc.Type
import HeaderBridge.Swift.Type

namespace HeaderBridge

/-- The Swift names of the scalars of C, each with its spellings in C. -/
def scalarTable : List (List String × String) := [
  (["char"], "CChar"),
  (["signed char"], "CSignedChar"),
  (["unsigned char"], "CUnsignedChar"),
  (["short", "short int", "signed short"], "CShort"),
  (["unsigned short", "unsigned short int"], "CUnsignedShort"),
  (["int", "signed", "signed int"], "CInt"),
  (["unsigned", "unsigned int"], "CUnsignedInt"),
  (["long", "long int", "signed long"], "CLong"),
  (["unsigned long", "unsigned long int"], "CUnsignedLong"),
  (["long long", "signed long long"], "CLongLong"),
  (["unsigned long long"], "CUnsignedLongLong"),
  (["float"], "CFloat"),
  (["double"], "CDouble"),
  (["bool", "_Bool", "BOOL"], "Bool"),
  (["NSInteger"], "Int"),
  (["NSUInteger"], "UInt"),
  (["CGFloat"], "CGFloat"),
  (["int8_t"], "Int8"),
  (["int16_t"], "Int16"),
  (["int32_t"], "Int32"),
  (["int64_t"], "Int64"),
  (["uint8_t"], "UInt8"),
  (["uint16_t"], "UInt16"),
  (["uint32_t"], "UInt32"),
  (["uint64_t"], "UInt64")]

/-- The Swift name of a scalar of C. -/
def scalarName? (name : String) : Option String :=
  (scalarTable.find? (·.1.contains name)).map (·.2)

/-- Whether the type is a scalar of C, and no pointer. -/
def ObjcType.isScalar : ObjcType → Bool
  | .named name => (scalarName? name).isSome
  | _ => false

/-- How types are mapped. -/
structure TypeMap where
  /-- The type that `instancetype` stands for, inside a declaration. -/
  instanceType : Option String := none

namespace TypeMap

/-- The Swift type for a plain name. -/
def named (m : TypeMap) (name : String) : SwiftType :=
  match scalarName? name with
  | some scalar => .named scalar
  | none =>
    if name = "void" then .void
    else if name = "instancetype" then (m.instanceType.map SwiftType.named).getD .anyObject
    else if name = "NSString" ∨ name = "NSMutableString" then .string
    else if name = "SEL" then .named "Selector"
    else .named name

/-- The Swift type for a name with arguments. -/
def generic (name : String) (arguments : List SwiftType) : SwiftType :=
  match name, arguments with
  | "NSArray", [element] => .array element
  | "NSDictionary", [key, value] => .dictionary key value
  | _, _ => .generic name arguments

mutual

/-- The Swift type, without regard to null. A pointer to a scalar or to nothing stays a pointer;
    any other one is a reference to its target. -/
def unwrapped (m : TypeMap) : ObjcType → SwiftType
  | .named name => m.named name
  | .id [] => .anyObject
  | .id [only] => .named only
  | .id protocols => .composition (protocols.map SwiftType.named)
  | .generic name arguments => generic name (unwrappedAll m arguments)
  | .pointer (.named name) =>
    if (scalarName? name).isSome then .generic "UnsafeMutablePointer" [m.named name]
    else if name = "void" then .named "UnsafeMutableRawPointer"
    else m.named name
  | .pointer target => unwrapped m target

def unwrappedAll (m : TypeMap) : List ObjcType → List SwiftType
  | [] => []
  | t :: ts => unwrapped m t :: unwrappedAll m ts

end

/-- Whether values of the type may be null. -/
def mayBeNull : ObjcType → Bool
  | .id _ | .pointer _ => true
  | .named name => name == "instancetype"
  | .generic _ _ => false

/-- The Swift type under a nullability. Where nothing is stated, the type unwraps at each use. -/
def swiftType (m : TypeMap) (type : ObjcType) (nullability : Option Nullability) : SwiftType :=
  let inner := m.unwrapped type
  if mayBeNull type then
    match nullability with
    | some .nonnull => inner
    | some .nullable => .optional inner
    | some .unspecified | none => .implicit inner
  else inner

/-- The Swift type of a declaration. Without a type it declares an `id`. -/
def declaredType (m : TypeMap) : Option TypeName → SwiftType
  | some t => m.swiftType t.type t.nullability
  | none => m.swiftType (.id []) none

end TypeMap

end HeaderBridge
