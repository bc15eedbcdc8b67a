/-
  Swift types, as they are written in declarations. A name is kept as it stands (`CInt`,
  `NSString`); nothing is looked up here.
-/

namespace HeaderBridge

inductive SwiftType where
  /-- A type with a name, such as `Int` or `NSObject`. -/
  | named (name : String)
  /-- A named type with arguments, such as `Set<Int>`. -/
  | generic (name : String) (arguments : List SwiftType)
  /-- The type `T?`. -/
  | optional (wrapped : SwiftType)
  /-- The type `T!`, an optional that is unwrapped at each use. -/
  | implicit (wrapped : SwiftType)
  | array (element : SwiftType)
  | dictionary (key value : SwiftType)
  /-- The type `A & B` of what conforms to every member. -/
  | composition (members : List SwiftType)

namespace SwiftType

def int : SwiftType := .named "Int"

def double : SwiftType := .named "Double"

def bool : SwiftType := .named "Bool"

def string : SwiftType := .named "String"

def void : SwiftType := .named "Void"

def anyObject : SwiftType := .named "AnyObject"

/-! ## Equality -/

mutual

/-- Whether two types are the same. -/
def same : SwiftType → SwiftType → Bool
  | .named a, .named b => a == b
  | .generic a as, .generic b bs => a == b && sameAll as bs
  | .optional a, .optional b => same a b
  | .implicit a, .implicit b => same a b
  | .array a, .array b => same a b
  | .dictionary k v, .dictionary k' v' => same k k' && same v v'
  | .composition as, .composition bs => sameAll as bs
  | _, _ => false

def sameAll : List SwiftType → List SwiftType → Bool
  | [], [] => true
  | a :: as, b :: bs => same a b && sameAll as bs
  | _, _ => false

end

mutual

theorem same_iff : ∀ a b : SwiftType, same a b = true ↔ a = b
  | .named _, b => by cases b <;> simp [same]
  | .generic _ as, b => by
    cases b with
    | generic b bs => simp [same, sameAll_iff as bs]
    | _ => simp [same]
  | .optional a, b => by
    cases b with
    | optional b => simp [same, same_iff a b]
    | _ => simp [same]
  | .implicit a, b => by
    cases b with
    | implicit b => simp [same, same_iff a b]
    | _ => simp [same]
  | .array a, b => by
    cases b with
    | array b => simp [same, same_iff a b]
    | _ => simp [same]
  | .dictionary k v, b => by
    cases b with
    | dictionary k' v' => simp [same, same_iff k k', same_iff v v']
    | _ => simp [same]
  | .composition as, b => by
    cases b with
    | composition bs => simp [same, sameAll_iff as bs]
    | _ => simp [same]

theorem sameAll_iff : ∀ as bs : List SwiftType, sameAll as bs = true ↔ as = bs
  | [], bs => by cases bs <;> simp [sameAll]
  | a :: as, bs => by
    cases bs with
    | nil => simp [sameAll]
    | cons b bs => simp [sameAll, same_iff a b, sameAll_iff as bs]

end

instance : DecidableEq SwiftType := fun a b => decidable_of_iff _ (same_iff a b)

/-! ## Optionality and names -/

/-- Whether nothing is a value of the type. -/
def isOptional : SwiftType → Bool
  | .optional _ | .implicit _ => true
  | _ => false

/-- The type below every level of optionality. -/
def unwrapped : SwiftType → SwiftType
  | .optional t | .implicit t => t.unwrapped
  | t => t

/-- The name under which the type is declared. -/
def nominalName? : SwiftType → Option String
  | .named name | .generic name _ => some name
  | _ => none

/-! ## Numbers -/

/-- The integer types, of Swift and of C. -/
def integerNames : List String := [
  "Int", "Int8", "Int16", "Int32", "Int64", "UInt", "UInt8", "UInt16", "UInt32", "UInt64",
  "CChar", "CSignedChar", "CUnsignedChar", "CShort", "CUnsignedShort", "CInt", "CUnsignedInt",
  "CLong", "CUnsignedLong", "CLongLong", "CUnsignedLongLong"]

/-- The floating types, of Swift and of C. -/
def floatingNames : List String := ["Float", "Double", "Float80", "CGFloat", "CFloat", "CDouble"]

def isInteger : SwiftType → Bool
  | .named name => integerNames.contains name
  | _ => false

def isFloating : SwiftType → Bool
  | .named name => floatingNames.contains name
  | _ => false

def isNumeric (t : SwiftType) : Bool := t.isInteger || t.isFloating

/-! ## Text -/

/-- The text of a type in front of a mark of optionality: a composition stands in parentheses. -/
def guarded : SwiftType → String → String
  | .composition _, s => "(" ++ s ++ ")"
  | _, s => s

mutual

/-- The type as Swift writes it. -/
def text : SwiftType → String
  | .named name => name
  | .generic name arguments => name ++ "<" ++ ", ".intercalate (texts arguments) ++ ">"
  | .optional t => guarded t (text t) ++ "?"
  | .implicit t => guarded t (text t) ++ "!"
  | .array t => "[" ++ text t ++ "]"
  | .dictionary k v => "[" ++ text k ++ ": " ++ text v ++ "]"
  | .composition members => " & ".intercalate (texts members)

def texts : List SwiftType → List String
  | [] => []
  | t :: ts => text t :: texts ts

end

end SwiftType

end HeaderBridge
