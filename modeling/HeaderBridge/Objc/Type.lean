/-
  Objective-C types as declarations write them, with the words that say whether a pointer may be
  null.
-/
import HeaderBridge.Source.Span

namespace HeaderBridge

/-- A name in the source. -/
structure Ident where
  name : String
  span : Span
  deriving DecidableEq

/-- Whether a pointer may be null, where a declaration states it. -/
inductive Nullability where
  | nonnull
  | nullable
  | unspecified
  deriving DecidableEq

namespace Nullability

/-- The nullability that a word states. Each has three spellings. -/
def ofWord? (word : String) : Option Nullability :=
  if ["nonnull", "_Nonnull", "__nonnull"].contains word then some .nonnull
  else if ["nullable", "_Nullable", "__nullable"].contains word then some .nullable
  else if ["null_unspecified", "_Null_unspecified", "__null_unspecified"].contains word then
    some .unspecified
  else none

def word : Nullability → String
  | .nonnull => "nonnull"
  | .nullable => "nullable"
  | .unspecified => "null_unspecified"

end Nullability

inductive ObjcType where
  /-- A plain name, such as `CGRect` or the C type `unsigned int` of several words. -/
  | named (name : String)
  /-- An object of any class that conforms to the protocols. -/
  | id (protocols : List String)
  | generic (name : String) (arguments : List ObjcType)
  | pointer (target : ObjcType)

namespace ObjcType

/-- The name below all pointers. -/
def baseName : ObjcType → String
  | .named name | .generic name _ => name
  | .id _ => "id"
  | .pointer target => target.baseName

def isPointer : ObjcType → Bool
  | .pointer _ => true
  | _ => false

mutual

/-- The type in Objective-C, with no blank before a star. -/
def text : ObjcType → String
  | .named name => name
  | .id [] => "id"
  | .id protocols => "id<" ++ ", ".intercalate protocols ++ ">"
  | .generic name arguments => name ++ "<" ++ ", ".intercalate (texts arguments) ++ ">"
  | .pointer target => text target ++ "*"

def texts : List ObjcType → List String
  | [] => []
  | t :: ts => text t :: texts ts

end

end ObjcType

/-- A type with its nullability, at its place in a declaration. -/
structure TypeName where
  type : ObjcType
  nullability : Option Nullability
  span : Span

/-- The type behind the word for its nullability. -/
def TypeName.text (t : TypeName) : String :=
  match t.nullability with
  | some n => n.word ++ " " ++ t.type.text
  | none => t.type.text

end HeaderBridge
