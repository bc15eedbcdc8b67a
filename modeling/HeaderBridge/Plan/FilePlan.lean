/-
  Planned files: the Swift file that is to be written for a header, with its types, global
  functions and global values.
-/
import HeaderBridge.Plan.TypePlan
import HeaderBridge.Swift.Expr
import HeaderBridge.Typing.Scope

namespace HeaderBridge

structure FunctionPlan where
  signature : Signature
  source : Option Provenance := none
  history : History := .empty

/-- A global variable or constant. -/
structure ValuePlan where
  name : String
  storage : Storage
  value : Option Expr := none
  /-- The type of the value, once it was worked out. -/
  valueType : Option SwiftType := none
  source : Option Provenance := none
  history : History := .empty

structure FilePlan where
  /-- The header. -/
  sourcePath : String
  /-- The Swift file. -/
  targetPath : String
  types : List TypePlan := []
  functions : List FunctionPlan := []
  values : List ValuePlan := []
  source : Option Provenance := none
  history : History := .empty

namespace FilePlan

/-- A path without the extension of its last part: without what stands from the last point on, if
    no slash follows that point. -/
def stem (path : List Char) : List Char :=
  match path.reverse.dropWhile fun c => c != '.' && c != '/' with
  | '.' :: front => front.reverse
  | _ => path

/-- The file for a header, named like it. -/
def forHeader (path : String) : FilePlan where
  sourcePath := path
  targetPath := String.ofList (stem path.toList) ++ ".swift"

def isEmpty (f : FilePlan) : Bool := f.types.isEmpty && f.functions.isEmpty && f.values.isEmpty

def typesOfKind (f : FilePlan) (kind : TypeKind) : List TypePlan :=
  f.types.filter (·.kind == kind)

def addType (f : FilePlan) (t : TypePlan) : FilePlan := { f with types := f.types ++ [t] }

def addFunction (f : FilePlan) (g : FunctionPlan) : FilePlan :=
  { f with functions := f.functions ++ [g] }

def addValue (f : FilePlan) (v : ValuePlan) : FilePlan := { f with values := f.values ++ [v] }

/-- The first global value with a name. -/
def value? (f : FilePlan) (name : String) : Option ValuePlan := f.values.find? (·.name == name)

/-- Drops the types that meet a condition. -/
def removeTypes (f : FilePlan) (drop : TypePlan → Bool) : FilePlan :=
  { f with types := f.types.filter (!drop ·) }

/-- What the file declares outside its types. -/
def definitions (f : FilePlan) : List Definition :=
  f.values.map (fun v => .value v.name v.storage) ++ f.functions.map (.function ·.signature)

end FilePlan

end HeaderBridge
