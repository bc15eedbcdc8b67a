/-
  The plan of a program: every file that is to be written, in the order in which they were added.
-/
import HeaderBridge.Plan.FilePlan

namespace HeaderBridge

structure Plan where
  files : List FilePlan := []

namespace Plan

def empty : Plan := {}

/-! ## Files -/

def addFile (p : Plan) (f : FilePlan) : Plan := ⟨p.files ++ [f]⟩

/-- The first file that was planned for a header. -/
def file? (p : Plan) (sourcePath : String) : Option FilePlan :=
  p.files.find? (·.sourcePath == sourcePath)

/-- Changes the first file that was planned for a header. -/
def updateFile (p : Plan) (sourcePath : String) (f : FilePlan → FilePlan) : Plan :=
  ⟨updateFirst (·.sourcePath == sourcePath) f p.files⟩

/-- Removes the first file that was planned for a header. -/
def removeFile (p : Plan) (sourcePath : String) : Plan :=
  ⟨p.files.eraseP (·.sourcePath == sourcePath)⟩

/-- Removes every file that was planned for a header. -/
def removeFiles (p : Plan) (sourcePath : String) : Plan :=
  ⟨p.files.filter (·.sourcePath != sourcePath)⟩

/-! ## Types -/

/-- The types of all files, file by file. -/
def types (p : Plan) : List TypePlan := p.files.flatMap (·.types)

def typesOfKind (p : Plan) (kind : TypeKind) : List TypePlan :=
  p.files.flatMap (·.typesOfKind kind)

/-- Every declaration of a type. -/
def typesNamed (p : Plan) (name : String) : List TypePlan := p.types.filter (·.name == name)

/-! ## Globals -/

/-- What all files declare outside their types, file by file. -/
def definitions (p : Plan) : List Definition := p.files.flatMap (·.definitions)

end Plan

end HeaderBridge
