/-
  What the names in a value mean. The known types of a program are the built-in ones, and for every
  other name all declarations of the plan taken together. The name of a value is looked up in the
  file at hand, then in an index of the globals of all files, then among the globals that the program
  is given.
-/
import HeaderBridge.Plan.Plan
import HeaderBridge.Typing.Registry
import HeaderBridge.Typing.Resolution

namespace HeaderBridge

namespace Plan

/-- The supertype that some declarations state: the first one stated, given whole where it is
    built in. -/
def supertypeOf (builtIns : Registry) (declarations : List TypePlan) :
    Option (Supertype KnownType) :=
  (declarations.findSome? (·.supertype)).map fun name =>
    match builtIns.find? name with
    | some known => .known known
    | none => .named name

/-- What all declarations of a name make known together. -/
def merged (p : Plan) (builtIns : Registry) (name : String) : KnownType :=
  (p.typesNamed name).foldl TypePlan.extend
    { name, supertype := supertypeOf builtIns (p.typesNamed name) }

/-- The types of a program. A built-in type hides what the plan declares under its name. -/
def registry (p : Plan) (builtIns : Registry) : Registry :=
  ⟨builtIns.types ++ (p.types.map (·.name)).eraseDups.map (p.merged builtIns)⟩

end Plan

/-- The definitions without each value whose name an earlier value has. -/
def distinctValues (ds : List Definition) : List Definition :=
  ds.foldl (fun kept d =>
    match d with
    | .value name _ => if kept.any fun k => (k.typeFor? name).isSome then kept else kept ++ [d]
    | .function _ => kept ++ [d]) []

/-- The globals of all files at one moment. It does not follow the plan. -/
def Plan.globalIndex (p : Plan) : List Definition := distinctValues p.definitions

/-- What the values of a plan are typed against, apart from the plan itself. -/
structure Surroundings where
  builtIns : Registry
  /-- Definitions from outside the plan. -/
  globals : List Definition := []
  /-- The globals of all files, as they were when the index was made. -/
  index : List Definition := []

namespace Surroundings

/-- The surroundings with the index made anew. -/
def refresh (w : Surroundings) (p : Plan) : Surroundings := { w with index := p.globalIndex }

/-- What names mean in a file. -/
def scope (w : Surroundings) (f : FilePlan) : Scope :=
  .layers [.ofDefinitions f.definitions, .ofDefinitions w.index, .ofDefinitions w.globals]

/-- The type of an expression in a file of a plan. -/
def type? (w : Surroundings) (p : Plan) (f : FilePlan) (e : Expr) : Option SwiftType :=
  e.type? (p.registry w.builtIns) (w.scope f)

end Surroundings

end HeaderBridge
