/-
  The types of the values that global variables start with. All of them are worked out against
  the plan as it stands, file by file, and only then written into it. So the files may be taken
  in any order, by any number of workers, and what is found may come in in any order.
-/
import HeaderBridge.Plan.Surroundings

namespace HeaderBridge

/-- What was found in one file. -/
structure FileTypes where
  /-- The position of the file in the plan. -/
  file : Nat
  /-- The position of each global with a value, and the type of the value, if it has one. -/
  types : List (Nat × Option SwiftType)

/-- How many types were found. -/
def FileTypes.size (found : FileTypes) : Nat := found.types.countP (·.2.isSome)

namespace Surroundings

/-- Works out the types of the values in a file. -/
def fileTypes (w : Surroundings) (known : Registry) (position : Nat) (f : FilePlan) :
    FileTypes where
  file := position
  types := f.values.zipIdx.filterMap fun (v, i) =>
    v.value.map fun e => (i, e.type? known (w.scope f))

/-- Works out the types of the values in the files at some positions. -/
def typesIn (w : Surroundings) (p : Plan) (order : List Nat) : List FileTypes :=
  let known := p.registry w.builtIns
  order.filterMap fun i => p.files[i]?.map (w.fileTypes known i)

end Surroundings

/-- The file with the types of some of its values, given by position. -/
def FilePlan.setValueTypes (f : FilePlan) (types : List (Nat × Option SwiftType)) : FilePlan :=
  { f with
    values := types.foldl (fun values (i, type) =>
      values.modify i fun v => { v with valueType := type }) f.values }

/-- The plan with what was found in one file. -/
def Plan.setTypes (p : Plan) (found : FileTypes) : Plan :=
  ⟨p.files.modify found.file (·.setValueTypes found.types)⟩

namespace Surroundings

/-- The plan with the types of the values in the files at some positions, taken in that order,
    and how many types were found. -/
def typeAllIn (w : Surroundings) (p : Plan) (order : List Nat) : Plan × Nat :=
  let found := w.typesIn p order
  (found.foldl Plan.setTypes p, @List.sum Nat _ ⟨0⟩ (found.map FileTypes.size))

/-- The plan with the types of all values, and how many of them have one. -/
def typeAll (w : Surroundings) (p : Plan) : Plan × Nat :=
  w.typeAllIn p (List.range p.files.length)

end Surroundings

end HeaderBridge
