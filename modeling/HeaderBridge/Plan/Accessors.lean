/-
  Methods that only read or write a property. In Swift the property does that itself, so such
  methods are dropped; the type and the property remember it in their histories.
-/
import HeaderBridge.Plan.Plan

namespace HeaderBridge

namespace PropertyPlan

/-- Whether a method reads the property. -/
def isGetter (p : PropertyPlan) (m : MethodPlan) : Bool :=
  !m.signature.isStatic && m.signature.name == p.getterName && m.signature.parameters.isEmpty
    && m.signature.returns == p.storage.type

/-- Whether a method writes the property. A property that is only read has none. -/
def isSetter (p : PropertyPlan) (m : MethodPlan) : Bool :=
  !p.isReadonly && !m.signature.isStatic && m.signature.name == p.setterName
    && m.signature.parameters.map (·.type) == [p.storage.type] && m.signature.returns == .void

end PropertyPlan

namespace Accessors

def tag : String := "PropertyMergePass"

/-- What became of a type while its properties were gone through. -/
structure Progress where
  /-- The properties that were gone through. -/
  properties : List PropertyPlan
  /-- The methods that are left. -/
  methods : List MethodPlan
  history : History
  /-- How many methods were dropped. -/
  removed : Nat

/-- The entry that a type gets for a dropped method. -/
def removal (role property method : String) : HistoryEntry :=
  ⟨tag, s!"Removed method {method} since deduced it is a {role} for property {property}"⟩

/-- A property that took the place of some methods. -/
def absorbed (p : PropertyPlan) (description : String) (methods : List String) : PropertyPlan :=
  { p with
    hasMergedAccessors := true
    history := p.history.record tag
      ("Merged " ++ " and ".intercalate methods ++ " into property " ++ description) }

/-- Drops the accessors of one property. -/
def step (owner : String) (s : Progress) (p : PropertyPlan) : Progress :=
  if p.isClassProperty then { s with properties := s.properties ++ [p] }
  else
    let getters := (s.methods.filter p.isGetter).map (·.describe owner)
    let setters := (s.methods.filter p.isSetter).map (·.describe owner)
    let found := getters ++ setters
    if found.isEmpty then { s with properties := s.properties ++ [p] }
    else
      let description := p.describe owner
      { properties := s.properties ++ [absorbed p description found]
        methods := s.methods.filter fun m => !p.isGetter m && !p.isSetter m
        history := s.history.append ⟨getters.map (removal "getter" description)
          ++ setters.map (removal "setter" description)⟩
        removed := s.removed + found.length }

/-- Goes through the properties of a type. -/
def run (t : TypePlan) : Progress := t.properties.foldl (step t.name) ⟨[], t.methods, t.history, 0⟩

end Accessors

/-- The type without the accessors of its properties. -/
def TypePlan.mergeAccessors (t : TypePlan) : TypePlan :=
  let done := Accessors.run t
  { t with properties := done.properties, methods := done.methods, history := done.history }

/-- How many accessors the type has. -/
def TypePlan.accessorCount (t : TypePlan) : Nat := (Accessors.run t).removed

namespace Plan

/-- The plan without the accessors of properties. -/
def mergeAccessors (p : Plan) : Plan :=
  ⟨p.files.map fun f => { f with types := f.types.map TypePlan.mergeAccessors }⟩

/-- How many accessors there are. -/
def accessorCount (p : Plan) : Nat := @List.sum Nat _ ⟨0⟩ (p.types.map TypePlan.accessorCount)

end Plan

end HeaderBridge
