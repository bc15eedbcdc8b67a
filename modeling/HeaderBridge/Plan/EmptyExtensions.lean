/-
  Extensions that add nothing. They are dropped, and the file remembers each.
-/
import HeaderBridge.Plan.Plan

namespace HeaderBridge

namespace TypePlan

/-- An extension with neither members nor protocols. -/
def addsNothing (t : TypePlan) : Bool := t.kind == .extension && t.isEmpty

end TypePlan

namespace EmptyExtensions

def tag : String := "RemoveEmptyExtensionsPass"

/-- The entry that a file gets for a dropped extension. -/
def removal (t : TypePlan) : HistoryEntry := ⟨tag, "Removed empty extension of " ++ t.name⟩

end EmptyExtensions

/-- The file without its empty extensions. -/
def FilePlan.dropEmptyExtensions (f : FilePlan) : FilePlan :=
  { f.removeTypes TypePlan.addsNothing with
    history := f.history.append ⟨(f.types.filter TypePlan.addsNothing).map EmptyExtensions.removal⟩ }

namespace Plan

/-- The plan without its empty extensions. -/
def dropEmptyExtensions (p : Plan) : Plan := ⟨p.files.map FilePlan.dropEmptyExtensions⟩

/-- How many empty extensions there are. -/
def emptyExtensionCount (p : Plan) : Nat := p.types.countP TypePlan.addsNothing

end Plan

end HeaderBridge
