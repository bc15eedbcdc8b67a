/-
  On what the type of a value depends: on the types of the names that the value mentions, on
  functions and on known types. Of these only the names can change while macros are folded, since
  folding adds values to a plan and nothing else. So in two sessions whose plans differ in values
  alone, an expression has the same type where its names have (`Session.Alike.typeOf_eq`).
-/
import HeaderBridge.Session

namespace HeaderBridge

/-! ## Names -/

/-- The names of values that the type of an expression depends on. -/
def Expr.names : Expr → List String
  | .constant _ | .sizeOfType _ | .block _ _ _ => []
  | .identifier name => [name]
  | .parens e | .cast e _ | .sizeOfValue e | .unary _ e | .member e _ | .subscript e _ => names e
  | .binary lhs _ rhs | .assignment lhs _ rhs => names lhs ++ names rhs
  | .ternary condition yes no => names condition ++ names yes ++ names no
  | .call (.member receiver _) _ => names receiver
  | .call _ _ => []

/-- Scopes with the same functions give an expression the same type, if they give the same types
    to the names that it depends on. -/
theorem Expr.type?_congr {r : Registry} {s t : Scope} (hfunctions : s.functions = t.functions)
    (e : Expr) (h : ∀ name ∈ e.names, s.typeOf? name = t.typeOf? name) :
    e.type? r s = e.type? r t := by
  fun_induction Expr.names e with
  | case1 c => rfl
  | case2 type => rfl
  | case3 parameters result body => rfl
  | case4 name => exact h name (List.mem_singleton.mpr rfl)
  | case5 e ih => simp only [type?, ih h]
  | case6 e type ih => simp only [type?, ih h]
  | case7 e ih => simp only [type?, ih h]
  | case8 op e ih => simp only [type?, ih h]
  | case9 e name ih => simp only [type?, ih h]
  | case10 e index ih => simp only [type?, ih h]
  | case11 lhs op rhs ihl ihr =>
    rw [List.forall_mem_append] at h
    simp only [type?, ihl h.1, ihr h.2]
  | case12 lhs op rhs ihl ihr =>
    rw [List.forall_mem_append] at h
    simp only [type?, ihl h.1, ihr h.2]
  | case13 condition yes no ihc ihy ihn =>
    rw [List.forall_mem_append, List.forall_mem_append] at h
    simp only [type?, ihc h.1.1, ihy h.1.2, ihn h.2]
  | case14 receiver name arguments ih => simp only [type?, ih h]
  | case15 callee arguments hcallee =>
    cases callee with
    | member receiver name => exact absurd rfl (hcallee receiver name)
    | identifier name => simp only [type?, hfunctions]
    | _ => simp only [type?]

/-! ## The index of globals -/

/-- One step towards the definitions without the later values of each name. -/
def keepDistinct (kept : List Definition) (d : Definition) : List Definition :=
  match d with
  | .value name _ => if kept.any fun k => (k.typeFor? name).isSome then kept else kept ++ [d]
  | .function _ => kept ++ [d]

/-- What does not see a definition that is left out, wherever this happens, does not see that any
    was left out. -/
theorem look_distinctValues {β : Type} {look : List Definition → β}
    (h : ∀ kept d ds, look (keepDistinct kept d ++ ds) = look (kept ++ d :: ds))
    (ds : List Definition) : look (distinctValues ds) = look ds := by
  suffices hall : ∀ kept, look (ds.foldl keepDistinct kept) = look (kept ++ ds) from hall []
  induction ds with
  | nil => intro kept; rw [List.foldl_nil, List.append_nil]
  | cons d ds ih => intro kept; rw [List.foldl_cons, ih, h]

/-- Leaving out the later values of a name takes no type from any name. -/
theorem findSome?_distinctValues (name : String) (ds : List Definition) :
    (distinctValues ds).findSome? (Definition.typeFor? name) =
      ds.findSome? (Definition.typeFor? name) := by
  refine look_distinctValues (fun kept d ds => ?_) ds
  unfold keepDistinct
  split
  · next own storage =>
    split
    · next hkept =>
      rw [List.findSome?_append, List.findSome?_append, List.findSome?_cons]
      by_cases hname : own = name
      · -- What was kept has a type for the name.
        subst hname
        obtain ⟨k, hk, hsome⟩ := List.any_eq_true.mp hkept
        have hfound := List.findSome?_isSome_iff.mpr ⟨k, hk, hsome⟩
        obtain ⟨type, htype⟩ := Option.isSome_iff_exists.mp hfound
        rw [htype, Option.some_or, Option.some_or]
      · simp only [Definition.typeFor?, if_neg hname]
    · rw [List.append_assoc, List.singleton_append]
  · rw [List.append_assoc, List.singleton_append]

/-- No function is left out. -/
theorem filterMap_distinctValues (name : String) (ds : List Definition) :
    (distinctValues ds).filterMap (Definition.functionFor? name) =
      ds.filterMap (Definition.functionFor? name) := by
  refine look_distinctValues (fun kept d ds => ?_) ds
  unfold keepDistinct
  split
  · split
    · rw [List.filterMap_append, List.filterMap_append]
      rfl
    · rw [List.append_assoc, List.singleton_append]
  · rw [List.append_assoc, List.singleton_append]

/-! ## Plans that differ in values alone -/

/-- The file without its global values. -/
def FilePlan.withoutValues (f : FilePlan) : FilePlan := { f with values := [] }

/-- The plan without its global values. -/
def Plan.withoutValues (p : Plan) : Plan := ⟨p.files.map FilePlan.withoutValues⟩

namespace Plan

/-- What a plan makes known of types does not lie in its values. -/
theorem registry_withoutValues (p : Plan) (builtIns : Registry) :
    p.withoutValues.registry builtIns = p.registry builtIns := by
  have htypes : p.withoutValues.types = p.types := List.flatMap_map ..
  have hmerged : p.withoutValues.merged builtIns = p.merged builtIns := by
    funext name
    unfold merged typesNamed
    rw [htypes]
  unfold registry
  rw [htypes, hmerged]

theorem file?_withoutValues (p : Plan) (path : String) :
    p.withoutValues.file? path = (p.file? path).map FilePlan.withoutValues := by
  unfold file? withoutValues
  rw [List.find?_map]
  rfl

end Plan

theorem FilePlan.functions_withoutValues (f : FilePlan) (name : String) :
    f.withoutValues.definitions.filterMap (Definition.functionFor? name) =
      f.definitions.filterMap (Definition.functionFor? name) := by
  have hvalues : (f.values.map fun v => Definition.value v.name v.storage).filterMap
      (Definition.functionFor? name) = [] := by
    rw [List.filterMap_map]
    exact List.filterMap_eq_nil_iff.mpr fun v _ => rfl
  unfold definitions
  rw [List.filterMap_append, List.filterMap_append, hvalues]
  rfl

theorem Plan.functions_withoutValues (p : Plan) (name : String) :
    p.withoutValues.globalIndex.filterMap (Definition.functionFor? name) =
      p.globalIndex.filterMap (Definition.functionFor? name) := by
  unfold globalIndex definitions withoutValues
  rw [filterMap_distinctValues, filterMap_distinctValues, List.flatMap_map,
    List.filterMap_flatMap, List.filterMap_flatMap]
  simp only [FilePlan.functions_withoutValues]

namespace Session

/-! ## Meaning in a session -/

/-- The type of the value with a name, as the file for a header sees it. -/
def typeIn (s : Session) (path name : String) : Option SwiftType :=
  (s.plan.file? path).bind fun f => (s.surroundings.scope f).typeOf? name

/-- The type of an expression in the file for a header. -/
def typeOf (s : Session) (path : String) (e : Expr) : Option SwiftType :=
  (s.plan.file? path).bind fun f => s.surroundings.type? s.plan f e

/-- Two sessions with the same plan but for values, what is given from outside being the same and
    the index of globals up to date. -/
structure Alike (s t : Session) : Prop where
  plan : s.plan.withoutValues = t.plan.withoutValues
  builtIns : s.surroundings.builtIns = t.surroundings.builtIns
  globals : s.surroundings.globals = t.surroundings.globals
  index : s.surroundings.index = s.plan.globalIndex
  index' : t.surroundings.index = t.plan.globalIndex

namespace Alike

variable {s t u : Session}

theorem trans (h : Alike s t) (h' : Alike t u) : Alike s u :=
  ⟨h.plan.trans h'.plan, h.builtIns.trans h'.builtIns, h.globals.trans h'.globals, h.index,
    h'.index'⟩

/-- In files that differ in values alone the functions are the same. -/
theorem functions_eq (h : Alike s t) {f g : FilePlan} (hf : f.withoutValues = g.withoutValues) :
    (s.surroundings.scope f).functions = (t.surroundings.scope g).functions := by
  funext name
  have hfile : f.definitions.filterMap (Definition.functionFor? name) =
      g.definitions.filterMap (Definition.functionFor? name) := by
    rw [← FilePlan.functions_withoutValues, hf, FilePlan.functions_withoutValues]
  have hindex : s.plan.globalIndex.filterMap (Definition.functionFor? name) =
      t.plan.globalIndex.filterMap (Definition.functionFor? name) := by
    rw [← Plan.functions_withoutValues, h.plan, Plan.functions_withoutValues]
  simp only [Surroundings.scope, Scope.layers, List.foldr_cons, Scope.orElse, Scope.ofDefinitions,
    hfile, hindex, h.index, h.index', h.globals]

/-- Where the names in an expression mean the same, so does the expression. -/
theorem typeOf_eq (h : Alike s t) {path : String} {e : Expr}
    (hnames : ∀ name ∈ e.names, s.typeIn path name = t.typeIn path name) :
    s.typeOf path e = t.typeOf path e := by
  have hfile : (s.plan.file? path).map FilePlan.withoutValues =
      (t.plan.file? path).map FilePlan.withoutValues := by
    rw [← Plan.file?_withoutValues, h.plan, Plan.file?_withoutValues]
  have hregistry : s.plan.registry s.surroundings.builtIns =
      t.plan.registry t.surroundings.builtIns := by
    rw [← Plan.registry_withoutValues, h.plan, h.builtIns, Plan.registry_withoutValues]
  unfold typeIn at hnames
  unfold typeOf
  cases hs : s.plan.file? path with
  | none =>
    rw [hs] at hfile
    rw [Option.map_eq_none_iff.mp hfile.symm]
    rfl
  | some f =>
    rw [hs] at hfile hnames
    obtain ⟨g, hg, hfg⟩ := Option.map_eq_some_iff.mp hfile.symm
    rw [hg] at hnames ⊢
    simp only [Option.bind_some, Surroundings.type?, hregistry] at hnames ⊢
    exact Expr.type?_congr (h.functions_eq hfg.symm) e hnames

end Alike

end Session

end HeaderBridge
