/-
  Types that are declared in parts. What the declarations of a name make known together is what one
  declaration makes known that has all their protocols and members, in the order of the plan, and the
  supertype that is stated first. So the first declaration of each key counts, none is lost, and it
  does not matter into how many declarations, extensions and files the members are split.
-/
import HeaderBridge.Plan.Surroundings
import HeaderBridge.Proofs.Typing.Additions
import HeaderBridge.Proofs.Typing.Keys
import HeaderBridge.Typing.Foundation

namespace HeaderBridge

/-! ## One declaration -/

/-- What a declaration says of a property. -/
def PropertyPlan.known (p : PropertyPlan) : KnownProperty := ⟨p.name, p.storage⟩

namespace TypePlan

/-- A supertype as a program knows it: given whole where it is built in. -/
def supertypeAmong (builtIns : Registry) (name : String) : Supertype KnownType :=
  ((builtIns.find? name).map .known).getD (.named name)

/-- What a declaration alone makes known in a program. -/
def knownAmong (builtIns : Registry) (t : TypePlan) : KnownType :=
  { t.known with supertype := t.supertype.map (supertypeAmong builtIns) }

/-- The declarations of a name as a single one. -/
def joined (name : String) (ts : List TypePlan) : TypePlan where
  kind := .classType
  name
  supertype := ts.findSome? (·.supertype)
  protocols := ts.flatMap (·.protocols)
  properties := ts.flatMap (·.properties)
  methods := ts.flatMap (·.methods)
  initializers := ts.flatMap (·.initializers)

/-- The protocols, properties, methods and initializers of a declaration are added behind what is
    known, each list by itself. -/
theorem extend_eq (k : KnownType) (t : TypePlan) : extend k t = { k with
    protocols := t.protocols.foldl (keepFirst id) k.protocols
    properties := (t.properties.map PropertyPlan.known).foldl (keepFirst KnownProperty.name)
      k.properties
    initializers := k.initializers ++ t.initializers.map (·.parameters)
    methods := (t.methods.map (·.signature)).foldl (keepFirst Signature.key) k.methods } := by
  have hproperties : ∀ k : KnownType,
      t.properties.foldl (fun k p => k.addProperty p.name p.storage) k =
        (t.properties.map PropertyPlan.known).foldl (fun k p => k.addProperty p.name p.storage) k :=
    fun k => by rw [List.foldl_map]; rfl
  have hinitializers : ∀ k : KnownType,
      t.initializers.foldl (fun k i => k.addInitializer i.parameters) k =
        (t.initializers.map (·.parameters)).foldl KnownType.addInitializer k :=
    fun k => by rw [List.foldl_map]
  have hmethods : ∀ k : KnownType, t.methods.foldl (fun k m => k.addMethod m.signature) k =
      (t.methods.map (·.signature)).foldl KnownType.addMethod k :=
    fun k => by rw [List.foldl_map]
  unfold extend
  rw [hmethods, hinitializers, hproperties, KnownType.foldl_addProtocol,
    KnownType.foldl_addProperty, KnownType.foldl_addInitializer, KnownType.foldl_addMethod]

/-- Declarations one behind the other add what they add as a single one. -/
theorem foldl_extend (name : String) (ts : List TypePlan) (k : KnownType) :
    ts.foldl extend k = extend k (joined name ts) := by
  induction ts generalizing k with
  | nil => cases k; simp [extend_eq, joined]
  | cons t ts ih =>
    rw [List.foldl_cons, ih, extend_eq, extend_eq, extend_eq]
    simp only [joined, List.flatMap_cons, List.map_append, List.foldl_append, List.append_assoc]

/-- Every entry is kept that is the first of its key, in its order. -/
theorem known_eq (t : TypePlan) : t.known =
    { name := t.name
      supertype := t.supertype.map .named
      protocols := firstOfEach id t.protocols
      properties := firstOfEach KnownProperty.name (t.properties.map PropertyPlan.known)
      initializers := t.initializers.map (·.parameters)
      methods := firstOfEach Signature.key (t.methods.map (·.signature)) } := by
  unfold known
  rw [extend_eq]
  rfl

@[simp] theorem name_knownAmong (builtIns : Registry) (t : TypePlan) :
    (t.knownAmong builtIns).name = t.name := by
  unfold knownAmong
  rw [known_eq]

@[simp] theorem supertype_knownAmong (builtIns : Registry) (t : TypePlan) :
    (t.knownAmong builtIns).supertype = t.supertype.map (supertypeAmong builtIns) := rfl

end TypePlan

/-- What is known of a type keeps the first entry of each key that its declaration has, in the order
    of the declaration, and every initializer. -/
structure KeepsFirst (t : TypePlan) (k : KnownType) : Prop where
  property? : ∀ name, k.property? name = (t.property? name).map PropertyPlan.known
  method : ∀ key, k.methods.find? (·.key = key) = (t.methods.map (·.signature)).find? (·.key = key)
  initializers : k.initializers = t.initializers.map (·.parameters)
  /-- Nothing is lost. -/
  mem_protocols : ∀ name, name ∈ k.protocols ↔ name ∈ t.protocols
  mem_properties : ∀ name, name ∈ k.properties.map (·.name) ↔ name ∈ t.properties.map (·.name)
  mem_methods : ∀ key, key ∈ k.methods.map (·.key) ↔ key ∈ t.methods.map (·.signature.key)
  /-- Nothing is there twice. -/
  nodup_protocols : k.protocols.Nodup
  nodup_properties : (k.properties.map (·.name)).Nodup
  nodup_methods : (k.methods.map (·.key)).Nodup
  /-- What is kept stays in its order. -/
  sublist_protocols : k.protocols.Sublist t.protocols
  sublist_properties : k.properties.Sublist (t.properties.map PropertyPlan.known)
  sublist_methods : k.methods.Sublist (t.methods.map (·.signature))

theorem TypePlan.keepsFirst_knownAmong (builtIns : Registry) (t : TypePlan) :
    KeepsFirst t (t.knownAmong builtIns) := by
  unfold knownAmong
  rw [known_eq]
  exact {
    property? := fun name => by
      have hfirst := find?_firstOfEach KnownProperty.name
        (t.properties.map PropertyPlan.known) name
      rw [List.find?_map] at hfirst
      exact hfirst
    method := fun key => find?_firstOfEach Signature.key _ key
    initializers := rfl
    mem_protocols := fun name => by
      have hmem := mem_map_firstOfEach id t.protocols name
      rw [List.map_id, List.map_id] at hmem
      exact hmem
    mem_properties := fun name => by
      have hmem := mem_map_firstOfEach KnownProperty.name
        (t.properties.map PropertyPlan.known) name
      rw [List.map_map] at hmem
      exact hmem
    mem_methods := fun key => by
      have hmem := mem_map_firstOfEach Signature.key (t.methods.map (·.signature)) key
      rw [List.map_map] at hmem
      exact hmem
    nodup_protocols := by
      have hnodup := nodup_firstOfEach id t.protocols
      rw [List.map_id] at hnodup
      exact hnodup
    nodup_properties := nodup_firstOfEach _ _
    nodup_methods := nodup_firstOfEach _ _
    sublist_protocols := firstOfEach_sublist _ _
    sublist_properties := firstOfEach_sublist _ _
    sublist_methods := firstOfEach_sublist _ _ }

/-! ## All declarations of a name -/

namespace Plan

/-- The declarations of a name as a single one, if there are any. -/
def joined? (p : Plan) (name : String) : Option TypePlan :=
  if (p.typesNamed name).isEmpty then none else some (.joined name (p.typesNamed name))

theorem merged_eq (p : Plan) (builtIns : Registry) (name : String) :
    p.merged builtIns name = (TypePlan.joined name (p.typesNamed name)).knownAmong builtIns := by
  have hsupertype : supertypeOf builtIns (p.typesNamed name) =
      ((p.typesNamed name).findSome? (·.supertype)).map (TypePlan.supertypeAmong builtIns) := by
    unfold supertypeOf
    congr 1
    funext name
    unfold TypePlan.supertypeAmong
    cases builtIns.find? name <;> rfl
  unfold merged TypePlan.knownAmong TypePlan.known
  rw [TypePlan.foldl_extend name, TypePlan.extend_eq, TypePlan.extend_eq, hsupertype]
  rfl

/-- The declared names, each once, have a name if it has declarations. -/
theorem find?_declared (p : Plan) (name : String) :
    (p.types.map (·.name)).eraseDups.find? (· == name) =
      if (p.typesNamed name).isEmpty then none else some name := by
  split
  · next hnone =>
    rw [List.find?_eq_none]
    intro other hother heq
    obtain ⟨t, ht, hname⟩ := List.mem_map.mp (List.mem_eraseDups.mp hother)
    have hmem : t ∈ p.typesNamed name := List.mem_filter.mpr ⟨ht, hname ▸ heq⟩
    rw [List.isEmpty_iff.mp hnone] at hmem
    cases hmem
  · next hsome =>
    obtain ⟨t, ht⟩ := List.exists_mem_of_ne_nil _ (mt List.isEmpty_iff.mpr hsome)
    obtain ⟨hmem, hname⟩ := List.mem_filter.mp ht
    have hfound : ((p.types.map (·.name)).eraseDups.find? (· == name)).isSome = true :=
      List.find?_isSome.mpr ⟨t.name, List.mem_eraseDups.mpr (List.mem_map_of_mem hmem), hname⟩
    obtain ⟨other, hother⟩ := Option.isSome_iff_exists.mp hfound
    rw [hother, beq_iff_eq.mp (List.find?_some (p := (· == name)) hother)]

/-- A name means the built-in type, or else all its declarations. -/
theorem find?_registry (p : Plan) (builtIns : Registry) (name : String) :
    (p.registry builtIns).find? name =
      (builtIns.find? name).or ((p.joined? name).map (TypePlan.knownAmong builtIns)) := by
  have hmerged : ((·.name == name) ∘ p.merged builtIns) = (· == name) := by
    funext other
    rw [Function.comp, merged_eq, TypePlan.name_knownAmong]
    rfl
  unfold Registry.find? registry
  rw [List.find?_append, List.find?_map, hmerged, find?_declared]
  unfold joined?
  split
  · rfl
  · rw [Option.map_some, Option.map_some, merged_eq]

end Plan

/-! ## Lookups -/

namespace Registry

variable {r q : Registry} {t : KnownType} {reading : Reading} {passed : List String}

/-- Where names mean the same, the same types are above a type. -/
theorem above_congr (h : r.find? = q.find?) :
    r.above reading passed t = q.above reading passed t := by
  have hparent : ∀ t, r.parent? reading t = q.parent? reading t := fun t => by
    unfold parent?
    rw [h]
  fun_induction above r reading passed t with
  | case1 passed t hnone =>
    rw [above_eq_nil]
    intro s hs
    rw [← hparent, hnone] at hs
    cases hs
  | case2 passed t s hs hp =>
    rw [above_eq_nil]
    intro u hu
    rw [← hparent, hs] at hu
    cases hu
    exact List.contains_iff_mem.mp hp
  | case3 passed t s hs hp ih =>
    rw [ih, above_eq_cons ((hparent t).symm.trans hs) (mt List.contains_iff_mem.mpr hp)]

theorem isSubtype_congr (h : r.find? = q.find?) : r.isSubtype = q.isSubtype := by
  funext name of
  simp only [isSubtype, line, h, above_congr h]

theorem member?_congr {α : Type} (h : r.find? = q.find?) (name : String)
    (look : KnownType → Option α) : r.member? name look = q.member? name look := by
  simp only [member?, line, h, above_congr h]

end Registry

namespace Plan

/-- A name that is not built in means what a single declaration makes known that has all that the
    declarations of the name have, in their order. So the first entry of each key counts, nothing is
    lost, and only initializers are kept twice. Two plans in which these single declarations are the
    same answer every question about types alike, however the members are split. -/
theorem registry_of_joined (p : Plan) (builtIns : Registry) :
    (∀ name, builtIns.contains name = false → (p.registry builtIns).find? name =
      (p.joined? name).map (TypePlan.knownAmong builtIns)) ∧
    (∀ t : TypePlan, KeepsFirst t (t.knownAmong builtIns)) ∧
    ∀ q : Plan, (∀ name, builtIns.contains name = false → q.joined? name = p.joined? name) →
      (q.registry builtIns).find? = (p.registry builtIns).find? ∧
      (q.registry builtIns).isSubtype = (p.registry builtIns).isSubtype ∧
      ∀ (α : Type) (name : String) (look : KnownType → Option α),
        (q.registry builtIns).member? name look = (p.registry builtIns).member? name look := by
  have hdeclared : ∀ (p : Plan) name, builtIns.contains name = false →
      (p.registry builtIns).find? name = (p.joined? name).map (TypePlan.knownAmong builtIns) := by
    intro p name hname
    rw [find?_registry, Registry.contains_eq_false.mp hname, Option.none_or]
  refine ⟨hdeclared p, TypePlan.keepsFirst_knownAmong builtIns, fun q hq => ?_⟩
  have hfind : (q.registry builtIns).find? = (p.registry builtIns).find? := by
    funext name
    cases hname : builtIns.contains name with
    | true =>
      obtain ⟨t, ht⟩ := Option.isSome_iff_exists.mp hname
      rw [find?_registry, find?_registry, ht, Option.some_or, Option.some_or]
    | false => rw [hdeclared q name hname, hdeclared p name hname, hq name hname]
  exact ⟨hfind, Registry.isSubtype_congr hfind, fun _ => Registry.member?_congr hfind⟩

def countProperty : PropertyPlan := { name := "count", storage := .var .double }

def titleProperty : PropertyPlan := { name := "title", storage := .var .string }

/-- A type with two properties, in one declaration. -/
def wholeType : Plan := ⟨[{
  sourcePath := "A.h"
  targetPath := "A.swift"
  types := [{
    kind := .classType, name := "A", supertype := some "NSArray"
    properties := [countProperty, titleProperty] }] }]⟩

/-- The same type with the second property in an extension, in a file of its own. -/
def splitType : Plan := ⟨[{
  sourcePath := "A.h"
  targetPath := "A.swift"
  types := [{
    kind := .classType, name := "A", supertype := some "NSArray"
    properties := [countProperty] }] }, {
  sourcePath := "B.h"
  targetPath := "B.swift"
  types := [{ kind := .extension, name := "A", properties := [titleProperty] }] }]⟩

theorem registry_of_joined_extension :
    ((splitType.registry Foundation.registry).find? "A").map (·.properties) =
      some [⟨"count", .var .double⟩, ⟨"title", .var .string⟩] ∧
    (splitType.registry Foundation.registry).isSubtype =
      (wholeType.registry Foundation.registry).isSubtype := by
  obtain ⟨hfind, -, hsplit⟩ := registry_of_joined wholeType Foundation.registry
  have hjoined : ∀ name, splitType.joined? name = wholeType.joined? name := by
    intro name
    by_cases hname : "A" = name
    · subst hname
      rfl
    · simp [joined?, typesNamed, types, splitType, wholeType, hname]
  obtain ⟨hsame, hsubtype, -⟩ := hsplit splitType fun name _ => hjoined name
  refine ⟨?_, hsubtype⟩
  rw [hsame, hfind "A" rfl]
  rfl

end Plan

end HeaderBridge
