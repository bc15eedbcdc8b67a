/-
  Subtypes in a program. Each name has at most one name directly above it: what the built-in type of
  that name says, or what the declarations of the name state first. A name is a subtype of another
  one if both mean something and steps of this kind lead from the one to the other. Classes may
  inherit from themselves or from each other: the walk takes no name twice, so that it ends after at
  most as many steps as there are types, and still it meets every name above.
-/
import Mathlib.Data.List.Perm.Subperm
import HeaderBridge.Proofs.Program.Merging
import HeaderBridge.Proofs.Typing.Subtype

namespace HeaderBridge

open Relation

/-! ## Lines without a name twice -/

namespace Registry

variable {r : Registry} {t s : KnownType} {reading : Reading} {passed : List String}

theorem nodup_above : ((r.above reading passed t).map (·.name)).Nodup := by
  fun_induction above r reading passed t with
  | case1 => exact List.nodup_nil
  | case2 => exact List.nodup_nil
  | case3 passed t s _ hp ih =>
    rw [List.map_cons, List.nodup_cons]
    refine ⟨fun hmem => ?_, ih⟩
    obtain ⟨u, hu, hname⟩ := List.mem_map.mp hmem
    exact not_mem_passed hu (hname ▸ List.mem_cons_self)

theorem nodup_line : ((r.line reading t).map (·.name)).Nodup := by
  unfold line
  rw [List.map_cons, List.nodup_cons]
  refine ⟨fun hmem => ?_, nodup_above⟩
  obtain ⟨u, hu, hname⟩ := List.mem_map.mp hmem
  exact not_mem_passed hu (hname ▸ List.mem_cons_self)

/-- A line of registered types is no longer than the registry. -/
theorem length_line_le (hg : r.Grounded) (ht : r.find? t.name = some t) :
    (r.line .registered t).length ≤ r.types.length := by
  have hsub : (r.line .registered t).map (·.name) ⊆ r.names := by
    intro name hname
    obtain ⟨u, hu, rfl⟩ := List.mem_map.mp hname
    have hfound := reachable_registered hg ht ((mem_line_iff hg ht).mp hu)
    exact List.mem_map_of_mem (mem_of_find?_eq_some hfound)
  have hlength := (List.subperm_of_subset nodup_line hsub).length_le
  rwa [names, List.length_map, List.length_map] at hlength

/-- The type directly above a registered type is the registered one of the name that it states. -/
theorem isParent_iff_supertypeName? (hg : r.Grounded) (ht : r.find? t.name = some t) :
    r.IsParent t s ↔ t.supertypeName? = some s.name ∧ r.find? s.name = some s := by
  constructor
  · intro h
    have hs := h.registered hg (mem_of_find?_eq_some ht)
    refine ⟨?_, hs⟩
    unfold IsParent parent? at h
    unfold KnownType.supertypeName?
    split at h
    · cases h
    · next name hname => rw [hname, Option.map_some, KnownType.nameOf, name_of_find? h]
    · next v hv =>
      obtain ⟨w, hw⟩ := Option.isSome_iff_exists.mp (hg t (mem_of_find?_eq_some ht) v hv)
      rw [hw, Option.getD_some] at h
      cases h
      rw [hv, Option.map_some, KnownType.nameOf, name_of_find? hw]
  · rintro ⟨hname, hs⟩
    unfold KnownType.supertypeName? at hname
    unfold IsParent parent?
    split
    · next hnone => rw [hnone] at hname; cases hname
    · next name hsuper =>
      rw [hsuper, Option.map_some, Option.some.injEq, KnownType.nameOf] at hname
      rw [hname, hs]
    · next v hv =>
      rw [hv, Option.map_some, Option.some.injEq, KnownType.nameOf] at hname
      rw [hname, hs]
      rfl

end Registry

/-! ## Names above names -/

theorem Foundation.grounded_registry : Foundation.registry.Grounded := by
  intro t ht s hs
  simp only [Foundation.registry, List.mem_cons, List.not_mem_nil, or_false] at ht
  rcases ht with rfl | rfl | rfl | rfl | rfl | rfl | rfl <;> cases hs

namespace Plan

variable {p : Plan} {builtIns : Registry} {name : String} {t : KnownType}

/-- A name means something: it is built in, or it is declared. -/
def Resolves (p : Plan) (builtIns : Registry) (name : String) : Prop :=
  builtIns.contains name = true ∨ ∃ t ∈ p.types, t.name = name

/-- The name directly above a name: the one that the built-in type states, or the first one that a
    declaration states. -/
def supername? (p : Plan) (builtIns : Registry) (name : String) : Option String :=
  match builtIns.find? name with
  | some t => t.supertypeName?
  | none => (p.typesNamed name).findSome? (·.supertype)

theorem contains_registry_iff :
    (p.registry builtIns).contains name = true ↔ p.Resolves builtIns name := by
  unfold Resolves Registry.contains
  rw [find?_registry, Option.isSome_or, Bool.or_eq_true, Option.isSome_map, joined?]
  apply or_congr_right
  split
  · next hnone =>
    simp only [Option.isSome_none, Bool.false_eq_true, false_iff, not_exists, not_and]
    intro t ht hname
    exact List.filter_eq_nil_iff.mp (List.isEmpty_iff.mp hnone) t ht (beq_iff_eq.mpr hname)
  · next hsome =>
    simp only [Option.isSome_some, true_iff]
    obtain ⟨t, ht⟩ := List.exists_mem_of_ne_nil _ (mt List.isEmpty_iff.mpr hsome)
    obtain ⟨hmem, hname⟩ := List.mem_filter.mp ht
    exact ⟨t, hmem, beq_iff_eq.mp hname⟩

theorem nameOf_supertypeAmong (builtIns : Registry) (name : String) :
    KnownType.nameOf (TypePlan.supertypeAmong builtIns name) = name := by
  unfold TypePlan.supertypeAmong
  cases h : builtIns.find? name with
  | none => rfl
  | some t => exact Registry.name_of_find? h

/-- The type that a name means states the name above it. -/
theorem supername?_of_find? (h : (p.registry builtIns).find? name = some t) :
    p.supername? builtIns name = t.supertypeName? := by
  rw [find?_registry] at h
  unfold supername?
  cases hb : builtIns.find? name with
  | some u =>
    rw [hb, Option.some_or] at h
    cases h
    rfl
  | none =>
    rw [hb, Option.none_or] at h
    obtain ⟨j, hj, rfl⟩ := Option.map_eq_some_iff.mp h
    unfold joined? at hj
    split at hj
    · cases hj
    · cases hj
      unfold KnownType.supertypeName?
      rw [TypePlan.supertype_knownAmong, Option.map_map]
      simp [Function.comp_def, nameOf_supertypeAmong, TypePlan.joined]

/-- A name that has one above it means something. -/
theorem resolves_of_supername? {above : String} (h : p.supername? builtIns name = some above) :
    p.Resolves builtIns name := by
  unfold supername? at h
  split at h
  · next t ht => exact .inl (Option.isSome_iff_exists.mpr ⟨t, ht⟩)
  · obtain ⟨t, ht, _⟩ := List.exists_of_findSome?_eq_some h
    obtain ⟨hmem, hname⟩ := List.mem_filter.mp ht
    exact .inr ⟨t, hmem, beq_iff_eq.mp hname⟩

/-- If the built-in types give whole only what is built in, so do all types of a program. -/
theorem grounded_registry (p : Plan) (hb : builtIns.Grounded) :
    (p.registry builtIns).Grounded := by
  intro t ht s hs
  rw [contains_registry_iff]
  left
  rcases List.mem_append.mp ht with ht | ht
  · exact hb t ht s hs
  · obtain ⟨name, -, rfl⟩ := List.mem_map.mp ht
    rw [merged_eq, TypePlan.supertype_knownAmong] at hs
    obtain ⟨above, -, habove⟩ := Option.map_eq_some_iff.mp hs
    unfold TypePlan.supertypeAmong at habove
    cases hfound : builtIns.find? above with
    | none => rw [hfound] at habove; cases habove
    | some u =>
      rw [hfound] at habove
      cases habove
      exact Option.isSome_iff_exists.mpr ⟨_, Registry.find?_name hfound⟩

/-- Steps between types are steps between the names that mean them. -/
theorem reflTransGen_isParent_iff (hb : builtIns.Grounded) {a b : String} {t s : KnownType}
    (ht : (p.registry builtIns).find? a = some t) (hs : (p.registry builtIns).find? b = some s) :
    ReflTransGen (p.registry builtIns).IsParent t s ↔
      ReflTransGen (fun name above => p.supername? builtIns name = some above) a b := by
  have hg := p.grounded_registry hb
  constructor
  · intro h
    have hnames : ReflTransGen (fun name above => p.supername? builtIns name = some above)
        t.name s.name := by
      clear hs
      induction h with
      | refl => exact .refl
      | tail hbefore hstep ih =>
        have hfound := Registry.reachable_registered hg (Registry.find?_name ht) hbefore
        refine ih.tail ?_
        rw [supername?_of_find? hfound]
        exact ((Registry.isParent_iff_supertypeName? hg hfound).mp hstep).1
    rwa [Registry.name_of_find? ht, Registry.name_of_find? hs] at hnames
  · intro h
    induction h using ReflTransGen.head_induction_on generalizing t with
    | refl =>
      cases ht.symm.trans hs
      exact .refl
    | @head a c hstep hrest ih =>
      -- The name in between is the last one, or it has one above it: it means something.
      have hresolves : p.Resolves builtIns c := by
        rcases ReflTransGen.cases_head hrest with rfl | ⟨d, hd, -⟩
        · exact contains_registry_iff.mp (Option.isSome_iff_exists.mpr ⟨s, hs⟩)
        · exact resolves_of_supername? hd
      obtain ⟨u, hu⟩ := Option.isSome_iff_exists.mp (contains_registry_iff.mpr hresolves)
      have hparent := (Registry.isParent_iff_supertypeName? hg (Registry.find?_name ht)).mpr
        ⟨by rw [← supername?_of_find? ht, hstep, Registry.name_of_find? hu],
          Registry.find?_name hu⟩
      exact .head hparent (ih hu)

/-- Whatever a program declares, loops of inheritance and types in parts included, a name is a
    subtype of another one if and only if both mean something and single steps from a name to the
    one directly above it lead to the other. The walk from a name takes at most as many steps as
    there are types. The built-in types may be any that give whole only what is built in, as those of
    `Foundation` do. -/
theorem isSubtype_registry_iff (p : Plan) {builtIns : Registry} (hb : builtIns.Grounded)
    (a b : String) :
    ((p.registry builtIns).isSubtype a b = true ↔
      p.Resolves builtIns a ∧ p.Resolves builtIns b ∧
        ReflTransGen (fun name above => p.supername? builtIns name = some above) a b) ∧
    ∀ t, (p.registry builtIns).find? a = some t →
      ((p.registry builtIns).line .registered t).length ≤ (p.registry builtIns).types.length := by
  have hg := p.grounded_registry hb
  refine ⟨?_, fun t ht => Registry.length_line_le hg (Registry.find?_name ht)⟩
  rw [Registry.isSubtype_iff hg, ← contains_registry_iff, ← contains_registry_iff]
  constructor
  · rintro ⟨t, s, ht, hs, hreach⟩
    exact ⟨Option.isSome_iff_exists.mpr ⟨t, ht⟩, Option.isSome_iff_exists.mpr ⟨s, hs⟩,
      (reflTransGen_isParent_iff hb ht hs).mp hreach⟩
  · rintro ⟨ha, hb', hreach⟩
    obtain ⟨t, ht⟩ := Option.isSome_iff_exists.mp ha
    obtain ⟨s, hs⟩ := Option.isSome_iff_exists.mp hb'
    exact ⟨t, s, ht, hs, (reflTransGen_isParent_iff hb ht hs).mpr hreach⟩

/-- `A` inherits from itself, `B` and `C` from each other. An extension states another supertype of
    `B`, in vain. -/
def loopedTypes : Plan := ⟨[{
  sourcePath := "A.h"
  targetPath := "A.swift"
  types := [
    { kind := .classType, name := "A", supertype := some "A" },
    { kind := .classType, name := "B", supertype := some "C" }] }, {
  sourcePath := "B.h"
  targetPath := "B.swift"
  types := [
    { kind := .extension, name := "B", supertype := some "NSArray" },
    { kind := .classType, name := "C", supertype := some "B" }] }]⟩

theorem isSubtype_registry_iff_loop :
    Foundation.registry.Grounded ∧
    (loopedTypes.registry Foundation.registry).isSubtype "B" "C" = true ∧
    (loopedTypes.registry Foundation.registry).isSubtype "C" "B" = true ∧
    (loopedTypes.registry Foundation.registry).isSubtype "A" "NSArray" = false := by
  have hg := Foundation.grounded_registry
  have hb : loopedTypes.Resolves Foundation.registry "B" := contains_registry_iff.mp (by cbv)
  have hc : loopedTypes.Resolves Foundation.registry "C" := contains_registry_iff.mp (by cbv)
  refine ⟨hg, (isSubtype_registry_iff loopedTypes hg "B" "C").1.mpr ⟨hb, hc, .single rfl⟩,
    (isSubtype_registry_iff loopedTypes hg "C" "B").1.mpr ⟨hc, hb, .single rfl⟩, ?_⟩
  rw [Bool.eq_false_iff, ne_eq, (isSubtype_registry_iff loopedTypes hg "A" "NSArray").1]
  rintro ⟨-, -, hreach⟩
  -- All steps from `A` lead back to it.
  have hloop : ∀ name, ReflTransGen
      (fun name above => loopedTypes.supername? Foundation.registry name = some above) "A" name →
        name = "A" := by
    intro name h
    induction h with
    | refl => rfl
    | tail _ hstep ih =>
      rw [ih] at hstep
      exact (Option.some.inj hstep).symm
  exact absurd (hloop "NSArray" hreach) (by decide)

end Plan

end HeaderBridge
