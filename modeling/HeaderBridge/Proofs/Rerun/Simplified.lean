/-
  What the steps on types leave behind. Going through the properties of a type keeps the methods
  that no property absorbs, in their order, and what a property absorbs does not depend on what it
  absorbed before. So a plan that went through the steps goes through them once more unchanged, and
  nothing is counted (`Session.simplify_of_simplified`).
-/
import HeaderBridge.Session

namespace HeaderBridge

/-- Whether a method is dropped in favour of the property. -/
def PropertyPlan.absorbs (p : PropertyPlan) (m : MethodPlan) : Bool :=
  !p.isClassProperty && (p.isGetter m || p.isSetter m)

/-- No property of the type absorbs a method of it. -/
def TypePlan.Merged (t : TypePlan) : Prop :=
  ∀ p ∈ t.properties, ∀ m ∈ t.methods, p.absorbs m = false

namespace Plan

/-- No type has an accessor of one of its properties. -/
def Merged (p : Plan) : Prop := ∀ t ∈ p.types, t.Merged

/-- No extension is empty. -/
def Trimmed (p : Plan) : Prop := ∀ t ∈ p.types, t.addsNothing = false

end Plan

namespace Accessors

variable {owner : String}

/-- A property that took the place of methods absorbs what it did before. -/
theorem absorbs_absorbed (p : PropertyPlan) (description : String) (methods : List String) :
    (absorbed p description methods).absorbs = p.absorbs := rfl

/-- The accessors that a step finds are the methods that the property absorbs. -/
theorem found_isEmpty_iff {p : PropertyPlan} (hclass : p.isClassProperty = false)
    (methods : List MethodPlan) :
    ((methods.filter p.isGetter).map (·.describe owner) ++
      (methods.filter p.isSetter).map (·.describe owner)).isEmpty = true ↔
        ∀ m ∈ methods, p.absorbs m = false := by
  simp only [List.isEmpty_iff, List.append_eq_nil_iff, List.map_eq_nil_iff,
    List.filter_eq_nil_iff, PropertyPlan.absorbs, hclass, Bool.not_false, Bool.true_and,
    Bool.or_eq_false_iff, Bool.not_eq_true]
  exact ⟨fun h m hm => ⟨h.1 m hm, h.2 m hm⟩,
    fun h => ⟨fun m hm => (h m hm).1, fun m hm => (h m hm).2⟩⟩

/-- A step over a property that absorbs nothing keeps it as it is and does nothing else. -/
theorem step_of_forall {s : Progress} {p : PropertyPlan}
    (h : ∀ m ∈ s.methods, p.absorbs m = false) :
    step owner s p = { s with properties := s.properties ++ [p] } := by
  unfold step
  cases hclass : p.isClassProperty with
  | true => rfl
  | false =>
    rw [if_neg Bool.false_ne_true]
    exact if_pos ((found_isEmpty_iff hclass s.methods).mpr h)

/-- A step keeps the methods that the property does not absorb. -/
theorem step_methods (s : Progress) (p : PropertyPlan) :
    (step owner s p).methods = s.methods.filter fun m => !p.absorbs m := by
  by_cases hnone : ∀ m ∈ s.methods, p.absorbs m = false
  · rw [step_of_forall hnone]
    refine (List.filter_eq_self.mpr fun m hm => ?_).symm
    rw [hnone m hm]
    rfl
  · have hclass : p.isClassProperty = false := by
      refine Bool.eq_false_iff.mpr fun hclass => hnone fun m _ => ?_
      simp [PropertyPlan.absorbs, hclass]
    unfold step
    rw [hclass, if_neg Bool.false_ne_true]
    dsimp only
    rw [if_neg (mt (found_isEmpty_iff hclass s.methods).mp hnone)]
    refine List.filter_congr fun m _ => ?_
    simp [PropertyPlan.absorbs, hclass]

/-- A step goes on with a property that absorbs what the one at hand does. -/
theorem step_properties (owner : String) (s : Progress) (p : PropertyPlan) :
    ∃ q, (step owner s p).properties = s.properties ++ [q] ∧ q.absorbs = p.absorbs := by
  unfold step
  split
  · exact ⟨p, rfl, rfl⟩
  · dsimp only
    split
    · exact ⟨p, rfl, rfl⟩
    · exact ⟨_, rfl, absorbs_absorbed ..⟩

/-- Going through properties keeps the methods that none of them absorbs. -/
theorem foldl_methods (ps : List PropertyPlan) (s : Progress) :
    (ps.foldl (step owner) s).methods =
      s.methods.filter fun m => ps.all fun p => !p.absorbs m := by
  induction ps generalizing s with
  | nil => exact (List.filter_eq_self.mpr fun _ _ => rfl).symm
  | cons p ps ih =>
    rw [List.foldl_cons, ih, step_methods, List.filter_filter]
    refine List.filter_congr fun m _ => ?_
    rw [List.all_cons, Bool.and_comm]

/-- Every property that was gone through absorbs what one of the type does. -/
theorem exists_of_mem_foldl {ps : List PropertyPlan} {s : Progress} {q : PropertyPlan}
    (h : q ∈ (ps.foldl (step owner) s).properties) :
    q ∈ s.properties ∨ ∃ p ∈ ps, q.absorbs = p.absorbs := by
  induction ps generalizing s with
  | nil => exact .inl h
  | cons p ps ih =>
    obtain ⟨p', hp', habsorbs⟩ := step_properties owner s p
    rcases ih h with hq | ⟨p'', hmem, hq⟩
    · rw [hp'] at hq
      rcases List.mem_append.mp hq with hq | hq
      · exact .inl hq
      · exact .inr ⟨p, List.mem_cons_self, List.mem_singleton.mp hq ▸ habsorbs⟩
    · exact .inr ⟨p'', List.mem_cons_of_mem _ hmem, hq⟩

/-- Going through properties that absorb nothing keeps them all and does nothing else. -/
theorem foldl_of_forall {ps : List PropertyPlan} {s : Progress}
    (h : ∀ p ∈ ps, ∀ m ∈ s.methods, p.absorbs m = false) :
    ps.foldl (step owner) s = { s with properties := s.properties ++ ps } := by
  induction ps generalizing s with
  | nil => rw [List.foldl_nil, List.append_nil]
  | cons p ps ih =>
    rw [List.forall_mem_cons] at h
    have hrest := ih (s := { s with properties := s.properties ++ [p] }) h.2
    rw [List.foldl_cons, step_of_forall h.1, hrest, List.append_assoc, List.singleton_append]

end Accessors

namespace TypePlan

theorem merged_mergeAccessors (t : TypePlan) : t.mergeAccessors.Merged := by
  intro q hq m hm
  have hmethods : m ∈ t.methods.filter fun m => t.properties.all fun p => !p.absorbs m :=
    Accessors.foldl_methods t.properties ⟨[], t.methods, t.history, 0⟩ ▸ hm
  obtain ⟨-, hall⟩ := List.mem_filter.mp hmethods
  rcases Accessors.exists_of_mem_foldl hq with hq | ⟨p, hp, habsorbs⟩
  · cases hq
  · rw [habsorbs]
    simpa using List.all_eq_true.mp hall p hp

theorem Merged.run_eq {t : TypePlan} (h : t.Merged) :
    Accessors.run t = ⟨t.properties, t.methods, t.history, 0⟩ :=
  Accessors.foldl_of_forall h

theorem Merged.mergeAccessors_eq {t : TypePlan} (h : t.Merged) : t.mergeAccessors = t := by
  unfold mergeAccessors
  rw [h.run_eq]

theorem Merged.accessorCount_eq {t : TypePlan} (h : t.Merged) : t.accessorCount = 0 := by
  unfold accessorCount
  rw [h.run_eq]

end TypePlan

namespace Plan

variable {p : Plan}

theorem types_mergeAccessors (p : Plan) :
    p.mergeAccessors.types = p.types.map TypePlan.mergeAccessors := by
  unfold mergeAccessors types
  rw [List.flatMap_map, List.map_flatMap]

theorem types_dropEmptyExtensions (p : Plan) :
    p.dropEmptyExtensions.types = p.types.filter (!TypePlan.addsNothing ·) := by
  unfold dropEmptyExtensions types
  rw [List.flatMap_map, List.filter_flatMap]
  rfl

theorem merged_mergeAccessors (p : Plan) : p.mergeAccessors.Merged := by
  intro t ht
  rw [types_mergeAccessors] at ht
  obtain ⟨u, -, rfl⟩ := List.mem_map.mp ht
  exact u.merged_mergeAccessors

theorem trimmed_dropEmptyExtensions (p : Plan) : p.dropEmptyExtensions.Trimmed := by
  intro t ht
  rw [types_dropEmptyExtensions] at ht
  simpa using (List.mem_filter.mp ht).2

/-- Dropping types does not bring an accessor back. -/
theorem Merged.dropEmptyExtensions (h : p.Merged) : p.dropEmptyExtensions.Merged := by
  intro t ht
  rw [types_dropEmptyExtensions] at ht
  exact h t (List.mem_filter.mp ht).1

theorem mem_types {f : FilePlan} {t : TypePlan} (hf : f ∈ p.files) (ht : t ∈ f.types) :
    t ∈ p.types :=
  List.mem_flatMap.mpr ⟨f, hf, ht⟩

theorem Merged.mergeAccessors_eq (h : p.Merged) : p.mergeAccessors = p := by
  refine congrArg Plan.mk ((List.map_congr_left fun f hf => ?_).trans (List.map_id _))
  have htypes : f.types.map TypePlan.mergeAccessors = f.types :=
    (List.map_congr_left fun t ht => (h t (mem_types hf ht)).mergeAccessors_eq).trans
      (List.map_id _)
  rw [htypes]
  rfl

theorem Merged.accessorCount_eq (h : p.Merged) : p.accessorCount = 0 := by
  unfold accessorCount
  rw [List.sum_eq_zero_iff_forall_eq_nat, List.forall_mem_map]
  exact fun t ht => (h t ht).accessorCount_eq

theorem Trimmed.dropEmptyExtensions_eq (h : p.Trimmed) : p.dropEmptyExtensions = p := by
  refine congrArg Plan.mk ((List.map_congr_left fun f hf => ?_).trans (List.map_id _))
  have hkept : f.types.filter (!TypePlan.addsNothing ·) = f.types :=
    List.filter_eq_self.mpr fun t ht => by rw [h t (mem_types hf ht)]; rfl
  have hdropped : f.types.filter TypePlan.addsNothing = [] :=
    List.filter_eq_nil_iff.mpr fun t ht => by rw [h t (mem_types hf ht)]; exact Bool.false_ne_true
  unfold FilePlan.dropEmptyExtensions FilePlan.removeTypes History.append
  rw [hkept, hdropped, List.map_nil, List.append_nil]
  rfl

theorem Trimmed.emptyExtensionCount_eq (h : p.Trimmed) : p.emptyExtensionCount = 0 :=
  List.countP_eq_zero.mpr fun t ht => by rw [h t ht]; exact Bool.false_ne_true

end Plan

namespace Session

/-- The steps on types that the settings name have nothing left to do. -/
structure Simplified (settings : Settings) (p : Plan) : Prop where
  merged : settings.mergeAccessors = true → p.Merged
  trimmed : settings.dropEmptyExtensions = true → p.Trimmed

theorem simplified_simplify (settings : Settings) (p : Plan) :
    Simplified settings (simplify settings p).1 := by
  unfold simplify
  dsimp only
  constructor
  · intro hmerge
    rw [if_pos hmerge]
    split
    · exact p.merged_mergeAccessors.dropEmptyExtensions
    · exact p.merged_mergeAccessors
  · intro hdrop
    rw [if_pos hdrop]
    exact Plan.trimmed_dropEmptyExtensions _

/-- Plans with the same types are simplified alike. -/
theorem Simplified.of_types_eq {settings : Settings} {p q : Plan} (h : Simplified settings p)
    (htypes : q.types = p.types) : Simplified settings q :=
  ⟨fun hmerge t ht => h.merged hmerge t (htypes ▸ ht),
    fun hdrop t ht => h.trimmed hdrop t (htypes ▸ ht)⟩

theorem simplify_of_simplified {settings : Settings} {p : Plan} (h : Simplified settings p) :
    simplify settings p = (p, 0, 0) := by
  have hmerge : (if settings.mergeAccessors then p.mergeAccessors else p) = p := by
    split
    · next hset => exact (h.merged hset).mergeAccessors_eq
    · rfl
  have hmerged : (if settings.mergeAccessors then p.accessorCount else 0) = 0 := by
    split
    · next hset => exact (h.merged hset).accessorCount_eq
    · rfl
  have hdrop : (if settings.dropEmptyExtensions then p.dropEmptyExtensions else p) = p := by
    split
    · next hset => exact (h.trimmed hset).dropEmptyExtensions_eq
    · rfl
  have hremoved : (if settings.dropEmptyExtensions then p.emptyExtensionCount else 0) = 0 := by
    split
    · next hset => exact (h.trimmed hset).emptyExtensionCount_eq
    · rfl
  unfold simplify
  dsimp only
  rw [hmerge, hmerged, hdrop, hremoved]

end Session

end HeaderBridge
