/-
  The two steps on types do not get into each other's way. Merging accessors leaves a type as many
  properties as it had, and a type without properties as it was, so behind it the same extensions
  add nothing as in front of it (`addsNothing_mergeAccessors`). An extension that adds nothing has no
  accessors, so dropping it loses none. Hence both orders come to one plan, histories included, and
  count the same (`Plan.steps_in_either_order`).
-/
import HeaderBridge.Proofs.Accessors.Exact

namespace HeaderBridge

namespace TypePlan

variable {t : TypePlan}

/-- Without properties nothing is merged. -/
theorem merged_of_properties (h : t.properties = []) : t.Merged := fun p hp => by
  rw [h] at hp
  cases hp

theorem isEmpty_properties_mergeAccessors (t : TypePlan) :
    t.mergeAccessors.properties.isEmpty = t.properties.isEmpty := by
  have hproperties : t.mergeAccessors.properties = t.properties.mapIdx fun i p =>
      Accessors.settled t.name p (Accessors.share t.properties t.methods i p) :=
    congrArg Accessors.Progress.properties t.run_eq_settled
  rw [hproperties, Bool.eq_iff_iff, List.isEmpty_iff, List.isEmpty_iff, List.mapIdx_eq_nil_iff]

/-- Merging neither empties an extension nor fills it. -/
theorem addsNothing_mergeAccessors (t : TypePlan) :
    t.mergeAccessors.addsNothing = t.addsNothing := by
  by_cases hnone : t.properties = []
  · rw [(merged_of_properties hnone).mergeAccessors_eq]
  · -- A property is left, so neither type is empty.
    have hsome : t.properties.isEmpty = false := List.isEmpty_eq_false_iff.mpr hnone
    have hleft := t.isEmpty_properties_mergeAccessors.trans hsome
    unfold addsNothing isEmpty
    rw [hleft, hsome]
    simp only [Bool.false_and, Bool.and_false]

theorem accessorCount_of_addsNothing (h : t.addsNothing = true) : t.accessorCount = 0 := by
  simp only [addsNothing, isEmpty, Bool.and_eq_true, List.isEmpty_iff] at h
  exact (merged_of_properties h.2.1.1.1).accessorCount_eq

end TypePlan

/-- A test that merging does not change may be made in front of it. -/
theorem filter_map_mergeAccessors {test : TypePlan → Bool}
    (h : ∀ t, test t.mergeAccessors = test t) (ts : List TypePlan) :
    (ts.map TypePlan.mergeAccessors).filter test =
      (ts.filter test).map TypePlan.mergeAccessors := by
  rw [List.filter_map]
  exact congrArg (List.map TypePlan.mergeAccessors) (List.filter_congr fun t _ => h t)

namespace FilePlan

/-- The file with the accessors of all its types merged. -/
def mergeAccessors (f : FilePlan) : FilePlan :=
  { f with types := f.types.map TypePlan.mergeAccessors }

/-- A file goes through the two steps in either order. -/
theorem dropEmptyExtensions_mergeAccessors (f : FilePlan) :
    f.mergeAccessors.dropEmptyExtensions = f.dropEmptyExtensions.mergeAccessors := by
  have hkept : (f.types.map TypePlan.mergeAccessors).filter (!TypePlan.addsNothing ·) =
      (f.types.filter (!TypePlan.addsNothing ·)).map TypePlan.mergeAccessors :=
    filter_map_mergeAccessors (fun t => congrArg (!·) t.addsNothing_mergeAccessors) f.types
  have hdropped : ((f.types.map TypePlan.mergeAccessors).filter TypePlan.addsNothing).map
      EmptyExtensions.removal =
        (f.types.filter TypePlan.addsNothing).map EmptyExtensions.removal := by
    -- What is recorded of a dropped extension is its name, which merging keeps.
    rw [filter_map_mergeAccessors TypePlan.addsNothing_mergeAccessors, List.map_map]
    rfl
  show ({ f with
      types := (f.types.map TypePlan.mergeAccessors).filter (!TypePlan.addsNothing ·)
      history := f.history.append ⟨((f.types.map TypePlan.mergeAccessors).filter
        TypePlan.addsNothing).map EmptyExtensions.removal⟩ } : FilePlan) = _
  rw [hkept, hdropped]
  rfl

end FilePlan

namespace Plan

/-- What is dropped has no accessors. -/
theorem accessorCount_dropEmptyExtensions (p : Plan) :
    p.dropEmptyExtensions.accessorCount = p.accessorCount := by
  unfold accessorCount
  rw [types_dropEmptyExtensions]
  induction p.types with
  | nil => rfl
  | cons t ts ih =>
    rw [List.map_cons, List.sum_cons, ← ih]
    cases h : t.addsNothing with
    | true =>
      rw [List.filter_cons_of_neg (by simp [h]), TypePlan.accessorCount_of_addsNothing h,
        Nat.zero_add]
    | false => rw [List.filter_cons_of_pos (by simp [h]), List.map_cons, List.sum_cons]

/-- What is merged is an empty extension if it was one. -/
theorem emptyExtensionCount_mergeAccessors (p : Plan) :
    p.mergeAccessors.emptyExtensionCount = p.emptyExtensionCount := by
  unfold emptyExtensionCount
  rw [types_mergeAccessors, List.countP_map]
  exact List.countP_congr fun t _ => by
    rw [Function.comp_apply, t.addsNothing_mergeAccessors]

/-- Whatever the plan: merging the accessors and then dropping the empty extensions comes to the same
    plan as the two steps in the other order, with every file, type and member and every entry of
    every history, and each step counts the same in both orders. -/
theorem steps_in_either_order (p : Plan) :
    p.mergeAccessors.dropEmptyExtensions = p.dropEmptyExtensions.mergeAccessors ∧
      p.dropEmptyExtensions.accessorCount = p.accessorCount ∧
      p.mergeAccessors.emptyExtensionCount = p.emptyExtensionCount := by
  refine ⟨congrArg Plan.mk ?_, p.accessorCount_dropEmptyExtensions,
    p.emptyExtensionCount_mergeAccessors⟩
  show (p.files.map FilePlan.mergeAccessors).map FilePlan.dropEmptyExtensions =
    (p.files.map FilePlan.dropEmptyExtensions).map FilePlan.mergeAccessors
  rw [List.map_map, List.map_map]
  exact List.map_congr_left fun f _ => f.dropEmptyExtensions_mergeAccessors

end Plan

end HeaderBridge
