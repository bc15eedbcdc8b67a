/-
  What stands above a type, as a relation that no list of passed names cuts short, and the walk that
  looks for it. The walk finds nothing else. It finds all of it where the types above are told apart
  by their names: a name met twice then means a type met twice, and behind that nothing new comes.
-/
import Mathlib.Logic.Relation
import HeaderBridge.Typing.Registry

namespace HeaderBridge.Registry

open Relation

variable {r : Registry} {t s u : KnownType} {passed : List String}

/-! ## The relation -/

/-- One type is directly above another. A name that is registered means the registered type. -/
def IsParent (r : Registry) (t s : KnownType) : Prop := r.parent? .registered t = some s

/-- One type is above another, by any number of steps. -/
def IsAbove (r : Registry) : KnownType → KnownType → Prop := TransGen r.IsParent

/-- Two unregistered types above a type share a name. -/
def Twins (r : Registry) (t : KnownType) : Prop :=
  ∃ u v, r.IsAbove t u ∧ r.IsAbove t v ∧ u ≠ v ∧ u.name = v.name ∧ r.contains u.name = false

theorem contains_eq_false {name : String} : r.contains name = false ↔ r.find? name = none := by
  unfold contains
  rw [Option.isSome_eq_false_iff, Option.isNone_iff_eq_none]

theorem name_of_find? {name : String} (h : r.find? name = some t) : t.name = name := by
  simpa using List.find?_some h

theorem find?_name {name : String} (h : r.find? name = some t) : r.find? t.name = some t := by
  rw [name_of_find? h, h]

/-- A parent is registered under its name, or its name is not registered. -/
theorem IsParent.found (h : r.IsParent t s) : r.find? s.name = some s ∨ r.find? s.name = none := by
  unfold IsParent parent? at h
  split at h
  · cases h
  · exact .inl (find?_name h)
  · rename_i u _
    cases hf : r.find? u.name with
    | none =>
      rw [hf] at h
      cases h
      exact .inr hf
    | some v =>
      rw [hf] at h
      cases h
      exact .inl (find?_name hf)

theorem IsAbove.found (h : r.IsAbove t s) : r.find? s.name = some s ∨ r.find? s.name = none := by
  obtain ⟨_, _, hs⟩ := TransGen.tail'_iff.mp h
  exact hs.found

theorem IsParent.unique (hs : r.IsParent t s) (hu : r.IsParent t u) : s = u := by
  unfold IsParent at hs hu
  exact Option.some.inj (hs ▸ hu)

/-- What is above a type is its parent or above its parent. -/
theorem IsAbove.of_parent (hs : r.IsParent t s) (hu : r.IsAbove t u) : u = s ∨ r.IsAbove s u := by
  obtain ⟨v, hv, hvu⟩ := TransGen.head'_iff.mp hu
  cases hs.unique hv
  rcases reflTransGen_iff_eq_or_transGen.mp hvu with rfl | h
  · exact .inl rfl
  · exact .inr h

/-- The types above a type that is above itself are all on its loop. -/
theorem IsAbove.back (ht : r.IsAbove t t) (hs : r.IsAbove t s) : r.IsAbove s t := by
  induction hs with
  | single hs =>
    rcases ht.of_parent hs with rfl | h
    · exact ht
    · exact h
  | tail _ hs ih =>
    rcases ih.of_parent hs with rfl | h
    · exact ht
    · exact h

/-- Without twins the types above a type are told apart by their names. -/
theorem eq_of_name_eq (h : ¬ r.Twins t) (hs : r.IsAbove t s) (hu : r.IsAbove t u)
    (hname : s.name = u.name) : s = u := by
  apply Classical.byContradiction
  intro hne
  rcases hs.found with hfs | hfs
  · rcases hu.found with hfu | hfu
    · rw [hname, hfu] at hfs
      exact hne (Option.some.inj hfs).symm
    · rw [hname, hfu] at hfs
      cases hfs
  · exact h ⟨s, u, hs, hu, hne, hname, contains_eq_false.mpr hfs⟩

/-! ## The walk -/

/-- The walk ends where nothing is above, or a name that was passed. -/
theorem above_eq_nil {reading : Reading} (h : ∀ s, r.parent? reading t = some s → s.name ∈ passed) :
    r.above reading passed t = [] := by
  rw [above]
  split
  · rfl
  · next s hs => rw [dif_pos (List.contains_iff_mem.mpr (h s hs))]

/-- The walk goes on at the type above, if its name was not passed. -/
theorem above_eq_cons {reading : Reading} (hs : r.parent? reading t = some s)
    (hp : s.name ∉ passed) :
    r.above reading passed t = s :: r.above reading (s.name :: passed) s := by
  rw [above]
  split
  · next hnone => rw [hs] at hnone; cases hnone
  · next u hu =>
    cases hs.symm.trans hu
    rw [dif_neg (mt List.contains_iff_mem.mp hp)]

/-- No name is passed twice. -/
theorem not_mem_passed {reading : Reading} (h : u ∈ r.above reading passed t) :
    u.name ∉ passed := by
  fun_induction above r reading passed t with
  | case1 => cases h
  | case2 => cases h
  | case3 passed t s _ hp ih =>
    rcases List.mem_cons.mp h with rfl | hu
    · simpa using hp
    · exact fun hmem => ih hu (List.mem_cons_of_mem _ hmem)

theorem isAbove_of_mem_above (h : s ∈ r.above .registered passed t) : r.IsAbove t s := by
  fun_induction above r .registered passed t with
  | case1 => cases h
  | case2 => cases h
  | case3 passed t u hu _ ih =>
    rcases List.mem_cons.mp h with rfl | hs
    · exact .single hu
    · exact .head hu (ih hs)

/-- The walk does not stop in front of a parent that it has not met. `seen` is the types whose
    names were passed. -/
theorem parent_mem_above {P : KnownType → Prop} (closed : ∀ u v, P u → r.IsParent u v → P v)
    (apart : ∀ u v, P u → P v → u.name = v.name → u = v) {seen : List KnownType}
    (hseen : ∀ u ∈ seen, P u) (hpassed : passed = seen.map (·.name))
    (ht : ∀ s, r.IsParent t s → P s) (hu : u = t ∨ u ∈ r.above .registered passed t)
    (hs : r.IsParent u s) : s ∈ seen ∨ s ∈ r.above .registered passed t := by
  fun_induction above r .registered passed t generalizing seen with
  | case1 passed t hnone =>
    rcases hu with rfl | hu
    · rw [IsParent, hnone] at hs
      cases hs
    · cases hu
  | case2 passed t v hv hp =>
    rcases hu with rfl | hu
    · cases hs.unique hv
      obtain ⟨w, hw, hname⟩ := List.mem_map.mp (hpassed ▸ List.contains_iff_mem.mp hp)
      exact .inl (apart w s (hseen w hw) (ht s hs) hname ▸ hw)
    · cases hu
  | case3 passed t v hv _ ih =>
    have hPv : P v := ht v hv
    have hseen' : ∀ u ∈ v :: seen, P u := by
      intro u hu
      rcases List.mem_cons.mp hu with rfl | hu
      · exact hPv
      · exact hseen u hu
    rcases hu with rfl | hu
    · exact .inr (List.mem_cons.mpr (.inl (hs.unique hv)))
    · rcases ih hseen' (by rw [hpassed, List.map_cons]) (closed v · hPv) (List.mem_cons.mp hu) with h | h
      · rcases List.mem_cons.mp h with rfl | h
        · exact .inr List.mem_cons_self
        · exact .inl h
      · exact .inr (List.mem_cons_of_mem v h)

/-- Without twins the walk that has passed no name finds every type above. -/
theorem mem_above_of_isAbove (h : ¬ r.Twins t) (hs : r.IsAbove t s) :
    s ∈ r.above .registered [] t := by
  have hnil : ∀ u ∈ ([] : List KnownType), r.IsAbove t u := fun _ hu => nomatch hu
  have step {u s : KnownType} (hu : u = t ∨ u ∈ r.above .registered [] t) (hs : r.IsParent u s) :
      s ∈ r.above .registered [] t := by
    have hnext := parent_mem_above (P := r.IsAbove t) (fun _ _ => TransGen.tail)
      (fun _ _ => eq_of_name_eq h) hnil rfl (fun _ => TransGen.single) hu hs
    exact hnext.resolve_left fun hs => nomatch hs
  induction hs with
  | single hs => exact step (.inl rfl) hs
  | tail _ hs ih => exact step (.inr ih) hs

end HeaderBridge.Registry
