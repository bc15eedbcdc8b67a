/-
  What is recorded in a map. A name stands for the value that was recorded last, and to take over a
  map is to record again, in their order, the values that were recorded in it (`merge_ofBindings`):
  a value that replaced an earlier one stands in its place, but what was recorded under other names
  in between does not tell the two places apart.
-/
import HeaderBridge.Pattern.Captures
import Mathlib.Data.List.DropRight
import Mathlib.Data.List.Nodup

namespace HeaderBridge

namespace Captures

/-- Records values, one after the other. -/
def recordAll (c : Captures) (bindings : List (String × Captured)) : Captures :=
  bindings.foldl (fun c (name, value) => c.insert name value) c

/-- The map in which just these values were recorded, one after the other. -/
def ofBindings (bindings : List (String × Captured)) : Captures := empty.recordAll bindings

def names (c : Captures) : List String := c.entries.map (·.1)

variable {c : Captures} {name other : String} {bindings : List (String × Captured)}

/-! ## Recording one value -/

theorem map_fst_put (name : String) (value : Captured) (entries : List (String × Captured)) :
    (put name value entries).map (·.1) =
      if name ∈ entries.map (·.1) then entries.map (·.1) else entries.map (·.1) ++ [name] := by
  induction entries with
  | nil => rfl
  | cons entry entries ih =>
    obtain ⟨first, old⟩ := entry
    by_cases hfirst : first = name
    · subst hfirst
      simp [put]
    · have hname : name ≠ first := Ne.symm hfirst
      simp only [put, hfirst, if_false, List.map_cons, ih, List.mem_cons, hname, false_or]
      split <;> rfl

theorem put_put (name : String) (value old : Captured) (entries : List (String × Captured)) :
    put name value (put name old entries) = put name value entries := by
  induction entries with
  | nil => simp [put]
  | cons entry entries ih =>
    obtain ⟨first, _⟩ := entry
    by_cases hfirst : first = name
    · simp [put, hfirst]
    · simp only [put, hfirst, if_false, ih]

/-- A value of a name that has its place is recorded before or after one of another name. -/
theorem put_comm (hne : name ≠ other) (value value' : Captured)
    {entries : List (String × Captured)} (h : name ∈ entries.map (·.1)) :
    put name value (put other value' entries) = put other value' (put name value entries) := by
  induction entries with
  | nil => cases h
  | cons entry entries ih =>
    obtain ⟨first, _⟩ := entry
    by_cases hfirst : first = name
    · subst hfirst
      simp only [put, hne, if_false, if_true]
    · have h : name ∈ entries.map (·.1) := by
        rw [List.map_cons, List.mem_cons] at h
        exact h.resolve_left (Ne.symm hfirst)
      by_cases hother : first = other
      · subst hother
        simp only [put, hfirst, if_false, if_true]
      · simp only [put, hfirst, hother, if_false, ih h]

theorem mem_names_insert (c : Captures) (name : String) (value : Captured) :
    other ∈ (c.insert name value).names ↔ other = name ∨ other ∈ c.names := by
  unfold names insert
  rw [map_fst_put]
  split
  next h => exact ⟨.inr, fun hother => hother.elim (fun he => he ▸ h) id⟩
  next => rw [List.mem_append, List.mem_singleton, or_comm]

theorem nodup_names_insert (h : c.names.Nodup) (name : String) (value : Captured) :
    (c.insert name value).names.Nodup := by
  unfold names insert
  rw [map_fst_put]
  split
  next => exact h
  next hname => exact h.append (List.nodup_singleton name) (List.disjoint_singleton.mpr hname)

theorem get?_insert (c : Captures) (name other : String) (value : Captured) :
    (c.insert name value).get? other = if name = other then some value else c.get? other := by
  obtain ⟨entries⟩ := c
  unfold get? insert
  simp only
  induction entries with
  | nil =>
    by_cases h : name = other
    · simp [put, h]
    · simp [put, h]
  | cons entry entries ih =>
    obtain ⟨first, old⟩ := entry
    by_cases hfirst : first = name
    · by_cases h : name = other
      · simp [put, hfirst, h]
      · simp [put, hfirst, h]
    · by_cases h : first = other
      · have hname : name ≠ other := fun he => hfirst (h.trans he.symm)
        simp [put, h, hname, Ne.symm hname]
      · simpa [put, hfirst, h] using ih

/-! ## Recording many values -/

theorem recordAll_cons (c : Captures) (name : String) (value : Captured)
    (bindings : List (String × Captured)) :
    c.recordAll ((name, value) :: bindings) = (c.insert name value).recordAll bindings := rfl

theorem recordAll_append (c : Captures) (front back : List (String × Captured)) :
    c.recordAll (front ++ back) = (c.recordAll front).recordAll back := List.foldl_append ..

theorem ofBindings_concat (bindings : List (String × Captured)) (name : String) (value : Captured) :
    ofBindings (bindings ++ [(name, value)]) = (ofBindings bindings).insert name value :=
  recordAll_append empty bindings [(name, value)]

theorem nodup_names_ofBindings (bindings : List (String × Captured)) :
    (ofBindings bindings).names.Nodup := by
  induction bindings using List.reverseRecOn with
  | nil => exact List.nodup_nil
  | append_singleton bindings binding ih =>
    rw [ofBindings_concat]
    exact nodup_names_insert ih ..

/-- A name stands for the value that was recorded under it last. -/
theorem get?_ofBindings (bindings : List (String × Captured)) (name : String) :
    (ofBindings bindings).get? name =
      (bindings.filter (·.1 == name)).getLast?.map (·.2) := by
  induction bindings using List.reverseRecOn with
  | nil => rfl
  | append_singleton bindings binding ih =>
    obtain ⟨last, value⟩ := binding
    rw [ofBindings_concat, get?_insert, List.filter_append]
    by_cases h : last = name
    · simp [h]
    · simp [h, ih]

/-- A value of a name that has its place, and that no later one is recorded under, may as well be
    recorded last. -/
theorem recordAll_insert (hname : name ∈ c.names) (value : Captured)
    (hlater : name ∉ bindings.map (·.1)) :
    (c.insert name value).recordAll bindings = (c.recordAll bindings).insert name value := by
  induction bindings generalizing c with
  | nil => rfl
  | cons binding bindings ih =>
    obtain ⟨other, value'⟩ := binding
    rw [List.map_cons, List.mem_cons, not_or] at hlater
    have hcomm : (c.insert name value).insert other value' =
        (c.insert other value').insert name value :=
      congrArg Captures.mk (put_comm hlater.1 value value' hname).symm
    rw [recordAll_cons, recordAll_cons, hcomm]
    exact ih ((mem_names_insert c other value').mpr (.inr hname)) hlater.2

/-- Recording the entries of a map with one more value is recording them and then this value. -/
theorem recordAll_put (c : Captures) (name : String) (value : Captured)
    {entries : List (String × Captured)} (h : (entries.map (·.1)).Nodup) :
    c.recordAll (put name value entries) = (c.recordAll entries).insert name value := by
  induction entries generalizing c with
  | nil => rfl
  | cons entry entries ih =>
    obtain ⟨first, old⟩ := entry
    rw [List.map_cons, List.nodup_cons] at h
    by_cases hfirst : first = name
    · subst hfirst
      have hplace : first ∈ (c.insert first old).names := (mem_names_insert ..).mpr (.inl rfl)
      calc c.recordAll (put first value ((first, old) :: entries))
          = (c.insert first value).recordAll entries := by rw [put, if_pos rfl, recordAll_cons]
        _ = ((c.insert first old).insert first value).recordAll entries := by
            rw [show (c.insert first old).insert first value = c.insert first value from
              congrArg Captures.mk (put_put first value old c.entries)]
        _ = ((c.insert first old).recordAll entries).insert first value :=
            recordAll_insert hplace value h.1
    · rw [put, if_neg hfirst]
      exact ih (c.insert first old) h.2

/-- To take over a map is to record again what was recorded in it. -/
theorem merge_ofBindings (c : Captures) (bindings : List (String × Captured)) :
    c.merge (ofBindings bindings) = c.recordAll bindings := by
  induction bindings using List.reverseRecOn with
  | nil => rfl
  | append_singleton bindings binding ih =>
    obtain ⟨name, value⟩ := binding
    rw [ofBindings_concat, recordAll_append, ← ih]
    exact recordAll_put c name value (nodup_names_ofBindings bindings)

end Captures

end HeaderBridge
