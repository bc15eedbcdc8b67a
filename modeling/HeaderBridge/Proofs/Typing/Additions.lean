/-
  What additions make of a registry, in any order and with any types. Names stay unique, a type that
  is refused changes nothing, and a registered type comes to stand above itself only where two
  unregistered types of one name are above it: the walk that looks for a loop tells types apart by
  name, so that the second of them ends it.
-/
import HeaderBridge.Proofs.Typing.Above

namespace HeaderBridge.Registry

open Relation

variable {r : Registry} {t u v : KnownType} {name : String}

/-! ## One more type -/

theorem contains_iff : r.contains name = true ↔ name ∈ r.names := by
  simp [contains, find?, names]

@[simp] theorem types_push : (r.push t).types = r.types ++ [t] := rfl

@[simp] theorem names_push : (r.push t).names = r.names ++ [t.name] := by simp [names]

theorem find?_push (r : Registry) (t : KnownType) (name : String) :
    (r.push t).find? name = (r.find? name).or (if t.name = name then some t else none) := by
  simp [find?, List.find?_append, List.find?_singleton]

theorem find?_push_self (h : r.contains t.name = false) : (r.push t).find? t.name = some t := by
  rw [find?_push, contains_eq_false.mp h, if_pos rfl, Option.none_or]

/-- A name means what it meant before, or the new type. -/
theorem find?_push_cases (r : Registry) (t : KnownType) (name : String) :
    (r.push t).find? name = r.find? name ∨ (r.push t).find? name = some t := by
  rw [find?_push]
  cases r.find? name with
  | some => exact .inl rfl
  | none =>
    rw [Option.none_or]
    split
    · exact .inr rfl
    · exact .inl rfl

/-- The new type alone can take the place of a parent. -/
theorem parent?_push (r : Registry) (t u : KnownType) :
    (r.push t).parent? .registered u = r.parent? .registered u ∨
      (r.push t).parent? .registered u = some t := by
  unfold parent?
  split
  · exact .inl rfl
  · exact find?_push_cases r t _
  · rename_i s _
    dsimp only
    rcases find?_push_cases r t s.name with h | h
    · rw [h]
      exact .inl rfl
    · rw [h]
      exact .inr rfl

theorem isParent_push (h : ¬ (r.push t).IsParent u t) : (r.push t).IsParent u v ↔ r.IsParent u v := by
  unfold IsParent
  rw [(parent?_push r t u).resolve_right h]

/-- Where the new type is not above a type, the same types are above it as before. -/
theorem isAbove_push (h : ¬ (r.push t).IsAbove u t) : (r.push t).IsAbove u v ↔ r.IsAbove u v := by
  constructor
  · intro hv
    induction hv with
    | single hv => exact .single ((isParent_push fun hu => h (.single hu)).mp hv)
    | tail hw hv ih => exact .tail ih ((isParent_push fun hu => h (.tail hw hu)).mp hv)
  · intro hv
    induction hv with
    | single hv => exact .single ((isParent_push fun hu => h (.single hu)).mpr hv)
    | tail _ hv ih => exact .tail ih ((isParent_push fun hu => h (.tail ih hu)).mpr hv)

theorem Twins.below (h : r.IsAbove u t) (ht : r.Twins t) : r.Twins u := by
  obtain ⟨v, w, hv, hw, h'⟩ := ht
  exact ⟨v, w, h.trans hv, h.trans hw, h'⟩

/-- Twins stay twins where the new type is not above. -/
theorem Twins.push (h : ¬ (r.push t).IsAbove u t) (hu : r.Twins u) : (r.push t).Twins u := by
  obtain ⟨v, w, hv, hw, hne, hname, hc⟩ := hu
  have hv' := (isAbove_push h).mpr hv
  refine ⟨v, w, hv', (isAbove_push h).mpr hw, hne, hname, contains_eq_false.mpr ?_⟩
  refine hv'.found.resolve_left fun hfound => h ?_
  rw [find?_push, contains_eq_false.mp hc, Option.none_or, Option.ite_none_right_eq_some] at hfound
  cases hfound.2
  exact hv'

/-! ## The search for a loop -/

/-- A loop that is reported is there. -/
theorem isAbove_of_cycle? {line : List String} (hc : r.contains t.name = false)
    (h : r.cycle? t = some line) : (r.push t).IsAbove t t := by
  unfold cycle? at h
  obtain ⟨hmem, -⟩ := Option.ite_none_right_eq_some.mp h
  obtain ⟨s, hs, hname⟩ := List.mem_map.mp (List.contains_iff_mem.mp hmem)
  have habove := isAbove_of_mem_above hs
  rcases habove.found with hfound | hfound
  · rw [hname, find?_push_self hc] at hfound
    cases hfound
    exact habove
  · rw [hname, find?_push_self hc] at hfound
    cases hfound

/-- A loop that is not reported has twins. -/
theorem twins_of_cycle?_eq_none (h : r.cycle? t = none) (ht : (r.push t).IsAbove t t) :
    (r.push t).Twins t := by
  apply Classical.byContradiction
  intro htwins
  have hmem : t.name ∈ ((r.push t).above .registered [] t).map (·.name) :=
    List.mem_map_of_mem (mem_above_of_isAbove htwins ht)
  unfold cycle? at h
  rw [if_pos (List.contains_iff_mem.mpr hmem)] at h
  cases h

/-- Every loop of a registered type has twins. -/
def LoopsHaveTwins (r : Registry) : Prop := ∀ t ∈ r.types, r.IsAbove t t → r.Twins t

/-- A loop of the larger registry runs through the new type, or it was there before. -/
theorem LoopsHaveTwins.push (hr : r.LoopsHaveTwins) (hc : r.cycle? t = none) :
    (r.push t).LoopsHaveTwins := by
  intro u hu hloop
  by_cases ht : (r.push t).IsAbove u t
  · have hback := hloop.back ht
    exact (twins_of_cycle?_eq_none hc (hback.trans ht)).below ht
  · rcases List.mem_append.mp hu with hu | hu
    · exact (hr u hu ((isAbove_push ht).mp hloop)).push ht
    · cases List.mem_singleton.mp hu
      exact absurd hloop ht

/-! ## All additions -/

/-- The registry after a type was offered. -/
def offer (r : Registry) (t : KnownType) : Registry :=
  match r.add t with
  | .ok r' => r'
  | .error _ => r

/-- The registry after types were offered to an empty one, each in its turn. -/
def offerAll (ts : List KnownType) : Registry := ts.foldl offer empty

/-- A type is refused for its name or for a loop, and it is added otherwise. -/
theorem add_cases (r : Registry) (t : KnownType) :
    (∃ refusal, r.add t = .error refusal ∧
      (r.contains t.name = true ∨ (r.push t).IsAbove t t)) ∨
    (r.add t = .ok (r.push t) ∧ r.contains t.name = false ∧ r.cycle? t = none) := by
  unfold add
  cases hc : r.contains t.name with
  | true => exact .inl ⟨_, if_pos rfl, .inl rfl⟩
  | false =>
    rw [if_neg Bool.false_ne_true]
    cases hcycle : r.cycle? t with
    | some line => exact .inl ⟨_, rfl, .inr (isAbove_of_cycle? hc hcycle)⟩
    | none => exact .inr ⟨rfl, rfl, rfl⟩

/-- What holds of the empty registry and of every addition holds of what offers lead to. -/
theorem offerAll_induction {P : Registry → Prop} (hempty : P empty)
    (hpush : ∀ r t, P r → r.contains t.name = false → r.cycle? t = none → P (r.push t))
    (ts : List KnownType) : P (offerAll ts) := by
  have hfold : ∀ (ts : List KnownType) (r : Registry), P r → P (ts.foldl offer r) := by
    intro ts
    induction ts with
    | nil => exact fun _ hr => hr
    | cons t ts ih =>
      intro r hr
      apply ih
      unfold offer
      rcases add_cases r t with ⟨_, h, _⟩ | ⟨h, hc, hcycle⟩
      · rw [h]
        exact hr
      · rw [h]
        exact hpush r t hr hc hcycle
  exact hfold ts empty hempty

theorem nodup_names_offerAll (ts : List KnownType) : (offerAll ts).names.Nodup := by
  refine offerAll_induction (P := fun r => r.names.Nodup) List.nodup_nil ?_ ts
  intro r t hr hc _
  rw [names_push, List.nodup_append]
  refine ⟨hr, by simp, ?_⟩
  rintro name hname _ ht rfl
  rw [← List.mem_singleton.mp ht, contains_iff.mpr hname] at hc
  cases hc

theorem loopsHaveTwins_offerAll (ts : List KnownType) : (offerAll ts).LoopsHaveTwins := by
  apply offerAll_induction
  · intro t ht
    cases ht
  · exact fun _ _ hr _ hcycle => hr.push hcycle

/-- Whatever types are offered to an empty registry, its names are unique. The next type is refused,
    for its name or for the loop that it would close, and then the registry stays as it is, or it is
    added behind the others. A registered type that is above itself has twins above it. -/
theorem offerAll_sound (ts : List KnownType) :
    (offerAll ts).names.Nodup ∧
    (∀ t, (∃ refusal, (offerAll ts).add t = .error refusal ∧ (offerAll ts).offer t = offerAll ts ∧
        ((offerAll ts).contains t.name = true ∨ ((offerAll ts).push t).IsAbove t t)) ∨
      ((offerAll ts).add t = .ok ((offerAll ts).push t) ∧
        (offerAll ts).offer t = (offerAll ts).push t ∧ (offerAll ts).contains t.name = false)) ∧
    ∀ t ∈ (offerAll ts).types, (offerAll ts).IsAbove t t → (offerAll ts).Twins t := by
  refine ⟨nodup_names_offerAll ts, fun t => ?_, loopsHaveTwins_offerAll ts⟩
  unfold offer
  rcases add_cases (offerAll ts) t with ⟨refusal, h, hwhy⟩ | ⟨h, hc, _⟩
  · exact .inl ⟨refusal, h, by rw [h], hwhy⟩
  · exact .inr ⟨h, by rw [h], hc⟩

/-- A type that is given whole and goes by the name `B`. -/
def wholeB (above : String) : KnownType where
  name := "B"
  supertype := some (.named above)

def belowB (name above : String) : KnownType where
  name
  supertype := some (.known (wholeB above))

/-- `X` and `Y` are both added, each below the other with a `B` of its own between them: the walk
    from `Y` ends at the second `B`. -/
theorem exists_registered_loop :
    ∃ ts, ∃ t ∈ (offerAll ts).types, (offerAll ts).IsAbove t t := by
  let x := belowB "X" "Y"
  let y := belowB "Y" "X"
  have hadded : offerAll [x, y] = ⟨[x, y]⟩ := by cbv
  have hx : IsParent ⟨[x, y]⟩ x (wholeB "Y") := rfl
  have hy : IsParent ⟨[x, y]⟩ (wholeB "Y") y := rfl
  have hy' : IsParent ⟨[x, y]⟩ y (wholeB "X") := rfl
  have hx' : IsParent ⟨[x, y]⟩ (wholeB "X") x := rfl
  refine ⟨[x, y], x, ?_, ?_⟩
  · rw [hadded]
    exact List.mem_cons_self
  · rw [hadded]
    exact .head hx (.head hy (.head hy' (.single hx')))

end HeaderBridge.Registry
