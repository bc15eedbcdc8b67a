/-
  The types that a name may stand for, and the line of supertypes above each. A line is followed
  until it ends or comes to a name that it has passed, so it is finite whatever the types say.
-/
import HeaderBridge.Typing.KnownType

namespace HeaderBridge

/-- Known types in the order in which they were added. The first one with a name has it. -/
structure Registry where
  types : List KnownType := []

/-- Why a type was not added. -/
inductive Registry.Refusal where
  | duplicate (name : String)
  /-- The type would stand above itself. The line runs from the type up to itself. -/
  | cycle (name : String) (line : List String)
  deriving DecidableEq

def Registry.Refusal.message : Registry.Refusal → String
  | .duplicate name => s!"type `{name}` is already registered"
  | .cycle name line =>
    s!"supertype chain of `{name}` forms a cycle: " ++ " -> ".intercalate line

namespace Registry

def empty : Registry := {}

def find? (r : Registry) (name : String) : Option KnownType := r.types.find? (·.name == name)

def contains (r : Registry) (name : String) : Bool := (r.find? name).isSome

def names (r : Registry) : List String := r.types.map (·.name)

/-! ## The line above a type -/

/-- Which type a supertype means when it is given whole. -/
inductive Reading where
  /-- The type as it is given. -/
  | given
  /-- The registered type of that name, where there is one. -/
  | registered
  deriving DecidableEq

/-- The type directly above. -/
def parent? (r : Registry) (reading : Reading) (t : KnownType) : Option KnownType :=
  match t.supertype with
  | none => none
  | some (.named name) => r.find? name
  | some (.known s) =>
    match reading with
    | .given => some s
    | .registered => some ((r.find? s.name).getD s)

/-- How many registered types have a name that was not passed. -/
def ahead (r : Registry) (passed : List String) : Nat :=
  r.types.countP fun t => !passed.contains t.name

theorem mem_of_find?_eq_some {r : Registry} {name : String} {t : KnownType}
    (h : r.find? name = some t) : t ∈ r.types := List.mem_of_find?_eq_some h

/-- A supertype that is given whole lies inside the type. -/
theorem sizeOf_known_lt {t s : KnownType} (h : t.supertype = some (.known s)) :
    sizeOf s < sizeOf t := by
  cases t with
  | mk name supertype protocols properties initializers methods =>
    cases h
    simp
    omega

/-- A parent is registered or lies inside the type. -/
theorem mem_or_sizeOf_lt_of_parent? {r : Registry} {reading : Reading} {t s : KnownType}
    (h : r.parent? reading t = some s) : s ∈ r.types ∨ sizeOf s < sizeOf t := by
  unfold parent? at h
  cases hu : t.supertype with
  | none => simp [hu] at h
  | some u =>
    cases u with
    | named name =>
      rw [hu] at h
      exact .inl (mem_of_find?_eq_some h)
    | known u =>
      rw [hu] at h
      cases reading with
      | given =>
        cases h
        exact .inr (sizeOf_known_lt hu)
      | registered =>
        cases hf : r.find? u.name with
        | none =>
          simp only [hf, Option.getD_none, Option.some.injEq] at h
          exact .inr (h ▸ sizeOf_known_lt hu)
        | some v =>
          simp only [hf, Option.getD_some, Option.some.injEq] at h
          exact .inl (h ▸ mem_of_find?_eq_some hf)

theorem ahead_le (r : Registry) (name : String) (passed : List String) :
    r.ahead (name :: passed) ≤ r.ahead passed := by
  apply List.countP_mono_left
  intro t _
  simp only [List.contains_cons, Bool.not_or, Bool.and_eq_true]
  exact And.right

theorem ahead_lt {r : Registry} {t : KnownType} {passed : List String} (ht : t ∈ r.types)
    (hp : passed.contains t.name = false) : r.ahead (t.name :: passed) < r.ahead passed := by
  unfold ahead
  obtain ⟨front, back, h⟩ := List.append_of_mem ht
  have hle (ts : List KnownType) : ts.countP (fun u => !(t.name :: passed).contains u.name)
      ≤ ts.countP (fun u => !passed.contains u.name) := by
    apply List.countP_mono_left
    intro u _
    simp only [List.contains_cons, Bool.not_or, Bool.and_eq_true]
    exact And.right
  have hf := hle front
  have hb := hle back
  have h1 : (t.name :: passed).contains t.name = true := by simp
  rw [h, List.countP_append, List.countP_append, List.countP_cons, List.countP_cons, hp, h1]
  simp only [Bool.not_false, Bool.not_true, if_true, Bool.false_eq_true, if_false]
  omega

/-- The types above a type, nearest first, up to a name that was passed. -/
def above (r : Registry) (reading : Reading) (passed : List String) (t : KnownType) :
    List KnownType :=
  match _h : r.parent? reading t with
  | none => []
  | some s =>
    if _hp : passed.contains s.name then []
    else s :: above r reading (s.name :: passed) s
termination_by (r.ahead passed, sizeOf t)
decreasing_by
  rcases mem_or_sizeOf_lt_of_parent? _h with hs | hs
  · exact .left _ _ (ahead_lt hs (by simpa using _hp))
  · rcases Nat.lt_or_eq_of_le (ahead_le r s.name passed) with hlt | heq
    · exact .left _ _ hlt
    · rw [heq]
      exact .right _ hs

/-- The type with all types above it. -/
def line (r : Registry) (reading : Reading) (t : KnownType) : List KnownType :=
  t :: r.above reading [t.name] t

/-- Whether a name is registered and stands at or below another registered name. -/
def isSubtype (r : Registry) (name of : String) : Bool :=
  match r.find? name, r.find? of with
  | some t, some target => (r.line .registered t).any (·.name == target.name)
  | _, _ => false

/-- Looks for a member in the type of a name, then in the types above it. -/
def member? {α : Type} (r : Registry) (name : String) (look : KnownType → Option α) : Option α :=
  match r.find? name with
  | some t => (r.line .given t).findSome? look
  | none => none

/-! ## Addition -/

/-- The registry with one more type, unchecked. -/
def push (r : Registry) (t : KnownType) : Registry := ⟨r.types ++ [t]⟩

/-- The names from a type up to itself, if it comes to stand above itself. -/
def cycle? (r : Registry) (t : KnownType) : Option (List String) :=
  let names := ((r.push t).above .registered [] t).map (·.name)
  if names.contains t.name then some (t.name :: names) else none

/-- Adds a type whose name is new and which does not come to stand above itself. -/
def add (r : Registry) (t : KnownType) : Except Refusal Registry :=
  if r.contains t.name then .error (.duplicate t.name)
  else
    match r.cycle? t with
    | some line => .error (.cycle t.name line)
    | none => .ok (r.push t)

end Registry

end HeaderBridge
