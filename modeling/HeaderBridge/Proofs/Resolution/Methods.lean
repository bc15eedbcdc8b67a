/-
  The method that gives a call its type. Going up from the type of the receiver, the nearest type that
  has any method of the name and of the right number of parameters decides, and in it the first such
  method (`Expr.type?_methodCall`). Labels are not compared, nor is it asked whether the method is
  called on values. So the call is typed by its selector if that first method has the labels of the
  call and is no static one, and else it may get the result of another method
  (`Expr.exists_call_typed_by_other_labels`).
-/
import HeaderBridge.Proofs.Typing.Above
import HeaderBridge.Typing.Resolution
import Mathlib

namespace HeaderBridge

/-! ## The way up -/

namespace Registry

variable {r : Registry} {t s u : KnownType} {passed : List String} {way : List KnownType}

/-- The way from a type up to another one, with the types that it passes. A supertype that is given
    whole is taken as it is given. -/
inductive Climbs (r : Registry) : KnownType → List KnownType → KnownType → Prop where
  | here (t : KnownType) : Climbs r t [] t
  | up {t s u : KnownType} {way : List KnownType} (parent : r.parent? .given t = some s)
      (further : Climbs r s way u) : Climbs r t (t :: way) u

theorem climbs_nil_iff : r.Climbs t [] u ↔ t = u := by
  constructor
  · rintro ⟨⟩
    rfl
  · rintro rfl
    exact .here t

theorem climbs_cons_iff : r.Climbs t (u :: way) s ↔
    t = u ∧ ∃ v, r.parent? .given t = some v ∧ r.Climbs v way s := by
  constructor
  · intro h
    cases h with
    | up parent further => exact ⟨rfl, _, parent, further⟩
  · rintro ⟨rfl, v, parent, further⟩
    exact .up parent further

/-- A way starts at the type from which it leads up. -/
theorem Climbs.exists_cons (h : r.Climbs t way u) : ∃ rest, way ++ [u] = t :: rest := by
  cases h with
  | here => exact ⟨[], rfl⟩
  | up => exact ⟨_, rfl⟩

/-- The walk goes every way on which it meets no name again. -/
theorem above_eq_append_iff : (∃ after, t :: r.above .given passed t = way ++ u :: after) ↔
    r.Climbs t way u ∧ ((way ++ [u]).tail.map (·.name)).Nodup ∧
      ∀ k ∈ (way ++ [u]).tail, k.name ∉ passed := by
  fun_induction above r .given passed t generalizing way with
  | case1 passed t hnone =>
    cases way with
    | nil => simp [climbs_nil_iff]
    | cons k way => simp [climbs_cons_iff, hnone]
  | case2 passed t s hs hp =>
    cases way with
    | nil => simp [climbs_nil_iff]
    | cons k way =>
      suffices h : r.Climbs s way u → ∃ k ∈ way ++ [u], k.name ∈ passed by
        simp only [climbs_cons_iff, hs]
        grind
      intro h
      obtain ⟨rest, hrest⟩ := h.exists_cons
      exact ⟨s, hrest ▸ List.mem_cons_self, List.contains_iff_mem.mp hp⟩
  | case3 passed t s hs hp ih =>
    cases way with
    | nil => simp [climbs_nil_iff]
    | cons k way =>
      have hp : s.name ∉ passed := by simpa using hp
      suffices h : r.Climbs s way u → (((way ++ [u]).tail.map (·.name)).Nodup ∧
          (∀ k ∈ (way ++ [u]).tail, k.name ∉ s.name :: passed) ↔
            ((way ++ [u]).map (·.name)).Nodup ∧ ∀ k ∈ way ++ [u], k.name ∉ passed) by
        have ih := @ih way
        simp only [climbs_cons_iff, hs, Option.some.injEq, exists_eq_left', List.cons_append,
          List.cons.injEq, exists_and_left, List.tail_cons]
        grind
      intro h
      obtain ⟨rest, hrest⟩ := h.exists_cons
      simp only [hrest, List.tail_cons, List.map_cons, List.nodup_cons, List.mem_cons]
      grind

/-- A member is found on a way up that passes no type with such a member and comes to no name twice. -/
theorem member?_eq_some_iff {α : Type} {look : KnownType → Option α} {name : String} {a : α} :
    r.member? name look = some a ↔ ∃ t way u, r.find? name = some t ∧ r.Climbs t way u ∧
      ((way ++ [u]).map (·.name)).Nodup ∧ (∀ v ∈ way, look v = none) ∧ look u = some a := by
  have hway {t u : KnownType} {way : List KnownType} :
      (∃ after, r.line .given t = way ++ u :: after) ↔
        r.Climbs t way u ∧ ((way ++ [u]).map (·.name)).Nodup := by
    refine above_eq_append_iff.trans (and_congr_right fun h => ?_)
    obtain ⟨rest, hrest⟩ := h.exists_cons
    simp only [hrest, List.tail_cons, List.map_cons, List.nodup_cons]
    grind
  unfold Registry.member?
  cases r.find? name with
  | none => simp
  | some t =>
    constructor
    · intro h
      obtain ⟨way, u, after, hline, hu, hv⟩ := List.findSome?_eq_some_iff.mp h
      obtain ⟨hclimbs, hnodup⟩ := hway.mp ⟨after, hline⟩
      exact ⟨t, way, u, rfl, hclimbs, hnodup, hv, hu⟩
    · rintro ⟨_, way, u, ⟨⟩, hclimbs, hnodup, hv, hu⟩
      obtain ⟨after, hline⟩ := hway.mpr ⟨hclimbs, hnodup⟩
      exact List.findSome?_eq_some_iff.mpr ⟨way, u, after, hline, hu, hv⟩

end Registry

/-! ## The method -/

/-- A method of a name that takes a number of arguments, whatever their labels are. -/
def Signature.Takes (m : Signature) (name : String) (arity : Nat) : Prop :=
  m.name = name ∧ m.arity = arity

/-- A method that a call of it on a value means: the name is its name, and the labels are its labels,
    of which `_` stands for none. -/
def Signature.Answers (m : Signature) (name : String) (arguments : List (Labelled Expr)) : Prop :=
  m.isStatic = false ∧ m.name = name ∧
    m.parameters.map (·.label) = arguments.map fun a => a.label.getD "_"

theorem Signature.Answers.takes {m : Signature} {name : String} {arguments : List (Labelled Expr)}
    (h : m.Answers name arguments) : m.Takes name arguments.length := by
  obtain ⟨-, hname, hlabels⟩ := h
  have hlength := congrArg List.length hlabels
  rw [List.length_map, List.length_map] at hlength
  exact ⟨hname, hlength⟩

namespace Registry

/-- The first method of a kind in the nearest type that has one, from a type up. -/
structure Nearest (r : Registry) (t : KnownType) (P : Signature → Prop) (way : List KnownType)
    (owner : KnownType) (m : Signature) : Prop where
  climbs : r.Climbs t way owner
  /-- No name is come to twice. -/
  nodup : ((way ++ [owner]).map (·.name)).Nodup
  passed : ∀ u ∈ way, ∀ k ∈ u.methods, ¬ P k
  first : ∃ before after, owner.methods = before ++ m :: after ∧ P m ∧ ∀ k ∈ before, ¬ P k

variable {r : Registry} {t owner : KnownType} {way : List KnownType} {m : Signature}
  {P Q : Signature → Prop}

/-- The nearest method of a kind is the nearest one of a narrower kind if it is of that kind. -/
theorem Nearest.of_imp (h : r.Nearest t P way owner m) (hm : Q m) (hQ : ∀ k, Q k → P k) :
    r.Nearest t Q way owner m where
  climbs := h.climbs
  nodup := h.nodup
  passed u hu k hk hQk := h.passed u hu k hk (hQ k hQk)
  first := by
    obtain ⟨before, after, hmethods, -, hbefore⟩ := h.first
    exact ⟨before, after, hmethods, hm, fun k hk hQk => hbefore k hk (hQ k hQk)⟩

theorem Nearest.holds (h : r.Nearest t P way owner m) : P m := by
  obtain ⟨_, _, -, hm, -⟩ := h.first
  exact hm

/-- What is found among the methods on the way up. -/
theorem methodType?_eq_some_iff {name : String} {arity : Nat} {u v : SwiftType} :
    r.methodType? name arity u = some v ↔ ∃ n t way owner m, u.nominalName? = some n ∧
      r.find? n = some t ∧ r.Nearest t (·.Takes name arity) way owner m ∧ m.returns = v := by
  have hnone (u : KnownType) : u.method? name arity = none ↔
      ∀ k ∈ u.methods, ¬ k.Takes name arity := by
    simp [KnownType.method?, Signature.Takes]
  have hsome (u : KnownType) (m : Signature) : u.method? name arity = some m ↔
      ∃ before after, u.methods = before ++ m :: after ∧ m.Takes name arity ∧
        ∀ k ∈ before, ¬ k.Takes name arity := by
    simp only [KnownType.method?, List.find?_eq_some_iff_append, Signature.Takes]
    grind
  unfold methodType?
  simp only [bind, Option.bind_eq_some_iff, member?_eq_some_iff, Option.map_eq_none_iff,
    Option.map_eq_some_iff, hnone, hsome]
  constructor
  · rintro ⟨n, hn, t, way, owner, ht, hclimbs, hnodup, hpassed, m, hfirst, rfl⟩
    exact ⟨n, t, way, owner, m, hn, ht, ⟨hclimbs, hnodup, hpassed, hfirst⟩, rfl⟩
  · rintro ⟨n, t, way, owner, m, hn, ht, ⟨hclimbs, hnodup, hpassed, hfirst⟩, rfl⟩
    exact ⟨n, hn, t, way, owner, ht, hclimbs, hnodup, hpassed, m, hfirst, rfl⟩

end Registry

/-! ## Calls -/

/-- The type that a member gets by the type of what it is taken of. -/
def SwiftType.reach (t v : SwiftType) : SwiftType :=
  match t with
  | .optional _ => v.lifted
  | _ => v

theorem SwiftType.through_eq (f : SwiftType → Option SwiftType) (t : SwiftType) :
    through f t = (f t.unwrapped).map t.reach := by
  cases t with
  | optional u => rfl
  | _ => exact Option.map_id'.symm

namespace Expr

variable {r : Registry} {s : Scope} {receiver : Expr} {name : String}
  {arguments : List (Labelled Expr)} {v : SwiftType}

/-- A call on a value is typed by the nearest method of its name that takes so many arguments. -/
theorem type?_methodCall_eq_some_iff :
    (Expr.call (.member receiver name) arguments).type? r s = some v ↔
      ∃ u n t way owner m, receiver.type? r s = some u ∧ u.unwrapped.nominalName? = some n ∧
        r.find? n = some t ∧ r.Nearest t (·.Takes name arguments.length) way owner m ∧
        v = u.reach m.returns := by
  simp only [type?, bind, Option.bind_eq_some_iff, SwiftType.through_eq, Option.map_eq_some_iff,
    Registry.methodType?_eq_some_iff]
  constructor
  · rintro ⟨u, hu, _, ⟨n, t, way, owner, m, hn, ht, hm, rfl⟩, rfl⟩
    exact ⟨u, n, t, way, owner, m, hu, hn, ht, hm, rfl⟩
  · rintro ⟨u, n, t, way, owner, m, hu, hn, ht, hm, rfl⟩
    exact ⟨u, hu, _, ⟨n, t, way, owner, m, hn, ht, hm, rfl⟩, rfl⟩

/-- A call on a value has a type if and only if the type of the receiver is known and it, or a type
    above it, has a method of the name that takes so many arguments. The first such method of the
    nearest type gives the result. It is what the call means, the nearest method that has the labels of
    the call too and is no static one, if and only if it has them and is none itself. -/
theorem type?_methodCall (r : Registry) (s : Scope) (receiver : Expr) (name : String)
    (arguments : List (Labelled Expr)) :
    (∀ v, (Expr.call (.member receiver name) arguments).type? r s = some v ↔
      ∃ u n t way owner m, receiver.type? r s = some u ∧ u.unwrapped.nominalName? = some n ∧
        r.find? n = some t ∧ r.Nearest t (·.Takes name arguments.length) way owner m ∧
        v = u.reach m.returns) ∧
    ∀ t way owner m, r.Nearest t (·.Takes name arguments.length) way owner m →
      (r.Nearest t (·.Answers name arguments) way owner m ↔ m.Answers name arguments) :=
  ⟨fun _ => type?_methodCall_eq_some_iff,
    fun _ _ _ _ h => ⟨fun h => h.holds, fun hm => h.of_imp hm fun _ => Signature.Answers.takes⟩⟩

/-- A method of a supertype, called with its labels on an optional value. A method of the type itself
    that takes fewer arguments does not hide it. -/
theorem type?_methodCall_supertype : ∃ (r : Registry) (s : Scope) (t owner : KnownType)
    (m : Signature) (arguments : List (Labelled Expr)),
    r.find? "B" = some t ∧ r.Nearest t (·.Takes "set" 2) [t] owner m ∧
    r.Nearest t (·.Answers "set" arguments) [t] owner m ∧
    (Expr.call (.member (.identifier "x") "set") arguments).type? r s =
      some (.optional m.returns) := by
  let short : Signature := { name := "set", parameters := [.unlabelled "v" .int], returns := .bool }
  let m : Signature :=
    { name := "set", parameters := [.unlabelled "v" .int, ⟨"key", "k", .string⟩], returns := .int }
  let owner : KnownType := { name := "A", methods := [m] }
  let t : KnownType := { name := "B", supertype := some (.named "A"), methods := [short] }
  let r : Registry := ⟨[owner, t]⟩
  let s : Scope := .ofDefinitions [.value "x" (.var (.optional (.named "B")))]
  let arguments : List (Labelled Expr) := [⟨none, .int 1⟩, ⟨some "key", .constant (.string "k")⟩]
  have hfirst : r.Nearest t (·.Takes "set" 2) [t] owner m :=
    { climbs := .up rfl (.here owner)
      nodup := by decide
      passed := by simp [t, short, Signature.Takes, Signature.arity]
      first := ⟨[], [], rfl, ⟨rfl, rfl⟩, fun _ => List.not_mem_nil.elim⟩ }
  have hmethod := (type?_methodCall r s (.identifier "x") "set" arguments).2 t [t] owner m hfirst
  exact ⟨r, s, t, owner, m, arguments, rfl, hfirst, hmethod.mpr ⟨rfl, rfl, rfl⟩,
    ((type?_methodCall r s (.identifier "x") "set" arguments).1 _).mpr
      ⟨_, "B", t, [t], owner, m, rfl, rfl, rfl, hfirst, rfl⟩⟩

/-- Two methods differ in their label, and the call with the label of the second one gets the result
    of the first one. -/
theorem exists_call_typed_by_other_labels : ∃ (r : Registry) (s : Scope) (t : KnownType)
    (arguments : List (Labelled Expr)),
    (Expr.identifier "x").type? r s = some (.named "A") ∧ r.find? "A" = some t ∧
    (Expr.call (.member (.identifier "x") "set") arguments).type? r s = some .int ∧
    (∃ m, r.Nearest t (·.Answers "set" arguments) [] t m) ∧
    ∀ way owner m, r.Nearest t (·.Answers "set" arguments) way owner m → m.returns = .string := by
  let other : Signature := { name := "set", parameters := [⟨"value", "v", .int⟩], returns := .int }
  let meant : Signature := { name := "set", parameters := [⟨"other", "v", .int⟩], returns := .string }
  let t : KnownType := { name := "A", methods := [other, meant] }
  let arguments : List (Labelled Expr) := [⟨some "other", .int 1⟩]
  have hother : ¬ other.Answers "set" arguments := by
    rintro ⟨-, -, hlabels⟩
    simp [other, arguments] at hlabels
  have hnearest : Registry.Nearest ⟨[t]⟩ t (·.Answers "set" arguments) [] t meant :=
    { climbs := .here t
      nodup := by decide
      passed := fun _ => List.not_mem_nil.elim
      first := ⟨[other], [], rfl, ⟨rfl, rfl, rfl⟩, by simpa using hother⟩ }
  refine ⟨⟨[t]⟩, .ofDefinitions [.value "x" (.var (.named "A"))], t, arguments, by cbv, by cbv, by cbv,
    ⟨meant, hnearest⟩, ?_⟩
  rintro way owner m ⟨hclimbs, -, -, before, after, hmethods, hm, -⟩
  cases hclimbs with
  | up parent => cases parent
  | here =>
    have hmem : m ∈ [other, meant] := by
      show m ∈ t.methods
      simp [hmethods]
    rcases List.mem_cons.mp hmem with rfl | hmem
    · exact absurd hm hother
    · rw [List.mem_singleton.mp hmem]

/-- A method that is called on the type alone is taken for one that is called on its values. -/
example :
    let count : Signature := { name := "count", parameters := [], returns := .int, isStatic := true }
    (Expr.call (.member (.identifier "x") "count") []).type? ⟨[{ name := "A", methods := [count] }]⟩
      (.ofDefinitions [.value "x" (.var (.named "A"))]) = some .int := by
  cbv

end Expr

end HeaderBridge
