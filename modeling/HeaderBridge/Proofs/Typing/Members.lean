/-
  Members of subtypes. Asking for a subtype and looking for a member go up the same line, but where
  a supertype is given whole they read it in two ways: the one takes the registered type of its name,
  the other takes it as it is given. So a value of a subtype has every member of the registered type
  above it if, on the way up to that type, what is given whole is what is registered. A type that
  stands in for a registered one with fewer members hides the others.
-/
import HeaderBridge.Proofs.Typing.Subtype
import HeaderBridge.Typing.Resolution
import Mathlib

namespace HeaderBridge.Registry

variable {r : Registry} {t s u : KnownType} {passed : List String} {a b : String}

/-! ## One line in two readings -/

/-- A supertype that is given whole is the registered type of its name, if there is one. -/
def Agrees (r : Registry) (u : KnownType) : Prop :=
  ∀ v, u.supertype = some (.known v) → ∀ w, r.find? v.name = some w → w = v

theorem Agrees.parent? (h : r.Agrees u) : r.parent? .given u = r.parent? .registered u := by
  unfold Registry.parent?
  split
  · rfl
  · rfl
  · next v hv =>
    show some v = some ((r.find? v.name).getD v)
    cases hw : r.find? v.name with
    | none => rfl
    | some w => rw [h v hv w hw, Option.getD_some]

/-- The registered types on the way from a name up to another one, which is left out. -/
def way (r : Registry) (a b : String) : List KnownType :=
  ((r.find? a).map fun t => (r.line .registered t).takeWhile (·.name != b)).getD []

/-- Where both readings agree up to a type, it stands on the line in both. -/
theorem mem_above_given (ht : t.name ∈ passed) (hs : s ∈ t :: r.above .registered passed t)
    (hway : ∀ u ∈ (t :: r.above .registered passed t).takeWhile (·.name != s.name), r.Agrees u) :
    s ∈ t :: r.above .given passed t := by
  fun_induction above r .registered passed t with
  | case1 =>
    rw [List.mem_singleton.mp hs]
    exact List.mem_cons_self
  | case2 =>
    rw [List.mem_singleton.mp hs]
    exact List.mem_cons_self
  | case3 passed t v hv hp ih =>
    rcases List.mem_cons.mp hs with rfl | hs
    · exact List.mem_cons_self
    · -- The type has another name than the one that is looked for, so it is on the way.
      have hname : (t.name != s.name) = true := by
        rw [bne_iff_ne]
        intro heq
        rcases List.mem_cons.mp hs with rfl | hmem
        · exact hp (List.contains_iff_mem.mpr (heq ▸ ht))
        · exact not_mem_passed hmem (List.mem_cons_of_mem _ (heq ▸ ht))
      rw [List.takeWhile_cons, if_pos hname, List.forall_mem_cons] at hway
      have hparent : r.parent? .given t = some v := hway.1.parent?.trans hv
      rw [above_eq_cons hparent (mt List.contains_iff_mem.mpr hp)]
      exact List.mem_cons_of_mem t (ih List.mem_cons_self hs hway.2)

/-- A registered type above another one stands on its line. -/
theorem mem_line_of_isSubtype (ht : r.find? a = some t) (hs : r.find? b = some s)
    (h : r.isSubtype a b = true) : s ∈ r.line .registered t := by
  unfold isSubtype at h
  rw [ht, hs] at h
  obtain ⟨u, hu, hname⟩ := List.any_eq_true.mp h
  have hbound : r.find? u.name = some s := by rw [beq_iff_eq.mp hname, find?_name hs]
  have hfound : r.find? u.name = some u ∨ r.find? u.name = none := by
    rcases List.mem_cons.mp hu with rfl | hu
    · exact .inl (find?_name ht)
    · exact (isAbove_of_mem_above hu).found
  rw [hbound] at hfound
  rcases hfound with heq | hnone
  · cases heq
    exact hu
  · cases hnone

/-! ## Members -/

/-- A member is found if and only if some type on the line, as it is given, has it. -/
theorem member?_isSome_iff {α : Type} {look : KnownType → Option α} (ht : r.find? a = some t) :
    (r.member? a look).isSome = true ↔ ∃ u ∈ r.line .given t, (look u).isSome = true := by
  unfold member?
  rw [ht, List.findSome?_isSome_iff]

/-- What a registered type declares is found from each subtype, if both readings agree on the
    way. -/
theorem member?_isSome_of_isSubtype {α : Type} {look : KnownType → Option α}
    (h : r.isSubtype a b = true) (hs : r.find? b = some s)
    (hway : ∀ u ∈ r.way a b, r.Agrees u) (hlook : (look s).isSome = true) :
    (r.member? a look).isSome = true := by
  cases ht : r.find? a with
  | none =>
    rw [isSubtype_eq_false (.inl (contains_eq_false.mpr ht))] at h
    cases h
  | some t =>
    rw [way, ht, Option.map_some, Option.getD_some, ← name_of_find? hs] at hway
    have hline := mem_above_given List.mem_cons_self (mem_line_of_isSubtype ht hs h) hway
    exact (member?_isSome_iff ht).mpr ⟨s, hline, hlook⟩

/-- A value whose type is a subtype of a registered type has every property and every method that
    the latter declares, if the supertypes that are given whole on the way are the registered ones
    of their names. -/
theorem members_of_isSubtype {r : Registry} {a b : String} {s : KnownType}
    (h : r.isSubtype a b = true) (hs : r.find? b = some s) (hway : ∀ u ∈ r.way a b, r.Agrees u)
    {scope : Scope} {x : String} (hx : scope.typeOf? x = some (.named a)) :
    (∀ p ∈ s.properties,
      ((Expr.member (.identifier x) p.name).type? r scope).isSome = true) ∧
    ∀ m ∈ s.methods, ∀ arguments, arguments.length = m.arity →
      ((Expr.call (.member (.identifier x) m.name) arguments).type? r scope).isSome = true := by
  constructor
  · intro p hp
    have htype : (Expr.member (.identifier x) p.name).type? r scope =
        r.member? a fun known => (known.property? p.name).map (·.storage.type) := by
      simp only [Expr.type?, hx]
      rfl
    rw [htype]
    apply member?_isSome_of_isSubtype h hs hway
    rw [Option.isSome_map, KnownType.property?, List.find?_isSome]
    exact ⟨p, hp, beq_self_eq_true p.name⟩
  · intro m hm arguments harity
    have htype : (Expr.call (.member (.identifier x) m.name) arguments).type? r scope =
        r.member? a fun known => (known.method? m.name arguments.length).map (·.returns) := by
      simp only [Expr.type?, hx]
      rfl
    rw [htype]
    apply member?_isSome_of_isSubtype h hs hway
    rw [Option.isSome_map, KnownType.method?, List.find?_isSome]
    exact ⟨m, hm, by simp [harity]⟩

def typeA : KnownType := { name := "A", properties := [⟨"p", .var .int⟩] }

/-- Gives its supertype whole. -/
def typeB : KnownType := { name := "B", supertype := some (.known typeA) }

/-- Gives its supertype by name. -/
def typeC : KnownType := { name := "C", supertype := some (.named "B") }

/-- `C` is two steps below `A`, one of each kind, and has its property. -/
theorem members_of_isSubtype_both_kinds : ∃ scope : Scope,
    scope.typeOf? "x" = some (.named "C") ∧
    (offerAll [typeA, typeB, typeC]).isSubtype "C" "A" = true ∧
    ((Expr.member (.identifier "x") "p").type? (offerAll [typeA, typeB, typeC]) scope).isSome := by
  have hadded : offerAll [typeA, typeB, typeC] = ⟨[typeA, typeB, typeC]⟩ := by cbv
  have hsub : isSubtype ⟨[typeA, typeB, typeC]⟩ "C" "A" = true := by cbv
  have hnames : way ⟨[typeA, typeB, typeC]⟩ "C" "A" = [typeC, typeB] := by cbv
  have hway : ∀ u ∈ way ⟨[typeA, typeB, typeC]⟩ "C" "A", Agrees ⟨[typeA, typeB, typeC]⟩ u := by
    rw [hnames, List.forall_mem_cons, List.forall_mem_singleton]
    constructor
    · intro v hv
      cases hv
    · intro v hv w hw
      cases hv
      cases hw
      rfl
  rw [hadded]
  refine ⟨.ofDefinitions [.value "x" (.var (.named "C"))], rfl, hsub, ?_⟩
  exact (members_of_isSubtype hsub rfl hway rfl).1 ⟨"p", .var .int⟩ List.mem_cons_self

/-- An `A` without members stands in for the registered one above `B`: a `B` is an `A` and has no
    `p`. -/
theorem exists_member_without_type : ∃ ts a b s p scope x,
    (offerAll ts).isSubtype a b = true ∧ (offerAll ts).find? b = some s ∧ p ∈ s.properties ∧
    scope.typeOf? x = some (.named a) ∧
    (Expr.member (.identifier x) p.name).type? (offerAll ts) scope = none := by
  let p : KnownProperty := ⟨"p", .var .int⟩
  let whole : KnownType := { name := "A", properties := [p] }
  let below : KnownType := { name := "B", supertype := some (.known { name := "A" }) }
  refine ⟨[whole, below], "B", "A", whole, p, .ofDefinitions [.value "x" (.var (.named "B"))], "x",
    by cbv, by cbv, List.mem_cons_self, rfl, by cbv⟩

end HeaderBridge.Registry
