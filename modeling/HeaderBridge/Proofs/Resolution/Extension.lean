/-
  More definitions and more types. A scope lies within another one if whatever it knows means the same
  there, and so does a registry. The line above a type can only grow longer at its end then
  (`Registry.above_extends`), so each member that was found is found again, in front of all that is
  new, and an expression that has a type keeps it (`Expr.type?_within`). A registry lies within each
  one to which types were added, and a scope lies within itself with others behind it.
-/
import HeaderBridge.Proofs.Typing.Additions
import HeaderBridge.Typing.Resolution

namespace HeaderBridge

/-! ## Scopes -/

/-- Whatever a scope knows means the same in another one. -/
structure Scope.Within (s s' : Scope) : Prop where
  typeOf? : ∀ name t, s.typeOf? name = some t → s'.typeOf? name = some t
  functions : ∀ name, s.functions name ≠ [] → s'.functions name = s.functions name

/-- What stands behind a scope is only asked for names that the scope does not know. -/
theorem Scope.within_orElse (s t : Scope) : s.Within (s.orElse t) where
  typeOf? name u h := by
    show (s.typeOf? name).or (t.typeOf? name) = some u
    rw [h, Option.some_or]
  functions name h := by
    show (if (s.functions name).isEmpty then t.functions name else s.functions name) = _
    rw [if_neg (by simpa using h)]

/-! ## Registries -/

namespace Registry

/-- Whatever name means a type means the same type in another registry. -/
def Within (r r' : Registry) : Prop := ∀ name t, r.find? name = some t → r'.find? name = some t

variable {r r' : Registry} {t s : KnownType} {passed : List String} {name : String}

/-- An addition that is not refused leaves the other names as they are. -/
theorem within_of_add (h : r.add t = .ok r') : r.Within r' := by
  have hpush : r' = r.push t := by
    unfold add at h
    split at h
    · cases h
    · split at h
      · cases h
      · cases h
        rfl
  intro name u hu
  rw [hpush, find?_push, hu, Option.some_or]

theorem Within.parent? (h : r.Within r') (hs : r.parent? .given t = some s) :
    r'.parent? .given t = some s := by
  unfold Registry.parent? at hs ⊢
  split at hs
  · cases hs
  · exact h _ _ hs
  · exact hs

/-- The types above a type stay what they are, and others may come behind them. -/
theorem above_extends (h : r.Within r') :
    r.above .given passed t <+: r'.above .given passed t := by
  fun_induction above r .given passed t with
  | case1 => exact List.nil_prefix
  | case2 => exact List.nil_prefix
  | case3 passed t s hs hp ih =>
    rw [above_eq_cons (h.parent? hs) (mt List.contains_iff_mem.mpr hp)]
    exact (List.prefix_cons_inj s).mpr ih

/-- A member that is found is found again. -/
theorem Within.member? {α : Type} {look : KnownType → Option α} {a : α} (h : r.Within r')
    (ha : r.member? name look = some a) : r'.member? name look = some a := by
  unfold Registry.member? at ha ⊢
  cases ht : r.find? name with
  | none =>
    rw [ht] at ha
    cases ha
  | some t =>
    rw [ht] at ha
    rw [h name t ht]
    have hline : r.line .given t <+: r'.line .given t :=
      (List.prefix_cons_inj t).mpr (above_extends h)
    obtain ⟨more, hmore⟩ := hline
    have hfound : (r.line .given t).findSome? look = some a := ha
    show (r'.line .given t).findSome? look = some a
    rw [← hmore, List.findSome?_append, hfound, Option.some_or]

theorem Within.propertyType? {u v : SwiftType} (h : r.Within r')
    (hv : r.propertyType? name u = some v) : r'.propertyType? name u = some v := by
  obtain ⟨nominal, hnominal, hv⟩ := Option.bind_eq_some_iff.mp hv
  exact Option.bind_eq_some_iff.mpr ⟨nominal, hnominal, h.member? hv⟩

theorem Within.methodType? {u v : SwiftType} {arity : Nat} (h : r.Within r')
    (hv : r.methodType? name arity u = some v) : r'.methodType? name arity u = some v := by
  obtain ⟨nominal, hnominal, hv⟩ := Option.bind_eq_some_iff.mp hv
  exact Option.bind_eq_some_iff.mpr ⟨nominal, hnominal, h.member? hv⟩

end Registry

/-- What is reached by one way is reached by another one that leads at least as far. -/
theorem SwiftType.through_mono {f g : SwiftType → Option SwiftType}
    (h : ∀ u v, f u = some v → g u = some v) {t v : SwiftType} (hv : through f t = some v) :
    through g t = some v := by
  cases t with
  | optional u =>
    obtain ⟨w, hw, rfl⟩ := Option.map_eq_some_iff.mp hv
    exact Option.map_eq_some_iff.mpr ⟨w, h _ _ hw, rfl⟩
  | _ => exact h _ _ hv

/-! ## Expressions -/

/-- An expression that has a type has the same type where more names and more types are known, as long
    as those that were known mean the same. -/
theorem Expr.type?_within {r r' : Registry} {s s' : Scope} (hr : r.Within r') (hs : s.Within s')
    (e : Expr) (t : SwiftType) (h : e.type? r s = some t) : e.type? r' s' = some t := by
  fun_induction Expr.type? r s e generalizing t
  case case1 | case5 => exact h
  case case2 name => exact hs.typeOf? name t h
  case case3 ih => exact ih t h
  case case4 ih | case6 ih | case7 ih | case15 ih =>
    obtain ⟨u, hu, h⟩ := Option.bind_eq_some_iff.mp h
    exact Option.bind_eq_some_iff.mpr ⟨u, ih u hu, h⟩
  case case8 ihl ihr | case9 ihl ihr =>
    obtain ⟨u, hu, h⟩ := Option.bind_eq_some_iff.mp h
    obtain ⟨v, hv, h⟩ := Option.bind_eq_some_iff.mp h
    exact Option.bind_eq_some_iff.mpr
      ⟨u, ihl u hu, Option.bind_eq_some_iff.mpr ⟨v, ihr v hv, h⟩⟩
  case case10 ihc ihy ihn =>
    obtain ⟨u, hu, h⟩ := Option.bind_eq_some_iff.mp h
    obtain ⟨v, hv, h⟩ := Option.bind_eq_some_iff.mp h
    obtain ⟨w, hw, h⟩ := Option.bind_eq_some_iff.mp h
    exact Option.bind_eq_some_iff.mpr ⟨u, ihc u hu, Option.bind_eq_some_iff.mpr ⟨v, ihy v hv,
      Option.bind_eq_some_iff.mpr ⟨w, ihn w hw, h⟩⟩⟩
  case case11 ih =>
    obtain ⟨u, hu, h⟩ := Option.bind_eq_some_iff.mp h
    exact Option.bind_eq_some_iff.mpr
      ⟨u, ih u hu, SwiftType.through_mono (fun _ _ => hr.propertyType?) h⟩
  case case12 ih =>
    obtain ⟨u, hu, h⟩ := Option.bind_eq_some_iff.mp h
    exact Option.bind_eq_some_iff.mpr
      ⟨u, ih u hu, SwiftType.through_mono (fun _ _ => hr.methodType?) h⟩
  case case13 name arguments =>
    -- A name that has a function here has some, so they are the same functions there.
    obtain ⟨m, hm, -⟩ := Option.map_eq_some_iff.mp h
    have hsome : s.functions name ≠ [] := List.ne_nil_of_mem (List.mem_of_find?_eq_some hm)
    rw [← hs.functions name hsome] at h
    exact h
  case case14 => cases h
  case case16 => cases h

/-- The sum of a property and a number stays an `Int` when the supertype, which has a property of the
    same name, and another value of the same name are made known. -/
theorem Expr.type?_within_supertype : ∃ (r r' : Registry) (s s' : Scope) (e : Expr) (t : SwiftType),
    r.Within r' ∧ s.Within s' ∧ r.contains "B" = false ∧ r'.contains "B" = true ∧
    e.type? r s = some t ∧ e.type? r' s' = some t := by
  let below : KnownType :=
    { name := "A", supertype := some (.named "B"), properties := [⟨"p", .var .int⟩] }
  let above : KnownType := { name := "B", properties := [⟨"p", .var .string⟩] }
  let s : Scope := .ofDefinitions [.value "x" (.var (.named "A"))]
  let s' : Scope := s.orElse (.ofDefinitions [.value "x" (.var (.named "B"))])
  let e : Expr := .binary (.member (.identifier "x") "p") .add (.int 1)
  have hadd : Registry.add ⟨[below]⟩ above = .ok ⟨[below, above]⟩ := by cbv
  have htype : e.type? ⟨[below]⟩ s = some .int := by cbv
  have hr : Registry.Within ⟨[below]⟩ ⟨[below, above]⟩ := Registry.within_of_add hadd
  have hs : s.Within s' := s.within_orElse _
  exact ⟨_, _, s, s', e, .int, hr, hs, rfl, rfl, htype, Expr.type?_within hr hs e .int htype⟩

end HeaderBridge
