/-
  Optionality along chains. A chain of properties, method calls and subscripts behind an optional
  base is optional again, as long as no access loses that. An access to an optional value does so in
  two ways (`Access.Loses`): a subscript takes an element of an optional array as it is, and a
  member of an implicitly unwrapped value is taken as it is, also where the value itself came
  through an optional. These are all (`Access.isOptional_eq_false_iff`), and without them the whole
  chain is optional, whatever its length (`Chain.isOptional_of_not_loses`).
-/
import HeaderBridge.Swift.Chain
import HeaderBridge.Typing.Resolution
import Mathlib.Data.List.Induction

namespace HeaderBridge

namespace SwiftType

@[simp] theorem isOptional_lifted (t : SwiftType) : t.lifted.isOptional = true := by
  unfold lifted
  split
  · assumption
  · rfl

/-- What is reached through an optional type is optional, unless the type is implicitly unwrapped
    and the thing that is reached is not. -/
theorem isOptional_eq_false_iff_of_through {f : SwiftType → Option SwiftType} {t v : SwiftType}
    (ht : t.isOptional = true) (h : through f t = some v) :
    v.isOptional = false ↔
      ∃ u w, t = .implicit u ∧ f u.unwrapped = some w ∧ w.isOptional = false := by
  cases t with
  | optional u =>
    obtain ⟨w, -, rfl⟩ := Option.map_eq_some_iff.mp h
    simp
  | implicit u =>
    have hu : f u.unwrapped = some v := h
    constructor
    · exact fun hv => ⟨u, v, rfl, hu, hv⟩
    · rintro ⟨u', w, heq, hw, hv⟩
      cases heq
      rw [hu] at hw
      cases hw
      exact hv
  | _ => cases ht

end SwiftType

/-! ## Accesses -/

/-- What may stand behind an expression in a chain. -/
inductive Access where
  | property (name : String)
  | method (name : String) (arguments : List (Labelled Expr))
  | subscript (index : Expr)

namespace Access

/-- The links that write an access. -/
def links : Access → List Link
  | .property name => [.member name]
  | .method name arguments => [.member name, .call arguments]
  | .subscript index => [.subscript index]

/-- The type of an access to a value of a type. -/
def type? (r : Registry) : Access → SwiftType → Option SwiftType
  | .property name => SwiftType.through (r.propertyType? name)
  | .method name arguments => SwiftType.through (r.methodType? name arguments.length)
  | .subscript _ => SwiftType.element?

/-- Access to an optional value that is not optional itself. -/
def Loses (r : Registry) (t : SwiftType) : Access → Prop
  | .property name =>
    ∃ u v, t = .implicit u ∧ r.propertyType? name u.unwrapped = some v ∧ v.isOptional = false
  | .method name arguments =>
    ∃ u v, t = .implicit u ∧ r.methodType? name arguments.length u.unwrapped = some v ∧
      v.isOptional = false
  | .subscript _ => t.isOptional = true ∧ ∃ e, t.unwrapped = .array e ∧ e.isOptional = false

variable {r : Registry} {t v : SwiftType} {a : Access}

/-- The two ways in which an access to an optional value is not optional are the only ones. -/
theorem isOptional_eq_false_iff (ht : t.isOptional = true) (h : a.type? r t = some v) :
    v.isOptional = false ↔ a.Loses r t := by
  cases a with
  | property name => exact SwiftType.isOptional_eq_false_iff_of_through ht h
  | method name arguments => exact SwiftType.isOptional_eq_false_iff_of_through ht h
  | subscript index =>
    have helement : t.element? = some v := h
    unfold SwiftType.element? at helement
    split at helement
    · next e he =>
      cases helement
      simp [Loses, ht, he]
    · next k w hd =>
      cases helement
      simp [Loses, hd, SwiftType.isOptional]
    · cases helement

/-- An access that loses optionality has a type. -/
theorem Loses.exists_type (h : a.Loses r t) : ∃ v, a.type? r t = some v ∧ v.isOptional = false := by
  cases a with
  | property name =>
    obtain ⟨u, v, rfl, hv, hopt⟩ := h
    exact ⟨v, hv, hopt⟩
  | method name arguments =>
    obtain ⟨u, v, rfl, hv, hopt⟩ := h
    exact ⟨v, hv, hopt⟩
  | subscript index =>
    obtain ⟨-, e, he, hopt⟩ := h
    exact ⟨e, by simp [type?, SwiftType.element?, he], hopt⟩

end Access

/-! ## Chains -/

namespace Chain

/-- The chain of some accesses behind a base. -/
def ofAccesses (base : Expr) (accesses : List Access) : Chain :=
  ⟨base, accesses.flatMap Access.links⟩

variable {r : Registry} {s : Scope} {base : Expr} {accesses before after : List Access}
  {a : Access} {t u v : SwiftType}

/-- A chain has the type of its last access to what stands in front of that. -/
theorem type?_ofAccesses_concat (base : Expr) (accesses : List Access) (a : Access) :
    (ofAccesses base (accesses ++ [a])).toExpr.type? r s =
      ((ofAccesses base accesses).toExpr.type? r s).bind (a.type? r) := by
  have hlinks : (ofAccesses base (accesses ++ [a])).toExpr =
      a.links.foldl Expr.link (ofAccesses base accesses).toExpr := by
    simp [ofAccesses, toExpr]
  rw [hlinks]
  cases a <;> rfl

/-- Behind an optional base every access that does not lose this is optional. -/
theorem isOptional_of_not_loses (hbase : base.type? r s = some (.optional u))
    (ht : (ofAccesses base accesses).toExpr.type? r s = some t)
    (hkept : ∀ before a after v, accesses = before ++ a :: after →
      (ofAccesses base before).toExpr.type? r s = some v → ¬ a.Loses r v) :
    t.isOptional = true := by
  induction accesses using List.reverseRecOn generalizing t with
  | nil =>
    have hfirst : base.type? r s = some t := ht
    rw [hbase] at hfirst
    cases hfirst
    rfl
  | append_singleton accesses a ih =>
    rw [type?_ofAccesses_concat] at ht
    obtain ⟨v, hv, ht⟩ := Option.bind_eq_some_iff.mp ht
    have hopt : v.isOptional = true := by
      refine ih hv fun before b after w hsplit => hkept before b (after ++ [a]) w ?_
      rw [hsplit, List.append_assoc, List.cons_append]
    rw [← Bool.not_eq_false, Access.isOptional_eq_false_iff hopt ht]
    exact hkept accesses a [] v rfl hv

/-- A chain behind an optional base is optional, if none of its accesses loses this: no subscript
    takes what is not optional from an optional array, and no member that is not optional is taken
    of an implicitly unwrapped value. Where an access does one of these, the chain that ends with
    it is not optional. -/
theorem isOptional_type_of_optional_base {r : Registry} {s : Scope} {base : Expr}
    {accesses : List Access} {u t : SwiftType} (hbase : base.type? r s = some (.optional u))
    (ht : (ofAccesses base accesses).toExpr.type? r s = some t) :
    ((∀ before a after v, accesses = before ++ a :: after →
        (ofAccesses base before).toExpr.type? r s = some v → ¬ a.Loses r v) →
      t.isOptional = true) ∧
    ∀ before a after v, accesses = before ++ a :: after →
      (ofAccesses base before).toExpr.type? r s = some v → a.Loses r v →
      ∃ w, (ofAccesses base (before ++ [a])).toExpr.type? r s = some w ∧
        w.isOptional = false := by
  refine ⟨isOptional_of_not_loses hbase ht, fun before a after v _ hv hloses => ?_⟩
  obtain ⟨w, hw, hopt⟩ := hloses.exists_type
  exact ⟨w, by rw [type?_ofAccesses_concat, hv, Option.bind_some, hw], hopt⟩

/-- The index that an `A` has as its property is reached through an optional `A`, and what a
    subscript takes from it is optional. -/
theorem isOptional_type_of_optional_base_dictionary : ∃ r s t,
    (Expr.identifier "a").type? r s = some (.optional (.named "A")) ∧
    (ofAccesses (.identifier "a") [.property "index", .subscript .nil]).toExpr.type? r s = some t ∧
    t.isOptional = true := by
  let index : SwiftType := .dictionary .string .int
  let r : Registry := ⟨[{ name := "A", properties := [⟨"index", .var index⟩] }]⟩
  let s : Scope := .ofDefinitions [.value "a" (.var (.optional (.named "A")))]
  have hproperty : (ofAccesses (.identifier "a") [.property "index"]).toExpr.type? r s =
      some (.optional index) := rfl
  have hchain : (ofAccesses (.identifier "a") [.property "index", .subscript .nil]).toExpr.type?
      r s = some (.optional .int) := rfl
  refine ⟨r, s, _, rfl, hchain, (isOptional_type_of_optional_base rfl hchain).1 ?_⟩
  intro before a after v hsplit hv
  rcases before with _ | ⟨b, _ | ⟨c, before⟩⟩
  · obtain ⟨rfl, -⟩ := List.cons.inj hsplit
    cases (show some (.optional (.named "A")) = some v from hv)
    rintro ⟨u, w, himplicit, -⟩
    cases himplicit
  · obtain ⟨rfl, hrest⟩ := List.cons.inj hsplit
    obtain ⟨rfl, -⟩ := List.cons.inj hrest
    rw [hproperty] at hv
    cases hv
    rintro ⟨-, e, harray, -⟩
    cases harray
  · simp at hsplit

/-- An element of an optional array of texts is a text. -/
theorem exists_isOptional_eq_false : ∃ r s base u accesses t,
    base.type? r s = some (.optional u) ∧ accesses ≠ [] ∧
    (ofAccesses base accesses).toExpr.type? r s = some t ∧ t.isOptional = false := by
  let s : Scope := .ofDefinitions [.value "names" (.var (.optional (.array .string)))]
  exact ⟨.empty, s, .identifier "names", .array .string, [.subscript (.int 0)], .string, rfl,
    List.cons_ne_nil _ _, rfl, rfl⟩

/-- A property that is implicitly unwrapped stays so behind an optional, and its own property is taken
    as it is. -/
example :
    let r : Registry := ⟨[{ name := "A", properties := [⟨"b", .var (.implicit (.named "B"))⟩] },
      { name := "B", properties := [⟨"n", .var .int⟩] }]⟩
    let s : Scope := .ofDefinitions [.value "a" (.var (.optional (.named "A")))]
    (ofAccesses (.identifier "a") [.property "b", .property "n"]).toExpr.type? r s =
      some .int := rfl

end Chain

end HeaderBridge
