/-
  Subtypes among the names of a registry. Where every supertype that is given whole has a registered
  name, everything above a registered type is registered, so there are no twins: no line has a loop,
  the walk of a line finds all types above, and standing at or below orders the registered names.
-/
import Mathlib.Order.Defs.Unbundled
import HeaderBridge.Proofs.Typing.Additions

namespace HeaderBridge.Registry

open Relation

variable {r : Registry} {t s : KnownType}

/-- Every supertype that a registered type gives whole has a registered name. -/
def Grounded (r : Registry) : Prop :=
  ∀ t ∈ r.types, ∀ s, t.supertype = some (.known s) → r.contains s.name = true

/-! ## Lines of registered types -/

theorem IsParent.registered (hg : r.Grounded) (ht : t ∈ r.types) (h : r.IsParent t s) :
    r.find? s.name = some s := by
  refine h.found.resolve_right fun hnone => ?_
  unfold IsParent parent? at h
  split at h
  · cases h
  · rw [find?_name h] at hnone
    cases hnone
  · rename_i u hu
    obtain ⟨v, hv⟩ := Option.isSome_iff_exists.mp (hg t ht u hu)
    rw [hv, Option.getD_some] at h
    cases h
    rw [find?_name hv] at hnone
    cases hnone

theorem IsAbove.registered (hg : r.Grounded) (ht : t ∈ r.types) (h : r.IsAbove t s) :
    r.find? s.name = some s := by
  induction h with
  | single h => exact h.registered hg ht
  | tail _ h ih => exact h.registered hg (mem_of_find?_eq_some ih)

theorem reachable_registered (hg : r.Grounded) (ht : r.find? t.name = some t)
    (h : ReflTransGen r.IsParent t s) : r.find? s.name = some s := by
  rcases reflTransGen_iff_eq_or_transGen.mp h with rfl | h
  · exact ht
  · exact IsAbove.registered hg (mem_of_find?_eq_some ht) h

/-- No registered type is above itself. -/
theorem not_isAbove_self (hl : r.LoopsHaveTwins) (hg : r.Grounded) (ht : t ∈ r.types) :
    ¬ r.IsAbove t t := by
  intro h
  obtain ⟨u, v, hu, _, _, _, hc⟩ := hl t ht h
  have hfound := hu.registered hg ht
  rw [contains_eq_false.mp hc] at hfound
  cases hfound

/-- The line of a registered type has the type and everything above it. -/
theorem mem_line_iff (hg : r.Grounded) (ht : r.find? t.name = some t) :
    s ∈ r.line .registered t ↔ ReflTransGen r.IsParent t s := by
  let P (u : KnownType) : Prop := r.find? u.name = some u
  have closed (u v : KnownType) (hu : P u) (h : r.IsParent u v) : P v :=
    h.registered hg (mem_of_find?_eq_some hu)
  have apart (u v : KnownType) (hu : P u) (hv : P v) (hname : u.name = v.name) : u = v := by
    have hu : r.find? u.name = some u := hu
    rw [hname, hv] at hu
    exact (Option.some.inj hu).symm
  constructor
  · intro hs
    rcases List.mem_cons.mp hs with rfl | hs
    · exact .refl
    · exact (isAbove_of_mem_above hs).to_reflTransGen
  · intro hs
    induction hs with
    | refl => exact List.mem_cons_self
    | tail _ hparent ih =>
      have hseen : ∀ u ∈ [t], P u := by simpa using ht
      have hnext := parent_mem_above closed apart hseen rfl (fun _ => closed t _ ht)
        (List.mem_cons.mp ih) hparent
      exact List.mem_cons.mpr (hnext.imp_left List.mem_singleton.mp)

/-- A subtype reaches the other type by single steps from a type to its parent. -/
theorem isSubtype_iff (hg : r.Grounded) (name of : String) : r.isSubtype name of = true ↔
    ∃ t s, r.find? name = some t ∧ r.find? of = some s ∧ ReflTransGen r.IsParent t s := by
  unfold isSubtype
  cases ht : r.find? name with
  | none => simp
  | some t =>
    cases hs : r.find? of with
    | none => simp
    | some s =>
      rw [List.any_eq_true]
      constructor
      · rintro ⟨u, hu, hname⟩
        have hreach := (mem_line_iff hg (find?_name ht)).mp hu
        have hsame := reachable_registered hg (find?_name ht) hreach
        rw [beq_iff_eq.mp hname, find?_name hs] at hsame
        cases hsame
        exact ⟨t, s, rfl, rfl, hreach⟩
      · rintro ⟨_, _, ⟨⟩, ⟨⟩, hreach⟩
        exact ⟨s, (mem_line_iff hg (find?_name ht)).mpr hreach, beq_self_eq_true s.name⟩

/-! ## The order -/

theorem isSubtype_refl (hg : r.Grounded) {a : String} (ha : r.contains a = true) :
    r.isSubtype a a = true := by
  obtain ⟨t, ht⟩ := Option.isSome_iff_exists.mp ha
  exact (isSubtype_iff hg a a).mpr ⟨t, t, ht, ht, .refl⟩

theorem isSubtype_trans (hg : r.Grounded) {a b c : String} (hab : r.isSubtype a b = true)
    (hbc : r.isSubtype b c = true) : r.isSubtype a c = true := by
  obtain ⟨t, s, ht, hs, hts⟩ := (isSubtype_iff hg a b).mp hab
  obtain ⟨s', u, hs', hu, hsu⟩ := (isSubtype_iff hg b c).mp hbc
  cases hs.symm.trans hs'
  exact (isSubtype_iff hg a c).mpr ⟨t, u, ht, hu, hts.trans hsu⟩

theorem isSubtype_antisymm (hl : r.LoopsHaveTwins) (hg : r.Grounded) {a b : String}
    (hab : r.isSubtype a b = true) (hba : r.isSubtype b a = true) : a = b := by
  obtain ⟨t, s, ht, hs, hts⟩ := (isSubtype_iff hg a b).mp hab
  obtain ⟨s', t', hs', ht', hst⟩ := (isSubtype_iff hg b a).mp hba
  cases hs.symm.trans hs'
  cases ht.symm.trans ht'
  rcases reflTransGen_iff_eq_or_transGen.mp hts with rfl | hts
  · rw [← name_of_find? ht, name_of_find? hs]
  · exact absurd (hts.trans_left hst) (not_isAbove_self hl hg (mem_of_find?_eq_some ht))

theorem isSubtype_eq_false {a b : String} (h : r.contains a = false ∨ r.contains b = false) :
    r.isSubtype a b = false := by
  unfold isSubtype
  rcases h with h | h
  · rw [contains_eq_false.mp h]
  · rw [contains_eq_false.mp h]
    cases r.find? a with
    | none => rfl
    | some => rfl

/-- Whatever types were offered to an empty registry, if every supertype that is given whole has a
    registered name, subtypes are a partial order of the registered names. No other name takes part,
    and a name is a subtype where steps from a registered type to its parent lead to the other. -/
theorem isPartialOrder_isSubtype (ts : List KnownType) (hg : (offerAll ts).Grounded) :
    IsPartialOrder {name // (offerAll ts).contains name = true}
      (fun a b => (offerAll ts).isSubtype a b = true) ∧
    (∀ a b, (offerAll ts).contains a = false ∨ (offerAll ts).contains b = false →
      (offerAll ts).isSubtype a b = false) ∧
    ∀ a b, (offerAll ts).isSubtype a b = true ↔ ∃ t s, (offerAll ts).find? a = some t ∧
      (offerAll ts).find? b = some s ∧ ReflTransGen (offerAll ts).IsParent t s := by
  refine ⟨?_, fun _ _ => isSubtype_eq_false, isSubtype_iff hg⟩
  exact {
    refl := fun a => isSubtype_refl hg a.2
    trans := fun _ _ _ => isSubtype_trans hg
    antisymm := fun _ _ hab hba =>
      Subtype.ext (isSubtype_antisymm (loopsHaveTwins_offerAll ts) hg hab hba) }

/-- `C` is added before `B`, and `B` gives an `A` whole that is not the registered one. -/
def groundedTypes : List KnownType :=
  [{ name := "C", supertype := some (.named "B") },
    { name := "B", supertype := some (.known { name := "A", protocols := ["P"] }) },
    { name := "A" }]

theorem isPartialOrder_isSubtype_groundedTypes :
    (offerAll groundedTypes).Grounded ∧
    IsPartialOrder {name // (offerAll groundedTypes).contains name = true}
      (fun a b => (offerAll groundedTypes).isSubtype a b = true) ∧
    (offerAll groundedTypes).isSubtype "C" "A" = true := by
  have hadded : offerAll groundedTypes = ⟨groundedTypes⟩ := by cbv
  have hg : (offerAll groundedTypes).Grounded := by
    rw [hadded]
    intro t ht s hs
    simp only [groundedTypes, List.mem_cons, List.not_mem_nil, or_false] at ht
    rcases ht with rfl | rfl | rfl
    · cases hs
    · cases hs
      rfl
    · cases hs
  obtain ⟨horder, -, hreach⟩ := isPartialOrder_isSubtype groundedTypes hg
  refine ⟨hg, horder, (hreach "C" "A").mpr ?_⟩
  rw [hadded]
  exact ⟨_, _, rfl, rfl, .head rfl (.single rfl)⟩

end HeaderBridge.Registry
