/-
  What the grammar sees of tokens, and what it makes of them. `Facing tail ts us` says that two rows
  show the same faces. With a tail, this holds of what they have in common: behind it the first row
  has an `@end` and the second one the tail. As long as a token is left in common that no look ahead
  passes, the rows answer every look ahead alike. `bare` forgets in values and nodes where things
  stand.
-/
import HeaderBridge.Objc.Grammar.Header
import HeaderBridge.Proofs.Reading.Past

namespace HeaderBridge

open ReadState (kindOf)

/-! ## Rows of the same faces -/

/-- What the grammar sees of a token. -/
def Token.face (t : Token) : TokenKind × String := (t.kind, t.text)

/-- No rule asks what stands behind a token of this kind before the token is read. -/
def TokenKind.isFinal : TokenKind → Bool
  | .identifier | .plus | .minus => false
  | _ => true

/-- Two rows show the same faces. With a tail they do so up to an `@end` that closes the first one
    and up to the tail in the second one. -/
def Facing (tail : Option (List Token)) (ts us : List Token) : Prop :=
  match tail with
  | none => ts.map Token.face = us.map Token.face
  | some tail => ∃ common last common', last.kind = .atEnd ∧ ts = common ++ [last] ∧
      us = common' ++ tail ∧ common.map Token.face = common'.map Token.face

/-- A look ahead from the first row may pass what the two rows have in common. -/
def RanOut (tail : Option (List Token)) (ts : List Token) : Prop :=
  tail.isSome = true ∧ ∀ t ∈ ts, t.kind.isFinal = true → t.kind = .atEnd

theorem RanOut.of_append {tail : Option (List Token)} {front rest : List Token}
    (h : RanOut tail (front ++ rest)) : RanOut tail rest :=
  ⟨h.1, fun t ht => h.2 t (List.mem_append_right front ht)⟩

theorem not_ranOut_none (ts : List Token) : ¬ RanOut none ts := fun h => by cases h.1

/-- Where a look ahead may pass the common tokens, only names and signs are left. -/
theorem RanOut.kindOf_ne {tail : Option (List Token)} {ts : List Token} {kind : TokenKind}
    (h : RanOut tail ts) (hkind : kind.isFinal = true) (hend : kind ≠ .atEnd)
    (hfile : kind ≠ .endOfFile) : kindOf ts ≠ kind := by
  rintro rfl
  cases ts with
  | nil => exact hfile rfl
  | cons t ts => exact hend (h.2 t List.mem_cons_self hkind)

/-- Behind a token that is not final there is more in common. -/
theorem RanOut.cons {tail : Option (List Token)} {t : Token} {ts : List Token}
    (h : RanOut tail ts) (ht : t.kind.isFinal = false) : RanOut tail (t :: ts) := by
  refine ⟨h.1, fun u hu hfinal => ?_⟩
  rcases List.mem_cons.mp hu with rfl | hu
  · rw [ht] at hfinal
    cases hfinal
  · exact h.2 u hu hfinal

namespace Facing

variable {tail : Option (List Token)} {ts us : List Token} {t u : Token}

/-- Two rows of the same faces begin with tokens of one face, or are at the end of what they have
    in common. -/
theorem cases (h : Facing tail ts us) :
    (∃ t ts' u us', ts = t :: ts' ∧ us = u :: us' ∧ t.face = u.face ∧ Facing tail ts' us') ∨
      (tail = none ∧ ts = [] ∧ us = []) ∨
      (∃ last, last.kind = .atEnd ∧ ts = [last] ∧ tail = some us) := by
  cases tail with
  | none =>
    cases ts with
    | nil => exact Or.inr (Or.inl ⟨rfl, rfl, List.map_eq_nil_iff.mp (Eq.symm h)⟩)
    | cons t ts =>
      cases us with
      | nil => cases h
      | cons u us =>
        obtain ⟨hface, hrest⟩ := List.cons.inj h
        exact Or.inl ⟨t, ts, u, us, rfl, rfl, hface, hrest⟩
  | some tail =>
    obtain ⟨common, last, common', hlast, rfl, rfl, hfaces⟩ := h
    cases common with
    | nil =>
      obtain rfl := List.map_eq_nil_iff.mp (Eq.symm hfaces)
      exact Or.inr (Or.inr ⟨last, hlast, rfl, rfl⟩)
    | cons t common =>
      cases common' with
      | nil => cases hfaces
      | cons u common' =>
        obtain ⟨hface, hrest⟩ := List.cons.inj hfaces
        exact Or.inl ⟨t, _, u, _, rfl, rfl, hface, common, last, common', hlast, rfl, rfl, hrest⟩

/-- While something is left in common, the rows are at their ends both, or begin with tokens of one
    face. -/
theorem cases_of_sees (h : Facing tail ts us) (hsees : ¬ RanOut tail ts) :
    (ts = [] ∧ us = []) ∨ ∃ t ts' u us', ts = t :: ts' ∧ us = u :: us' ∧ t.face = u.face ∧
      Facing tail ts' us' := by
  obtain hcons | ⟨_, hnil⟩ | ⟨last, hlast, rfl, rfl⟩ := h.cases
  · exact Or.inr hcons
  · exact Or.inl hnil
  · refine absurd ⟨rfl, fun t ht _ => ?_⟩ hsees
    rw [List.mem_singleton.mp ht]
    exact hlast

theorem cons_left (h : Facing tail (t :: ts) us) (hsees : ¬ RanOut tail (t :: ts)) :
    ∃ u us', us = u :: us' ∧ t.face = u.face ∧ Facing tail ts us' := by
  obtain ⟨hnil, _⟩ | ⟨_, _, u, us', hcons, rfl, hface, hrest⟩ := h.cases_of_sees hsees
  · cases hnil
  · obtain ⟨rfl, rfl⟩ := List.cons.inj hcons
    exact ⟨u, us', rfl, hface, hrest⟩

theorem kindOf_eq (h : Facing tail ts us) (hsees : ¬ RanOut tail ts) : kindOf ts = kindOf us := by
  obtain ⟨rfl, rfl⟩ | ⟨t, _, u, _, rfl, rfl, hface, _⟩ := h.cases_of_sees hsees
  · rfl
  · exact congrArg Prod.fst hface

/-! ## Looking ahead -/

theorem second_eq (h : Facing tail ts us) (hsees : ¬ RanOut tail ts)
    (hkind : (kindOf ts).isFinal = false) : kindOf (ts.drop 1) = kindOf (us.drop 1) := by
  obtain ⟨rfl, rfl⟩ | ⟨t, ts', u, us', rfl, rfl, _, hrest⟩ := h.cases_of_sees hsees
  · rfl
  · exact hrest.kindOf_eq fun hout => hsees (hout.cons hkind)

theorem startsMember_eq (h : Facing tail ts us) (hsees : ¬ RanOut tail ts) :
    Grammar.startsMember ts = Grammar.startsMember us := by
  obtain ⟨rfl, rfl⟩ | ⟨t, ts', u, us', rfl, rfl, hface, hrest⟩ := h.cases_of_sees hsees
  · rfl
  · have hkind : t.kind = u.kind := congrArg Prod.fst hface
    simp only [Grammar.startsMember, ← hkind]
    by_cases ht : t.kind = .plus ∨ t.kind = .minus
    · have hfinal : t.kind.isFinal = false := by rcases ht with h | h <;> rw [h] <;> rfl
      rw [hrest.kindOf_eq fun hout => hsees (hout.cons hfinal)]
    · obtain ⟨hplus, hminus⟩ := not_or.mp ht
      rw [beq_false_of_ne hplus, beq_false_of_ne hminus]
      rfl

theorem startsWithQualifier_eq (h : Facing tail ts us) (hsees : ¬ RanOut tail ts) :
    Grammar.startsWithQualifier ts = Grammar.startsWithQualifier us := by
  obtain ⟨rfl, rfl⟩ | ⟨t, _, u, _, rfl, rfl, hface, _⟩ := h.cases_of_sees hsees
  · rfl
  · have hkind : t.kind = u.kind := congrArg Prod.fst hface
    have htext : t.text = u.text := congrArg Prod.snd hface
    simp only [Grammar.startsWithQualifier, hkind, htext]

theorem nameWords_eq (h : Facing tail ts us) (hsees : ¬ RanOut tail ts) (last : String) :
    Grammar.nameWords last ts = Grammar.nameWords last us := by
  induction ts generalizing us last with
  | nil =>
    obtain ⟨_, rfl⟩ | ⟨_, _, _, _, hnil, _⟩ := h.cases_of_sees hsees
    · rfl
    · cases hnil
  | cons t ts ih =>
    obtain ⟨u, us', rfl, hface, hrest⟩ := h.cons_left hsees
    have hkind : t.kind = u.kind := congrArg Prod.fst hface
    have htext : t.text = u.text := congrArg Prod.snd hface
    unfold Grammar.nameWords
    rw [← hkind, ← htext]
    by_cases ht : t.kind = .identifier
    · rw [ih hrest fun hout => hsees (hout.cons (by rw [ht]; rfl))]
    · rw [beq_false_of_ne ht]
      simp

/-! ## Taking a double bracket apart -/

theorem halve {a b a' b' : Token} (h : Facing tail (t :: ts) (u :: us))
    (hsees : ¬ RanOut tail (t :: ts)) (ha : a.face = a'.face) (hb : b.face = b'.face) :
    Facing tail (a :: b :: ts) (a' :: b' :: us) := by
  obtain ⟨_, _, heq, _, hrest⟩ := h.cons_left hsees
  obtain ⟨rfl, rfl⟩ := List.cons.inj heq
  cases tail with
  | none =>
    show a.face :: b.face :: _ = a'.face :: b'.face :: _
    rw [ha, hb, show ts.map Token.face = us.map Token.face from hrest]
  | some tail =>
    obtain ⟨common, last, common', hlast, rfl, rfl, hfaces⟩ := hrest
    refine ⟨a :: b :: common, last, a' :: b' :: common', hlast, rfl, rfl, ?_⟩
    rw [List.map_cons, List.map_cons, List.map_cons, List.map_cons, ha, hb, hfaces]

end Facing

/-! ## Forgetting places -/

/-- Values in which places may be forgotten. -/
class Bare (α : Type) where
  /-- The value without the places in it. -/
  bare : α → α

open Bare (bare)

/-! A value that has no place in it stays as it is. -/

instance : Bare Unit := ⟨id⟩
instance : Bare Bool := ⟨id⟩
instance : Bare String := ⟨id⟩
instance : Bare ObjcType := ⟨id⟩
instance : Bare Nullability := ⟨id⟩
instance : Bare PropertyModifier := ⟨id⟩

/-! A place becomes the empty one at the start. -/

instance : Bare Span := ⟨fun _ => Span.point 0⟩
instance : Bare Ident := ⟨fun i => { i with span := Span.point 0 }⟩
instance : Bare TypeName := ⟨fun t => { t with span := Span.point 0 }⟩

/-! Everything else is gone through. -/

instance {α : Type} [Bare α] : Bare (Option α) := ⟨Option.map bare⟩
instance {α : Type} [Bare α] : Bare (List α) := ⟨List.map bare⟩
instance {α : Type} [Bare α] : Bare (Array α) := ⟨Array.map bare⟩
instance {α β : Type} [Bare α] [Bare β] : Bare (α × β) := ⟨Prod.map bare bare⟩

instance {α : Type} [Bare α] : Bare (Slot α) where
  bare
    | .missing => .missing
    | .valid value => .valid (bare value)
    | .invalid place => .invalid (bare place)

instance : Bare KeywordPart := ⟨fun p => ⟨bare p.keyword, bare p.type, bare p.name⟩⟩

instance : Bare Selector where
  bare
    | .simple name => .simple (bare name)
    | .keywords parts => .keywords (bare parts)

instance : Bare PropertyData := ⟨fun d => { d with type := bare d.type, name := bare d.name }⟩

instance : Bare MethodData :=
  ⟨fun d => { d with returns := bare d.returns, selector := bare d.selector }⟩

instance : Bare NodeKind where
  bare
    | .classInterface name => .classInterface (bare name)
    | .protocolDeclaration name => .protocolDeclaration (bare name)
    | .superclassName name => .superclassName (bare name)
    | .protocolList names => .protocolList (bare names)
    | .property data => .property (bare data)
    | .method data => .method (bare data)
    | kind => kind

namespace Node

mutual

/-- The tree without numbers and ranges. -/
def withoutPlaces : Node → Node
  | ⟨_, kind, _, children⟩ => ⟨0, bare kind, none, withoutPlacesAll children⟩

def withoutPlacesAll : List Node → List Node
  | [] => []
  | n :: ns => withoutPlaces n :: withoutPlacesAll ns

end

instance : Bare Node := ⟨withoutPlaces⟩

theorem withoutPlacesAll_eq (ns : List Node) : withoutPlacesAll ns = bare ns := by
  induction ns with
  | nil => rfl
  | cons n ns ih => rw [withoutPlacesAll, ih]; rfl

/-- Trees are the same but for places if their kinds and their children are. -/
theorem bare_eq_iff {n m : Node} :
    bare n = bare m ↔ bare n.kind = bare m.kind ∧ bare n.children = bare m.children := by
  obtain ⟨_, kind, _, children⟩ := n
  obtain ⟨_, kind', _, children'⟩ := m
  show withoutPlaces _ = withoutPlaces _ ↔ _
  rw [withoutPlaces, withoutPlaces, withoutPlacesAll_eq, withoutPlacesAll_eq]
  simp

end Node

theorem bare_nullability (found : Option Nullability) : bare found = found := by
  cases found <;> rfl

theorem bare_word (value : Option String) : bare value = value := by
  cases value <;> rfl

theorem Ident.name_eq_of_bare {i j : Ident} (h : bare i = bare j) : i.name = j.name := by
  have hnames := congrArg Ident.name h
  exact hnames

theorem TypeName.type_eq_of_bare {name name' : TypeName} (h : bare name = bare name') :
    name.type = name'.type := by
  have htypes := congrArg TypeName.type h
  exact htypes

theorem Slot.isInvalid_eq_of_bare {α : Type} [Bare α] {slot slot' : Slot α}
    (h : bare slot = bare slot') : slot.isInvalid = slot'.isInvalid := by
  cases slot <;> cases slot' <;> first | rfl | cases h

/-- A list of values without places stays as it is. -/
theorem bare_list {α : Type} [Bare α] (h : ∀ a : α, bare a = a) (as : List α) : bare as = as :=
  List.map_id'' h as

theorem bare_append {α : Type} [Bare α] (as bs : List α) : bare (as ++ bs) = bare as ++ bare bs :=
  List.map_append

end HeaderBridge
