/-
  Double angle brackets that are taken apart. `Halved ts us` says that `us` is `ts` with some of
  its double brackets, perhaps none, replaced by their halves. This is all that reading ever does
  to the tokens of a source: it makes the row longer (`Halved.length_le`), the row is the same
  when its length is (`Halved.eq_of_length`), and what a parser can still read of it does not
  change (`Halved.weightOf_eq`).
-/
import HeaderBridge.Objc.ReadState

namespace HeaderBridge

open ReadState (kindOf weightOf)

/-- An element of two rows is one of the first row or one of the second one. -/
theorem cons_of_append_eq {α : Type} {as bs before after : List α} {x : α}
    (h : as ++ bs = before ++ x :: after) : (∃ more, as = before ++ x :: more) ∨
      ∃ more, before = as ++ more ∧ bs = more ++ x :: after := by
  rcases List.append_eq_append_iff.mp h with ⟨more, hmore, hbs⟩ | ⟨more, has, hcons⟩
  · exact Or.inr ⟨more, hmore, hbs⟩
  · cases more with
    | nil => exact Or.inr ⟨[], by rw [has, List.append_nil, List.append_nil], hcons.symm⟩
    | cons y more =>
      obtain ⟨rfl, _⟩ := List.cons.inj hcons
      exact Or.inl ⟨more, has⟩

/-! ## Halves -/

/-- Two tokens are the halves of a double angle bracket. -/
structure Halves (t a b : Token) : Prop where
  kind : t.kind = .shiftRight
  first_kind : a.kind = .greater
  second_kind : b.kind = .greater
  first_text : a.text = ">"
  second_text : b.text = ">"
  first_start : a.span.start = t.span.start
  first_stop : a.span.stop = t.span.start + 1
  second_start : b.span.start = t.span.start + 1
  second_stop : b.span.stop = t.span.stop

/-- The second row is the first with some double brackets taken apart. -/
inductive Halved : List Token → List Token → Prop where
  | nil : Halved [] []
  | keep {ts us : List Token} (t : Token) (rest : Halved ts us) : Halved (t :: ts) (t :: us)
  | halve {ts us : List Token} {t a b : Token} (halves : Halves t a b) (rest : Halved ts us) :
      Halved (t :: ts) (a :: b :: us)

namespace Halved

variable {ts us vs : List Token}

theorem refl (ts : List Token) : Halved ts ts := by
  induction ts with
  | nil => exact .nil
  | cons t ts ih => exact .keep t ih

theorem append {ts' us' : List Token} (h : Halved ts us) (h' : Halved ts' us') :
    Halved (ts ++ ts') (us ++ us') := by
  induction h with
  | nil => exact h'
  | keep t _ ih => exact .keep t ih
  | halve hv _ ih => exact .halve hv ih

/-- The halves of a bracket are single brackets, so nothing is taken apart twice. -/
theorem trans (h : Halved ts us) (h' : Halved us vs) : Halved ts vs := by
  induction h generalizing vs with
  | nil => exact h'
  | keep t _ ih =>
    cases h' with
    | keep _ hr => exact .keep t (ih hr)
    | halve hv hr => exact .halve hv (ih hr)
  | halve hv _ ih =>
    cases h' with
    | keep _ hr =>
      cases hr with
      | keep _ hr => exact .halve hv (ih hr)
      | halve hv' _ =>
        have := hv'.kind
        rw [hv.second_kind] at this
        cases this
    | halve hv' _ =>
      have := hv'.kind
      rw [hv.first_kind] at this
      cases this

/-- What is no angle bracket is left where it is. -/
theorem mem_iff (h : Halved ts us) {t : Token} (hdouble : t.kind ≠ .shiftRight)
    (hsingle : t.kind ≠ .greater) : t ∈ us ↔ t ∈ ts := by
  induction h with
  | nil => rfl
  | keep u _ ih => rw [List.mem_cons, List.mem_cons, ih]
  | @halve _ _ u a b hv _ ih =>
    have hu : t ≠ u := fun he => hdouble (he ▸ hv.kind)
    have ha : t ≠ a := fun he => hsingle (he ▸ hv.first_kind)
    have hb : t ≠ b := fun he => hsingle (he ▸ hv.second_kind)
    rw [List.mem_cons, List.mem_cons, List.mem_cons, ih]
    simp only [hu, ha, hb, false_or]

theorem mem_iff_of_kind (h : Halved ts us) {t : Token} {kind : TokenKind} (ht : t.kind = kind)
    (hkind : kind ∉ [.shiftRight, .greater]) : t ∈ us ↔ t ∈ ts := by
  simp only [List.mem_cons, List.not_mem_nil, or_false, not_or, ← ht] at hkind
  exact h.mem_iff hkind.1 hkind.2

theorem length_le (h : Halved ts us) : ts.length ≤ us.length := by
  induction h with
  | nil => exact Nat.le_refl 0
  | keep _ _ ih => simpa using ih
  | halve _ _ ih => simp only [List.length_cons]; omega

theorem eq_of_length (h : Halved ts us) (hl : us.length ≤ ts.length) : ts = us := by
  induction h with
  | nil => rfl
  | keep t _ ih => rw [ih (by simpa using hl)]
  | halve _ hr _ =>
    have := hr.length_le
    simp only [List.length_cons] at hl
    omega

theorem weightOf_eq (h : Halved ts us) : weightOf ts = weightOf us := by
  induction h with
  | nil => rfl
  | keep t _ ih => simp only [weightOf, List.map_cons, List.sum_cons] at ih ⊢; rw [ih]
  | halve hv _ ih =>
    simp only [weightOf, List.map_cons, List.sum_cons, hv.kind, hv.first_kind,
      hv.second_kind] at ih ⊢
    rw [ih]
    simp only [reduceIte, reduceCtorEq]
    omega

/-- The kind of the first token stays, unless a double bracket became a single one. -/
theorem kindOf_eq (h : Halved ts us) :
    kindOf ts = kindOf us ∨ (kindOf ts = .shiftRight ∧ kindOf us = .greater) := by
  cases h with
  | nil => exact Or.inl rfl
  | keep t _ => exact Or.inl rfl
  | halve hv _ => exact Or.inr ⟨hv.kind, hv.first_kind⟩

/-- A kind of the first token is kept, unless single brackets may come from a double one. -/
theorem kindOf_of (h : Halved ts us) {kind : TokenKind} (hu : kindOf us = kind)
    (hk : kind ≠ .greater) : kindOf ts = kind := by
  rcases h.kindOf_eq with he | ⟨_, he⟩
  · exact he.trans hu
  · exact absurd (hu.symm.trans he) hk

theorem kindOf_ne (h : Halved ts us) {kind : TokenKind} (hu : kindOf us ≠ kind)
    (hk : kind ≠ .shiftRight) : kindOf ts ≠ kind := by
  rcases h.kindOf_eq with he | ⟨he, _⟩
  · rwa [he]
  · rw [he]
    exact hk.symm

/-- A row whose brackets are taken apart starts as before, unless a double one did. -/
theorem kindOf_right (h : Halved ts us) {kind : TokenKind} (hts : kindOf ts = kind)
    (hk : kind ≠ .shiftRight) : kindOf us = kind := by
  rcases h.kindOf_eq with he | ⟨he, _⟩
  · exact he.symm.trans hts
  · exact absurd (hts.symm.trans he) hk

theorem of_nil (h : Halved ts []) : ts = [] := by
  cases h
  rfl

/-- In front of a token that is no single bracket nothing was taken apart. -/
theorem of_cons {u : Token} (h : Halved ts (u :: us)) (hu : u.kind ≠ .greater) :
    ∃ ts', ts = u :: ts' ∧ Halved ts' us := by
  cases h with
  | keep _ hr => exact ⟨_, rfl, hr⟩
  | halve hv _ => exact absurd hv.first_kind hu

theorem of_append {front : List Token} (h : Halved ts (front ++ us))
    (hf : ∀ t ∈ front, t.kind ≠ .greater) : ∃ ts', ts = front ++ ts' ∧ Halved ts' us := by
  induction front generalizing ts with
  | nil => exact ⟨ts, rfl, h⟩
  | cons u front ih =>
    obtain ⟨ts', rfl, hr⟩ := of_cons h (hf u List.mem_cons_self)
    obtain ⟨ts'', rfl, hr'⟩ := ih hr fun t ht => hf t (List.mem_cons_of_mem u ht)
    exact ⟨ts'', rfl, hr'⟩

/-- Where a row is cut at a token that is no double bracket, the halved row is cut there as well. -/
theorem of_append_left {front rest : List Token} {u : Token} (h : Halved (front ++ u :: rest) us)
    (hu : u.kind ≠ .shiftRight) : ∃ front' rest', us = front' ++ u :: rest' ∧ Halved front front' := by
  induction front generalizing us with
  | nil =>
    cases h with
    | @keep _ rest' _ _ => exact ⟨[], rest', rfl, .nil⟩
    | halve hv _ => exact absurd hv.kind hu
  | cons t front ih =>
    cases h with
    | keep _ hr =>
      obtain ⟨front', rest', rfl, hfront⟩ := ih hr
      exact ⟨t :: front', rest', rfl, .keep t hfront⟩
    | @halve _ _ _ a b hv hr =>
      obtain ⟨front', rest', rfl, hfront⟩ := ih hr
      exact ⟨a :: b :: front', rest', rfl, .halve hv hfront⟩

end Halved

/-! ## How much can be read -/

theorem weightOf_append (ts us : List Token) :
    weightOf (ts ++ us) = weightOf ts + weightOf us := by
  unfold weightOf
  rw [List.map_append, List.sum_append_nat]

theorem weightOf_pos {ts : List Token} (h : ts ≠ []) : 0 < weightOf ts := by
  cases ts with
  | nil => exact absurd rfl h
  | cons t ts =>
    simp only [weightOf, List.map_cons, List.sum_cons]
    split <;> omega

/-! ## Taking the current token apart -/

namespace ReadState

theorem splitShiftRight_of_ne {s : ReadState} (h : s.current ≠ .shiftRight) :
    s.splitShiftRight = .ok s := by
  unfold splitShiftRight
  split
  · rfl
  · next t rest hr =>
    have ht : t.kind ≠ .shiftRight := by simpa [current, kindOf, hr] using h
    rw [if_neg ht]

/-- A double bracket that has at least one byte is taken apart. -/
theorem splitShiftRight_of_cons {s : ReadState} {t : Token} {rest : List Token}
    (hr : s.rest = t :: rest) (hk : t.kind = .shiftRight) (hs : t.span.start < t.span.stop) :
    ∃ a b, Halves t a b ∧ s.splitShiftRight = .ok { s with rest := a :: b :: rest } := by
  refine ⟨⟨.greater, ">", ⟨t.span.start, t.span.start + 1, by omega⟩⟩,
    ⟨.greater, ">", ⟨t.span.start + 1, t.span.stop, hs⟩⟩, ?_, ?_⟩
  · exact ⟨hk, rfl, rfl, rfl, rfl, rfl, rfl, rfl, rfl⟩
  · have h₁ : t.span.start ≤ t.span.start + 1 := by omega
    have h₂ : t.span.start + 1 ≤ t.span.stop := hs
    unfold splitShiftRight
    rw [hr]
    simp only [hk, if_true]
    unfold Span.between
    rw [dif_pos h₁, dif_pos h₂]
    rfl

theorem splitShiftRight_cases {s s' : ReadState} (h : s.splitShiftRight = .ok s') :
    (s.current ≠ .shiftRight ∧ s' = s) ∨ ∃ t a b rest, s.rest = t :: rest ∧ Halves t a b ∧
      s' = { s with rest := a :: b :: rest } := by
  by_cases hc : s.current = .shiftRight
  · right
    cases hr : s.rest with
    | nil => simp [current, kindOf, hr] at hc
    | cons t rest =>
      have hk : t.kind = .shiftRight := by simpa [current, kindOf, hr] using hc
      by_cases hs : t.span.start < t.span.stop
      · obtain ⟨a, b, hv, he⟩ := splitShiftRight_of_cons hr hk hs
        rw [he] at h
        cases h
        exact ⟨t, a, b, rest, rfl, hv, rfl⟩
      · unfold splitShiftRight at h
        rw [hr] at h
        simp only [hk, if_true] at h
        unfold Span.between at h
        rw [dif_pos (by omega), dif_neg (by omega)] at h
        cases h
  · rw [splitShiftRight_of_ne hc] at h
    cases h
    exact Or.inl ⟨hc, rfl⟩

end ReadState

end HeaderBridge
