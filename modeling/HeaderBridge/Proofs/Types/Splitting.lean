/-
  What reading a type in a speculation does to a state: it moves along the tokens and may take
  double brackets apart, and that is all (`Shifts`). Behind an open spelling a double bracket is
  taken apart in any case (`Splits`), whatever stands behind it and however the reading ends.
-/
import HeaderBridge.Proofs.Types.Tracking

namespace HeaderBridge

open ReadState (kindOf)

namespace ReadState

variable {s s' s'' : ReadState}

/-- Tokens were read, and perhaps some double brackets taken apart. -/
def Shifts (s s' : ReadState) : Prop :=
  ∃ front rest, Halved s.rest (front ++ rest) ∧ s' = s.past front rest

/-- The same, with at least one double bracket taken apart. -/
def Splits (s s' : ReadState) : Prop :=
  ∃ front rest, Halved s.rest (front ++ rest) ∧ s.rest.length < (front ++ rest).length ∧
    s' = s.past front rest

theorem Splits.shifts (h : Splits s s') : Shifts s s' := by
  obtain ⟨front, rest, hr, _, rfl⟩ := h
  exact ⟨front, rest, hr, rfl⟩

theorem Reads.shifts (h : Reads s s') : Shifts s s' := by
  obtain ⟨front, rest, hr, rfl⟩ := h
  exact ⟨front, rest, by rw [hr]; exact Halved.refl _, rfl⟩

theorem Shifts.refl (s : ReadState) : Shifts s s := (Reads.refl s).shifts

theorem Shifts.trans (h : Shifts s s') (h' : Shifts s' s'') : Shifts s s'' := by
  obtain ⟨front, rest, hr, rfl⟩ := h
  obtain ⟨front', rest', hr', rfl⟩ := h'
  refine ⟨front ++ front', rest', ?_, past_past⟩
  rw [List.append_assoc]
  exact hr.trans ((Halved.refl front).append hr')

theorem Splits.trans_left (h : Splits s s') (h' : Shifts s' s'') : Splits s s'' := by
  obtain ⟨front, rest, hr, hl, rfl⟩ := h
  obtain ⟨front', rest', hr', rfl⟩ := h'
  have hlen := ((Halved.refl front).append hr').length_le
  refine ⟨front ++ front', rest', ?_, ?_, past_past⟩
  · rw [List.append_assoc]
    exact hr.trans ((Halved.refl front).append hr')
  · rw [List.append_assoc]
    exact Nat.lt_of_lt_of_le hl hlen

theorem Splits.trans_right (h : Shifts s s') (h' : Splits s' s'') : Splits s s'' := by
  obtain ⟨front, rest, hr, rfl⟩ := h
  obtain ⟨front', rest', hr', hl, rfl⟩ := h'
  refine ⟨front ++ front', rest', ?_, ?_, past_past⟩
  · rw [List.append_assoc]
    exact hr.trans ((Halved.refl front).append hr')
  · have hlen := hr.length_le
    rw [past_rest] at hl
    simp only [List.length_append] at hl hlen ⊢
    omega

theorem Shifts.speculating (h : Shifts s s') : s'.speculating = s.speculating := by
  obtain ⟨front, rest, _, rfl⟩ := h
  rfl

theorem shifts_halve {t a b : Token} {rest : List Token} (hr : s.rest = t :: rest)
    (hv : Halves t a b) : Splits s { s with rest := a :: b :: rest } := by
  refine ⟨[], a :: b :: rest, ?_, ?_, rfl⟩
  · rw [hr]
    exact .halve hv (Halved.refl rest)
  · rw [hr]
    simp

/-- Moving along the tokens and taking brackets apart is all that a type in a speculation does. -/
theorem tracks_shifts : Tracks Shifts where
  refl := Shifts.refl
  trans := Shifts.trans
  speculating := Shifts.speculating
  advance _ := (Reads.advance _).shifts
  halve hr hv := (shifts_halve hr hv).shifts

end ReadState

open ReadState (Shifts Splits tracks_shifts)

namespace Rule

variable {α β : Type} {s : ReadState}

/-! ## Rules that only shift -/

/-- Unless it breaks, the rule does nothing but read and take brackets apart. -/
def ShiftsAt (r : Rule α) (s : ReadState) : Prop :=
  Ends True r s (fun _ s' => Shifts s s') fun _ s' => Shifts s s'

/-- Unless it breaks, the rule takes a bracket apart, and does nothing else but read. -/
def SplitsAt (r : Rule α) (s : ReadState) : Prop :=
  Ends True r s (fun _ s' => Splits s s') fun _ s' => Splits s s'

theorem ShiftsAt.bind {r : Rule β} {f : β → Rule α} (h : ShiftsAt r s)
    (hf : ∀ b s', Shifts s s' → ShiftsAt (f b) s') : ShiftsAt (r >>= f) s :=
  ends_bind.mpr (h.mono
    (fun b s' hs => (hf b s' hs).mono (fun _ _ h => hs.trans h) fun _ _ h => hs.trans h)
    fun _ _ hs => hs)

theorem SplitsAt.bind {r : Rule β} {f : β → Rule α} (h : SplitsAt r s)
    (hf : ∀ b s', Splits s s' → ShiftsAt (f b) s') : SplitsAt (r >>= f) s :=
  ends_bind.mpr (h.mono
    (fun b s' hs => (hf b s' hs).mono (fun _ _ h => hs.trans_left h) fun _ _ h => hs.trans_left h)
    fun _ _ hs => hs)

theorem ShiftsAt.of_reads {r : Rule α}
    (h : Ends True r s (fun _ s' => s.Reads s') fun _ s' => s.Reads s') : ShiftsAt r s :=
  h.mono (fun _ _ h => h.shifts) fun _ _ h => h.shifts

theorem ShiftsAt.pure (a : α) (s : ReadState) : ShiftsAt (pure a) s := Shifts.refl s

theorem ShiftsAt.state {f : ReadState → Rule α} (h : ShiftsAt (f s) s) :
    ShiftsAt (Rule.state >>= f) s :=
  ends_bind.mpr h

theorem ShiftsAt.map {r : Rule β} (f : β → α) (h : ShiftsAt r s) : ShiftsAt (f <$> r) s :=
  ends_map.mpr h

theorem ShiftsAt.advance (s : ReadState) : ShiftsAt advance s := (ReadState.Reads.advance s).shifts

theorem ShiftsAt.identifier (cause : SyntaxError.Cause) (s : ReadState) :
    ShiftsAt (identifier cause) s :=
  TracksAt.identifier tracks_shifts cause s

theorem SplitsAt.splitCloser (hc : s.current = .shiftRight) :
    SplitsAt (splitCloser .greater) s :=
  Ends.splitCloser (fun hne => absurd hc (hne rfl)) fun _ hr hv => ReadState.shifts_halve hr hv

/-- What a rule finds in front of the tokens as they are, it finds without taking one apart, since
    that would make the row longer. -/
theorem Finds.exact {r : Rule α} {front us : List Token} {a : α} (h : Finds r front us a s)
    (hs : ShiftsAt r s) (hr : s.rest = front ++ us) :
    Ends True r s (fun b s' => b = a ∧ s' = s.past front us) fun _ _ => False := by
  unfold Finds Ends at h
  unfold ShiftsAt Ends at hs
  unfold Ends
  cases hrun : r s with
  | done b s' =>
    rw [hrun] at h hs
    obtain ⟨hb, ts, rfl, hts⟩ := h
    obtain ⟨front', rest, hrow, hpast⟩ := hs
    have hfront : front = front' := by
      have := congrArg ReadState.passed hpast
      simpa using this
    have hrest : ts = rest := congrArg ReadState.rest hpast
    subst hfront hrest
    have hlen := hrow.length_le
    rw [hr, List.length_append, List.length_append] at hlen
    exact ⟨hb, by rw [hts.eq_of_length (by omega)]⟩
  | failed e s' => rw [hrun] at h; exact h
  | broken f => trivial

end Rule

namespace Grammar

open Rule

variable {s : ReadState}

/-! ## Types shift -/

theorem qualifiers_shiftsAt (s : ReadState) : ShiftsAt qualifiers s :=
  qualifiers_tracksAt tracks_shifts s

theorem baseName_shiftsAt (s : ReadState) : ShiftsAt baseName s := baseName_tracksAt tracks_shifts s

theorem stars_shiftsAt (fuel : Nat) (type : ObjcType) (found : Option Nullability) (s : ReadState) :
    ShiftsAt (stars fuel type found) s :=
  stars_tracksAt tracks_shifts fuel type found s

theorem objcType_shiftsAt (fuel : Nat) (s : ReadState) (hs : s.speculating = true) :
    ShiftsAt (objcType fuel) s :=
  objcType_tracksAt tracks_shifts fuel s hs

end Grammar

end HeaderBridge
