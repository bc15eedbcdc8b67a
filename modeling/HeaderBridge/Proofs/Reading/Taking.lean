/-
  Two ways of reading tokens. In the strict one the tokens that were read are those of the row
  (`HasRead`); in the other one (`HasTaken`) they are those of the row in which double brackets may
  have been taken apart, before them or behind them. What a rule comes to is written by the tokens
  that it has read, in whichever way it reads (`WritesAt`). The ways differ only where a list may
  end: there a strict reading must meet no double bracket (`Mends`).
-/
import HeaderBridge.Proofs.Reading.Finding

namespace HeaderBridge

open ReadState (kindOf HasRead)

namespace ReadState

variable {s s' s'' : ReadState} {front front' : List Token}

/-- These tokens were read of a row of which brackets may have been taken apart meanwhile. -/
def HasTaken (s : ReadState) (front : List Token) (s' : ReadState) : Prop :=
  ∃ rest, Halved s.rest (front ++ rest) ∧ s' = s.past front rest

namespace HasTaken

theorem of_read (h : HasRead s front s') : HasTaken s front s' := by
  obtain ⟨rest, hr, rfl⟩ := h
  exact ⟨rest, by rw [hr]; exact Halved.refl _, rfl⟩

theorem refl (s : ReadState) : HasTaken s [] s := of_read (.refl s)

theorem trans (h : HasTaken s front s') (h' : HasTaken s' front' s'') :
    HasTaken s (front ++ front') s'' := by
  obtain ⟨rest, hr, rfl⟩ := h
  obtain ⟨rest', hr', rfl⟩ := h'
  refine ⟨rest', ?_, past_past⟩
  rw [List.append_assoc]
  exact hr.trans ((Halved.refl front).append hr')

theorem speculating (h : HasTaken s front s') : s'.speculating = s.speculating := by
  obtain ⟨rest, _, rfl⟩ := h
  rfl

/-- The row that was there is the one that was read and the one that is left. -/
theorem halved (h : HasTaken s front s') : Halved s.rest (front ++ s'.rest) := by
  obtain ⟨rest, hr, rfl⟩ := h
  exact hr

/-- Only the row of tokens counts for what is taken of it. -/
theorem speculate (b : Bool) (h : HasTaken { s with speculating := true } front s') :
    HasTaken { s with speculating := b } front { s' with speculating := b } := by
  obtain ⟨rest, hr, rfl⟩ := h
  exact ⟨rest, hr, rfl⟩

/-- Taking the current token apart reads nothing. -/
theorem split (h : s.splitShiftRight = .ok s') : HasTaken s [] s' := by
  rcases splitShiftRight_cases h with ⟨_, rfl⟩ | ⟨t, a, b, rest, hr, hv, rfl⟩
  · exact .refl s'
  · refine ⟨a :: b :: rest, ?_, rfl⟩
    rw [hr]
    exact .halve hv (Halved.refl rest)

/-- A token of a kind is read, if it is the current one. -/
theorem exists_advance {kind : TokenKind} (hc : s.current = kind) (hk : kind ≠ .endOfFile) :
    ∃ t, t.kind = kind ∧ HasTaken s [t] s.advance := by
  obtain ⟨t, ht, hread⟩ := HasRead.exists_advance hc hk
  exact ⟨t, ht, of_read hread⟩

end HasTaken

end ReadState

open ReadState (HasTaken)

/-! ## Ways of reading -/

/-- What both ways of reading tokens have in common. -/
structure TakesTokens (R : ReadState → List Token → ReadState → Prop) : Prop where
  of_read : ∀ {s front s'}, HasRead s front s' → R s front s'
  trans : ∀ {s front s' front' s''}, R s front s' → R s' front' s'' → R s (front ++ front') s''
  speculating : ∀ {s front s'}, R s front s' → s'.speculating = s.speculating
  halved : ∀ {s front s'}, R s front s' → Halved s.rest (front ++ s'.rest)

theorem takesTokens_hasRead : TakesTokens HasRead where
  of_read h := h
  trans := HasRead.trans
  speculating := HasRead.speculating
  halved h := by
    rw [h.rest_eq]
    exact Halved.refl _

theorem takesTokens_hasTaken : TakesTokens HasTaken where
  of_read := HasTaken.of_read
  trans := HasTaken.trans
  speculating := HasTaken.speculating
  halved := HasTaken.halved

theorem TakesTokens.exists_trans {R : ReadState → List Token → ReadState → Prop}
    (hR : TakesTokens R) {s s' s'' : ReadState} {front : List Token} (h : R s front s')
    (h' : ∃ behind, R s' behind s'') : ∃ all, R s all s'' := by
  obtain ⟨behind, hbehind⟩ := h'
  exact ⟨_, hR.trans h hbehind⟩

namespace Rule

variable {α : Type} {R : ReadState → List Token → ReadState → Prop} {s : ReadState}

/-- No double bracket stands behind tokens of a kind. -/
def NoDouble (opened : List Token → Prop) (ts : List Token) : Prop :=
  ∀ piece d us, opened piece → d.kind = .shiftRight → ts ≠ piece ++ d :: us

/-- Behind tokens of a kind, a double bracket may be taken apart in this way of reading. -/
def Mends (R : ReadState → List Token → ReadState → Prop) (opened : List Token → Prop)
    (s : ReadState) : Prop :=
  ∀ piece s₁ s₂, opened piece → R s piece s₁ → s₁.splitShiftRight = .ok s₂ → R s₁ [] s₂

theorem mends_hasRead {opened : List Token → Prop} (h : NoDouble opened s.rest) :
    Mends HasRead opened s := by
  intro piece s₁ s₂ hpiece hread hsplit
  rcases ReadState.splitShiftRight_cases hsplit with ⟨_, rfl⟩ | ⟨d, _, _, us, hr, hv, _⟩
  · exact .refl s₂
  · exact absurd (by rw [hread.rest_eq, hr]) (h piece d us hpiece hv.kind)

theorem mends_hasTaken (opened : List Token → Prop) (s : ReadState) : Mends HasTaken opened s :=
  fun _ _ _ _ _ hsplit => .split hsplit

theorem Mends.behind {opened opened' : List Token → Prop} {front : List Token} {s' : ReadState}
    (hR : TakesTokens R) (h : Mends R opened s) (hread : R s front s')
    (hopened : ∀ piece s₁, R s' piece s₁ → opened' piece → opened (front ++ piece)) :
    Mends R opened' s' :=
  fun piece s₁ s₂ hpiece hpast hsplit =>
    h _ s₁ s₂ (hopened piece s₁ hpast hpiece) (hR.trans hread hpast) hsplit

theorem Mends.mono {opened opened' : List Token → Prop} (h : Mends R opened s)
    (hopened : ∀ piece, opened' piece → opened piece) : Mends R opened' s :=
  fun piece s₁ s₂ hpiece => h piece s₁ s₂ (hopened piece hpiece)

/-- Unless it breaks, the rule reads tokens that write its value, or it fails behind some. -/
def WritesAt (R : ReadState → List Token → ReadState → Prop) (r : Rule α)
    (written : List Token → α → Prop) (s : ReadState) : Prop :=
  Ends True r s (fun a s' => ∃ front, R s front s' ∧ written front a)
    fun _ s' => ∃ front, R s front s'

/-- A double bracket is taken apart where a list may end. -/
theorem writesAt_splitCloser (hR : TakesTokens R) {opened : List Token → Prop}
    {piece : List Token} {s₁ : ReadState} (hm : Mends R opened s) (hpiece : opened piece)
    (hread : R s piece s₁) :
    Ends True (splitCloser .greater) s₁ (fun _ s' => R s piece s') fun _ _ => False := by
  rw [show splitCloser .greater = modifyOrBreak ReadState.splitShiftRight from if_pos rfl]
  refine ends_modifyOrBreak.mpr fun s₂ hsplit => ?_
  have hboth := hR.trans hread (hm piece s₁ s₂ hpiece hread hsplit)
  rw [List.append_nil] at hboth
  exact hboth

end Rule

end HeaderBridge
